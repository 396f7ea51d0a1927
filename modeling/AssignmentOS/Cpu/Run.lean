import AssignmentOS.Common
import AssignmentOS.Mm.Limit

/-!
# Executing an instruction

`run` of `cpu.c` with the system calls behind it, as built with `MM_PAGING`.
-/

namespace AssignmentOS.Cpu

open Memory Fallible Mm

variable {env : Env} {caller : PcbDevices} {s s' : MmState}

-- ---------------------------------------------------------------------------
-- System calls
-- ---------------------------------------------------------------------------

/-- `__sys_listsyscall` prints the table. -/
def sysListsyscall (s : MmState) : Int × MmState := (0, s)

def sysNiSyscall (s : MmState) : Int × MmState := (0, s)

def procNameSz : Nat := 100

/-- `libread` as `__sys_killall` calls it: source, offset and `*destination`. -/
abbrev Libread (σ : Type) := UInt32 → UInt32 → UInt32 → σ → Except Fault (Int × UInt32 × σ)

/-- The loop of `__sys_killall`, with room for `left` more bytes in `proc_name`. -/
def killallLoop {σ : Type} (libread : Libread σ) (memrg : UInt32) :
    (left : Nat) → (i data : UInt32) → (procName : List Byte) → σ → Except Fault (List Byte × σ)
  | 0, i, data, procName, s =>
    if data = -1 then .ok (procName, s)
    else do
      let _ ← libread memrg i data s
      .error .procName
  | left + 1, i, data, procName, s =>
    if data = -1 then .ok (procName, s)
    else do
      let (_, data, s) ← libread memrg i data s
      killallLoop libread memrg left (i + 1) data
        (procName ++ [if data = -1 then 0 else asByte data]) s

/-- `__sys_killall`: the return value, `proc_name` and the state. -/
def sysKillall {σ : Type} (libread : Libread σ) (regs : ScRegs) (s : σ) :
    Except Fault (Int × List Byte × σ) := do
  let (procName, s) ← killallLoop libread regs.a1 procNameSz 0 0 [] s
  .ok (0, procName, s)

/-- `syscall`, with the table of `syscall.tbl`. -/
def syscall (env : Env) (caller : PcbDevices) (nr : UInt32) (regs : ScRegs) (s : MmState) :
    Except Fault (Int × MmState) :=
  if nr = 0 then .ok (sysListsyscall s)
  else if nr = 17 then do
    let (ret, _, s) ← memmapCall env caller regs s
    .ok (ret, s)
  else if nr = 101 then do
    let (ret, _, s) ← sysKillall (libread env caller) regs s
    .ok (ret, s)
  else .ok (sysNiSyscall s)

def libsyscall (env : Env) (caller : PcbDevices) (syscallIdx a1 a2 a3 : UInt32) (s : MmState) :
    Except Fault (Int × MmState) :=
  syscall env caller syscallIdx ⟨a1, a2, a3⟩ s

-- ---------------------------------------------------------------------------
-- cpu.c
-- ---------------------------------------------------------------------------

def calcInst (s : MmState) : Int × MmState := (0, s)

/-- The `switch` of `run`: `stat` and the state. -/
def dispatch (env : Env) (caller : PcbDevices) (ins : Inst) (s : MmState) :
    Except Fault (Int × MmState) :=
  match ins.opcode with
  | .calc => .ok (calcInst s)
  | .alloc => liballoc env s ins.arg0 ins.arg1
  | .free => libfree s ins.arg0
  | .read => do
    -- `&ins.arg_2` points into the local copy of the instruction
    let (stat, _, s) ← libread env caller ins.arg0 ins.arg1 ins.arg2 s
    .ok (stat, s)
  | .write => libwrite env caller (asByte ins.arg0) ins.arg1 ins.arg2 s
  | .syscall => libsyscall env caller ins.arg0 ins.arg1 ins.arg2 ins.arg3 s

def run (env : Env) (caller : PcbDevices) (proc : Pcb) (s : MmState) :
    Except Fault (Int × Pcb × MmState) :=
  match proc.fetch with
  | none => .ok (1, proc, s)
  | some (ins, proc) => do
    let (stat, s) ← dispatch env caller ins s
    .ok (stat, proc, s)

theorem run_fetch (hf : proc.fetch = some (ins, proc')) :
    run env caller proc s = dispatch env caller ins s >>= fun r => .ok (r.1, proc', r.2) := by
  unfold run
  rw [hf]

theorem run_ok_iff (hf : proc.fetch = some (ins, proc')) :
    run env caller proc s = .ok (stat, proc'', s') ↔
      proc'' = proc' ∧ dispatch env caller ins s = .ok (stat, s') := by
  rw [run_fetch hf, bind_eq_ok]
  constructor
  · rintro ⟨⟨_, _⟩, hd, h⟩
    cases h
    exact ⟨rfl, hd⟩
  · rintro ⟨rfl, hd⟩
    exact ⟨_, hd, rfl⟩

theorem run_error_iff (hf : proc.fetch = some (ins, proc')) :
    run env caller proc s = .error e ↔ dispatch env caller ins s = .error e := by
  rw [run_fetch hf, bind_eq_error]
  constructor
  · rintro (hd | ⟨_, _, h⟩)
    · exact hd
    · cases h
  · exact .inl

def oneInst (ins : Inst) : CodeSeg := ⟨[ins], show 1 < UInt32.size by decide⟩

def only (ins : Inst) : Pcb := ⟨oneInst ins, 0⟩

theorem only_fetch (ins : Inst) : (only ins).fetch = some (ins, ⟨oneInst ins, 1⟩) := by
  simp [only, oneInst, Pcb.fetch, CodeSeg.size]

-- ---------------------------------------------------------------------------
-- Reading and writing
-- ---------------------------------------------------------------------------

/-- `libread` writes nothing to its destination. -/
theorem libread_destination (h : libread env caller source offset dst s = .ok (ret, dst', s')) :
    dst' = dst := by
  simp only [libread, bind_eq_ok] at h
  obtain ⟨⟨_, _⟩, -, _, -, h⟩ := h
  cases h
  rfl

/-- An access of area 0 that returns has found the area: `print_pgtbl` has followed it. -/
theorem libread_ok (h : libread env caller source offset dst s = .ok (ret, dst', s')) :
    ret = 0 ∨ ret = -1 ∧ s' = s ∧ getSymrgByid (asInt source) = none := by
  simp only [libread, bind_eq_ok] at h
  obtain ⟨⟨_, _⟩, hread, _, hprint, h⟩ := h
  cases h
  rcases accessRegion_ok hread with hret | ⟨hret, rfl, hsym | hvma⟩
  · exact .inl hret
  · exact .inr ⟨hret, rfl, hsym⟩
  · rw [printPgtbl_none hvma] at hprint
    cases hprint

theorem libwrite_ok (h : libwrite env caller data destination offset s = .ok (ret, s')) :
    ret = 0 ∨ ret = -1 ∧ s' = s ∧ getSymrgByid (asInt destination) = none := by
  simp only [libwrite, bind_eq_ok] at h
  obtain ⟨_, hprint, hwrite⟩ := h
  rcases accessRegion_ok hwrite with hret | ⟨hret, rfl, hsym | hvma⟩
  · exact .inl hret
  · exact .inr ⟨hret, rfl, hsym⟩
  · rw [printPgtbl_none hvma] at hprint
    cases hprint

theorem libread_fails (env : Env) (caller : PcbDevices) (source offset dst : UInt32) (s : MmState) :
    FailsOnly (fun e => e = .symrgtbl ∨ e.Paging) (libread env caller source offset dst s) :=
  failsOnly_bind (accessRegion_fails_any (fun addr => pgAccess_fails env caller addr) _ _ _ _)
    fun _ _ =>
    failsOnly_bind ((printPgtbl_fails _).mono fun _ => .inr) fun _ _ => failsOnly_ok _ _

-- ---------------------------------------------------------------------------
-- killall
-- ---------------------------------------------------------------------------

section
variable {σ : Type} {libread : Libread σ} {allowed : Fault → Prop}

theorem killallLoop_fails (hread : ∀ i data s, FailsOnly allowed (libread memrg i data s))
    (hname : allowed .procName) (left : Nat) (i data : UInt32) (procName : List Byte) (s : σ) :
    FailsOnly allowed (killallLoop libread memrg left i data procName s) := by
  induction left generalizing i data procName s with
  | zero =>
    unfold killallLoop
    split
    · exact failsOnly_ok _ _
    · exact failsOnly_bind (hread _ _ _) fun _ _ => failsOnly_error hname
  | succ left ih =>
    unfold killallLoop
    split
    · exact failsOnly_ok _ _
    · exact failsOnly_bind (hread _ _ _) fun _ _ => ih _ _ _ _

end

-- ---------------------------------------------------------------------------
-- syscall
-- ---------------------------------------------------------------------------

theorem dispatch_syscall (env : Env) (caller : PcbDevices) (hop : ins.opcode = .syscall)
    (s : MmState) :
    dispatch env caller ins s = syscall env caller ins.arg0 ⟨ins.arg1, ins.arg2, ins.arg3⟩ s := by
  rw [dispatch, hop]
  rfl

theorem syscall_memmap (env : Env) (caller : PcbDevices) (regs : ScRegs) (s : MmState) :
    syscall env caller 17 regs s = memmapCall env caller regs s >>= fun r => .ok (r.1, r.2.2) := rfl

theorem syscall_fails (env : Env) (caller : PcbDevices) (hnr : nr ≠ 17) (regs : ScRegs)
    (s : MmState) :
    FailsOnly (fun e => e = .procName ∨ e = .symrgtbl ∨ e.Paging)
      (syscall env caller nr regs s) := by
  unfold syscall
  split
  · exact failsOnly_ok _ _
  split
  · refine failsOnly_bind (failsOnly_bind (killallLoop_fails ?_ (.inl rfl) _ _ _ _ _) fun _ _ =>
      failsOnly_ok _ _) fun _ _ => failsOnly_ok _ _
    exact fun i data s => (libread_fails env caller _ i data s).mono fun _ => .inr
  · exact failsOnly_ok _ _

end AssignmentOS.Cpu
