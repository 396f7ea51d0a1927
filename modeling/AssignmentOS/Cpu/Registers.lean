import AssignmentOS.Cpu.Run

/-!
# The registers of a process

`run` again, with the registers and with the places that a pointer handed down
to `libread` can point to. READ passes `&ins.arg_2`, the operand of its own copy
of the instruction, so what is stored there ends with the call. The legacy `read`
stores in `proc->regs` itself.
-/

namespace AssignmentOS.Cpu

open Memory Fallible Mm

-- ---------------------------------------------------------------------------
-- Pointers
-- ---------------------------------------------------------------------------

abbrev numRegs : Nat := 10

abbrev Regs := Vector UInt32 numRegs

/-- A process, of which `run` sees the code, `pc` and the registers. -/
structure Proc where
  pcb : Pcb
  regs : Regs

/-- While `run` is executing: the process and the local `ins`. -/
structure Frame where
  proc : Proc
  ins : Inst

inductive WordPtr
  -- `&ins.arg_2`
  | arg2
  -- `&proc->code->text[i].arg_2`
  | text (i : Nat)
  -- `&proc->regs[i]`
  | reg (i : Fin numRegs)

def CodeSeg.setArg2 (code : CodeSeg) (i : Nat) (x : UInt32) : CodeSeg where
  text := code.text.modify i fun ins => { ins with arg2 := x }
  size_lt := by simpa using code.size_lt

def Frame.store (fr : Frame) (x : UInt32) : WordPtr → Frame
  | .arg2 => { fr with ins := { fr.ins with arg2 := x } }
  | .text i => { fr with proc := { fr.proc with pcb := { fr.proc.pcb with
      code := CodeSeg.setArg2 fr.proc.pcb.code i x } } }
  | .reg i => { fr with proc := { fr.proc with regs := fr.proc.regs.set i x } }

def Frame.load (fr : Frame) : WordPtr → UInt32
  | .arg2 => fr.ins.arg2
  | .text i => (fr.proc.pcb.code.text[i]?.map Inst.arg2).getD 0
  | .reg i => fr.proc.regs[i]

-- ---------------------------------------------------------------------------
-- cpu.c
-- ---------------------------------------------------------------------------

abbrev LibreadAt := UInt32 → UInt32 → WordPtr → Frame → MmState →
    Except Fault (Int × Frame × MmState)

def runProc (libread : LibreadAt) (env : Env) (caller : PcbDevices) (proc : Proc) (s : MmState) :
    Except Fault (Int × Proc × MmState) :=
  match proc.pcb.fetch with
  | none => .ok (1, proc, s)
  | some (ins, pcb) => do
    let fr : Frame := ⟨{ proc with pcb := pcb }, ins⟩
    let (stat, fr, s) ← match ins.opcode with
      | .read => libread ins.arg0 ins.arg1 .arg2 fr s
      | _ => do
        let (stat, s) ← dispatch env caller ins s
        .ok (stat, fr, s)
    .ok (stat, fr.proc, s)

/-- `read`, as built without `MM_PAGING`. `readMem` is what `read_mem` answers and what
`data` holds then; `none` is an index outside `proc->regs`. -/
def read (readMem : UInt32 → Int × Byte) (regs : Regs) (source offset destination : UInt32) :
    Option (Int × Regs) := do
  let base ← regs[source.toNat]?
  let (ret, data) := readMem (base + offset)
  if ret ≠ 0 then
    if h : destination.toNat < numRegs then
      some (0, regs.set destination.toNat (ofByte data))
    else none
  else some (1, regs)

-- ---------------------------------------------------------------------------
-- What READ is to do
-- ---------------------------------------------------------------------------

/-- `libread` returns 0 and has stored `v` through its destination, wherever that points. -/
def Stores (libread : LibreadAt) (source offset : UInt32) (v : Byte) (s : MmState) : Prop :=
  ∀ dst fr, ∃ s', libread source offset dst fr s = .ok (0, fr.store (ofByte v) dst, s')

def Reads (readMem : UInt32 → Int × Byte) (v : Byte) : Prop :=
  ∀ addr, (readMem addr).1 ≠ 0 ∧ (readMem addr).2 = v

/-- The register has the value, nothing else has changed, and the legacy `read` does the same. -/
structure Delivered (proc proc' : Proc) (ins : Inst) (d : Fin numRegs) (v : Byte) : Prop where
  value : proc'.regs[d] = ofByte v
  others : ∀ i : Fin numRegs, i ≠ d → proc'.regs[i] = proc.regs[i]
  text : proc'.pcb.code.text = proc.pcb.code.text
  legacy : ∀ readMem, Reads readMem v → ∀ ret regs,
    read readMem proc.regs ins.arg0 ins.arg1 ins.arg2 = some (ret, regs) → regs = proc'.regs

def ReadDelivers (libread : LibreadAt) (env : Env) (caller : PcbDevices) (proc : Proc) (s : MmState)
    (ins : Inst) (d : Fin numRegs) (v : Byte) : Prop :=
  ∃ stat proc' s', runProc libread env caller proc s = .ok (stat, proc', s') ∧
    Delivered proc proc' ins d v

-- ---------------------------------------------------------------------------
-- What it does
-- ---------------------------------------------------------------------------

section
variable {libread : LibreadAt} {env : Env} {caller : PcbDevices} {proc : Proc}
  {s : MmState} {ins : Inst}

def libreadAt (env : Env) (caller : PcbDevices) : LibreadAt := fun source offset dst fr s => do
  let (ret, x, s) ← Mm.libread env caller source offset (fr.load dst) s
  .ok (ret, fr.store x dst, s)

theorem runProc_run (env : Env) (caller : PcbDevices) (proc : Proc) (s : MmState) :
    runProc (libreadAt env caller) env caller proc s =
      run env caller proc.pcb s >>= fun r => .ok (r.1, ⟨r.2.1, proc.regs⟩, r.2.2) := by
  unfold runProc run
  cases proc.pcb.fetch with
  | none => rfl
  | some r =>
    obtain ⟨ins, pcb⟩ := r
    cases hop : ins.opcode with
    | read =>
      simp only [hop, dispatch, libreadAt, Frame.load]
      cases Mm.libread env caller ins.arg0 ins.arg1 ins.arg2 s with
      | error e => rfl
      | ok r => rfl
    | _ =>
      simp only [hop]
      cases dispatch env caller ins s with
      | error e => rfl
      | ok r => rfl

theorem fetch_code {pcb pcb' : Pcb} (hf : pcb.fetch = some (ins, pcb')) : pcb'.code = pcb.code := by
  unfold Pcb.fetch at hf
  split at hf
  · cases hf
    rfl
  · cases hf

theorem runProc_read (env : Env) (caller : PcbDevices) (hf : proc.pcb.fetch = some (ins, pcb))
    (hop : ins.opcode = .read) (hread : Stores libread ins.arg0 ins.arg1 v s) :
    ∃ s', runProc libread env caller proc s = .ok (0, ⟨pcb, proc.regs⟩, s') := by
  obtain ⟨s', hs'⟩ := hread .arg2 ⟨⟨pcb, proc.regs⟩, ins⟩
  refine ⟨s', ?_⟩
  simp only [runProc, hf, hop, hs', ok_bind]
  rfl

theorem read_reads {readMem : UInt32 → Int × Byte} (hread : Reads readMem v)
    (h : read readMem regs source offset destination = some (ret, regs')) :
    ∃ hd : destination.toNat < numRegs, regs' = regs.set destination.toNat (ofByte v) hd := by
  simp only [read, Option.bind_eq_bind, Option.bind_eq_some_iff] at h
  obtain ⟨base, -, h⟩ := h
  obtain ⟨hret, rfl⟩ := hread (base + offset)
  rw [if_pos hret] at h
  split at h
  · rename_i hd
    cases h
    exact ⟨hd, rfl⟩
  · cases h

theorem read_delivers (env : Env) (caller : PcbDevices) (hf : proc.pcb.fetch = some (ins, pcb))
    (hop : ins.opcode = .read) (hd : ins.arg2.toNat < numRegs)
    (hread : Stores libread ins.arg0 ins.arg1 v s) :
    ReadDelivers libread env caller proc s ins ⟨ins.arg2.toNat, hd⟩ v ↔
      proc.regs[ins.arg2.toNat] = ofByte v := by
  obtain ⟨s', hrun⟩ := runProc_read env caller hf hop hread
  constructor
  · rintro ⟨stat, proc', s'', hrun', hdeliv⟩
    rw [hrun] at hrun'
    cases hrun'
    exact hdeliv.value
  · intro hvalue
    refine ⟨0, _, s', hrun, hvalue, fun _ _ => rfl, ?_, fun readMem hmem ret regs hlegacy => ?_⟩
    · rw [fetch_code hf]
    · obtain ⟨_, rfl⟩ := read_reads hmem hlegacy
      rw [← hvalue, Vector.set_getElem_self]

end

def finding (v : Byte) : LibreadAt := fun _ _ dst fr s => .ok (0, fr.store (ofByte v) dst, s)

def readTwo (x : UInt32) : Proc := ⟨only ⟨.read, 1, 0, 2, 0⟩, .replicate numRegs x⟩

theorem finding_stores (v : Byte) (source offset : UInt32) (s : MmState) :
    Stores (finding v) source offset v s :=
  fun _ _ => ⟨s, rfl⟩

theorem read_delivers_same :
    ReadDelivers (finding 7) (.filled 0) ⟨some 0, some 1⟩ (readTwo 7) (.started (blank 0) .empty)
      ⟨.read, 1, 0, 2, 0⟩ 2 7 := by
  have hf : (readTwo 7).pcb.fetch = some (⟨.read, 1, 0, 2, 0⟩, ⟨oneInst _, 1⟩) := only_fetch _
  have hd : (2 : UInt32).toNat < numRegs := by decide
  exact (read_delivers (.filled 0) ⟨some 0, some 1⟩ hf rfl hd (finding_stores 7 1 0 _)).2 rfl

/-- The byte is 7, the register keeps its 0. -/
theorem read_delivers_lost : ∃ proc' s',
    runProc (finding 7) (.filled 0) ⟨some 0, some 1⟩ (readTwo 0) (.started (blank 0) .empty) =
        .ok (0, proc', s') ∧
      proc'.regs[2] = 0 ∧
      ¬ ReadDelivers (finding 7) (.filled 0) ⟨some 0, some 1⟩ (readTwo 0)
        (.started (blank 0) .empty)
        ⟨.read, 1, 0, 2, 0⟩ 2 7 := by
  have hf : (readTwo 0).pcb.fetch = some (⟨.read, 1, 0, 2, 0⟩, ⟨oneInst _, 1⟩) := only_fetch _
  obtain ⟨s', hrun⟩ := runProc_read (.filled 0) ⟨some 0, some 1⟩ hf rfl
    (finding_stores 7 1 0 (.started (blank 0) .empty))
  refine ⟨_, s', hrun, rfl, ?_⟩
  rintro ⟨stat, proc', s'', hrun', hdeliv⟩
  rw [hrun] at hrun'
  cases hrun'
  exact absurd hdeliv.value (by decide)


end AssignmentOS.Cpu
