import AssignmentOS.Cpu.Run

/-!
# Reported failures

`cpu.h` promises that `run` returns 0 only if the instruction has succeeded.
Three layers drop the errors of the one below: `__alloc` that of the search for
a region, `__sys_memmap` and `__swap_cp_page` those of the devices.
-/

namespace AssignmentOS.Cpu

open Memory Fallible Mm

variable {env : Env} {caller : PcbDevices} {s s' : MmState} {proc proc' : Pcb} {ins : Inst}

-- ---------------------------------------------------------------------------
-- Devices that refuse
-- ---------------------------------------------------------------------------

/-- `MEMPHY_read` and `MEMPHY_write` answer -1: there is no device, or it is a sequential one. -/
def Refuses (devs : Devices) : Option DevId → Prop
  | none => True
  | some d => (devs d).rdmflg = 0

def SameModes (devs devs' : Devices) : Prop := ∀ d, (devs' d).rdmflg = (devs d).rdmflg

theorem SameModes.refuses (h : SameModes devs devs') (mp : Option DevId) :
    Refuses devs' mp ↔ Refuses devs mp := by
  cases mp with
  | none => exact Iff.rfl
  | some d => rw [Refuses, Refuses, h d]

theorem read_refuses (h : memphyRead devs mp addr value = some (ret, v, devs')) :
    (ret ≠ 0 ↔ Refuses devs mp) ∧ SameModes devs devs' := by
  cases mp with
  | none =>
    cases h
    exact ⟨by simp [Refuses], fun _ => rfl⟩
  | some d =>
    by_cases hd : (devs d).rdmflg = 0
    · simp only [memphyRead, memphySeqRead, hd, ne_eq, not_true, if_false, if_true] at h
      cases h
      exact ⟨by simp [Refuses, hd], fun _ => rfl⟩
    · simp only [memphyRead, hd, ne_eq, not_false_eq_true, if_true, Option.bind_eq_bind,
        Option.bind_eq_some_iff] at h
      obtain ⟨_, -, h⟩ := h
      cases h
      exact ⟨by simp [Refuses, hd], fun _ => rfl⟩

theorem write_refuses (h : memphyWrite devs mp addr value = some (ret, devs')) :
    (ret ≠ 0 ↔ Refuses devs mp) ∧ SameModes devs devs' := by
  cases mp with
  | none =>
    cases h
    exact ⟨by simp [Refuses], fun _ => rfl⟩
  | some d =>
    by_cases hd : (devs d).rdmflg = 0
    · simp only [memphyWrite, memphySeqWrite, hd, ne_eq, not_true, if_false, if_true] at h
      cases h
      exact ⟨by simp [Refuses, hd], fun _ => rfl⟩
    · simp only [memphyWrite, hd, ne_eq, not_false_eq_true, if_true, Option.bind_eq_bind,
        Option.bind_eq_some_iff] at h
      obtain ⟨storage, -, h⟩ := h
      cases h
      refine ⟨by simp [Refuses, hd], fun d' => ?_⟩
      by_cases hd' : d' = d
      · subst hd'
        simp
      · rw [Function.update_of_ne hd']

/-- What turn `cellidx` of the copy does, with an error of the read or of the write. -/
def TurnFails (caller : PcbDevices) (vicfpn swpfpn : Int) (data : Int → Byte) (cellidx : Int)
    (devs : Devices) : Prop :=
  ∃ addrsrc addrdst ret v devs',
    cellAddr vicfpn cellidx = some addrsrc ∧ cellAddr swpfpn cellidx = some addrdst ∧
    memphyRead devs caller.mram addrsrc (data cellidx) = some (ret, v, devs') ∧
    (ret ≠ 0 ∨ ∃ ret' devs'', memphyWrite devs' caller.activeMswp addrdst v =
      some (ret', devs'') ∧ ret' ≠ 0)

def SwapFails (caller : PcbDevices) (vicfpn swpfpn : Int) (data : Int → Byte)
    (devs : Devices) : Prop :=
  ∃ (n : Nat) (devs' : Devices), n < pagingPagesz ∧
    swapCpLoop caller.mram vicfpn caller.activeMswp swpfpn data n 0 devs = some devs' ∧
    TurnFails caller vicfpn swpfpn data n devs'

theorem swapCpLoop_modes (left : Nat) (h : swapCpLoop r f d g data left cellidx devs = some devs') :
    SameModes devs devs' := by
  induction left generalizing devs cellidx with
  | zero =>
    cases h
    exact fun _ => rfl
  | succ left ih =>
    simp only [swapCpLoop, Option.bind_eq_bind, Option.bind_eq_some_iff] at h
    obtain ⟨_, -, _, -, ⟨_, _, devs₁⟩, hread, ⟨_, devs₂⟩, hwrite, hloop⟩ := h
    exact fun d => (ih hloop d).trans (((write_refuses hwrite).2 d).trans
      ((read_refuses hread).2 d))

theorem swapFails_iff (h : mmSwapPage caller f g data devs = some ret) :
    SwapFails caller f g data devs ↔ Refuses devs caller.mram ∨ Refuses devs caller.activeMswp := by
  constructor
  · rintro ⟨n, devs', -, hloop, _, _, ret, v, devs'', -, -, hread, hfail⟩
    have hmodes := swapCpLoop_modes n hloop
    obtain ⟨hret, hmodes'⟩ := read_refuses hread
    rcases hfail with hne | ⟨ret', devs''', hwrite, hne⟩
    · exact .inl ((hmodes.refuses _).1 (hret.1 hne))
    · exact .inr ((hmodes.refuses _).1 ((hmodes'.refuses _).1 ((write_refuses hwrite).1.1 hne)))
  · intro href
    simp only [mmSwapPage, swapCpPage, Option.bind_eq_bind, Option.bind_eq_some_iff] at h
    obtain ⟨_, ⟨devs', hloop, -⟩, -⟩ := h
    obtain ⟨left, hleft⟩ : ∃ left, pagingPagesz.toNat = left + 1 := ⟨255, rfl⟩
    simp only [hleft, swapCpLoop, Option.bind_eq_bind, Option.bind_eq_some_iff] at hloop
    obtain ⟨a, ha, b, hb, ⟨ret, v, devs₁⟩, hread, ⟨ret', devs₂⟩, hwrite, -⟩ := hloop
    refine ⟨0, devs, by decide, rfl, a, b, ret, v, devs₁, ha, hb, hread, ?_⟩
    obtain ⟨hret, hmodes⟩ := read_refuses hread
    rcases href with href | href
    · exact .inl (hret.2 href)
    · exact .inr ⟨ret', devs₂, hwrite, (write_refuses hwrite).1.2 ((hmodes.refuses _).2 href)⟩

-- ---------------------------------------------------------------------------
-- Instructions that fail
-- ---------------------------------------------------------------------------

/-- A `memmap` call whose operation is unknown or has met an error. -/
inductive MemmapFailed (env : Env) (caller : PcbDevices) (s : MmState) (regs : ScRegs) : Prop
  | inc : asInt regs.a1 = sysmemIncOp →
      incVmaLimit env caller (asInt regs.a2) (asInt regs.a3) s = .ok (ret, t) → ret ≠ 0 →
      MemmapFailed env caller s regs
  | swap : asInt regs.a1 = sysmemSwpOp →
      SwapFails caller (asInt regs.a2) (asInt regs.a3) env.data s.devs →
        MemmapFailed env caller s regs
  | ioRead : asInt regs.a1 = sysmemIoRead →
      memphyRead s.devs caller.mram (asInt regs.a2) env.value = some (ret, v, devs') → ret ≠ 0 →
      MemmapFailed env caller s regs
  | ioWrite : asInt regs.a1 = sysmemIoWrite →
      memphyWrite s.devs caller.mram (asInt regs.a2) (asByte regs.a3) =
        some (ret, devs') → ret ≠ 0 →
      MemmapFailed env caller s regs
  | unknown : asInt regs.a1 < 1 ∨ 5 < asInt regs.a1 → MemmapFailed env caller s regs

inductive Failed (env : Env) (caller : PcbDevices) (s : MmState) (ins : Inst) : Prop
  | read : ins.opcode = .read → s.mm.symrg (asInt ins.arg0) = some rg →
      pgGetval env caller (regionAddr rg (asInt ins.arg1)) env.value s = .ok (ret, t) → ret ≠ 0 →
      Failed env caller s ins
  | write : ins.opcode = .write → s.mm.symrg (asInt ins.arg1) = some rg →
      pgSetval env caller (regionAddr rg (asInt ins.arg2)) (asByte ins.arg0) s =
        .ok (ret, t) → ret ≠ 0 →
      Failed env caller s ins
  | alloc : ins.opcode = .alloc → getFreeVmrgArea s 0 (asInt ins.arg0) env.rgnode =
      .ok (ret, rg) → ret ≠ 0 →
      Failed env caller s ins
  | memmap : ins.opcode = .syscall → ins.arg0 = 17 →
      MemmapFailed env caller s ⟨ins.arg1, ins.arg2, ins.arg3⟩ → Failed env caller s ins

def MemmapDropped (caller : PcbDevices) (s : MmState) (regs : ScRegs) : Prop :=
  asInt regs.a1 < 1 ∨ 5 < asInt regs.a1 ∨
    (asInt regs.a1 = sysmemIoRead ∨ asInt regs.a1 = sysmemIoWrite) ∧ Refuses s.devs caller.mram ∨
    asInt regs.a1 = sysmemSwpOp ∧ (Refuses s.devs caller.mram ∨ Refuses s.devs caller.activeMswp)

/-- An instruction whose error gets lost: an ALLOC in an area without a free region, or
a `memmap` call that names no operation or goes to a device that refuses. -/
def Dropped (caller : PcbDevices) (s : MmState) (ins : Inst) : Prop :=
  (ins.opcode = .alloc ∧ ∃ a vma, getVmaByNum s 0 = .ok (some a) ∧ s.areas.cell a = some vma ∧
      vma.vmFreergList = none) ∨
    ins.opcode = .syscall ∧ ins.arg0 = 17 ∧ MemmapDropped caller s ⟨ins.arg1, ins.arg2, ins.arg3⟩

theorem getFreeVmrgArea_ne_zero_iff (h : getFreeVmrgArea s 0 size newrg = .ok (ret, rg)) :
    ret ≠ 0 ↔
      ∃ a vma, getVmaByNum s 0 = .ok (some a) ∧ s.areas.cell a = some vma ∧
        vma.vmFreergList = none := by
  simp only [getFreeVmrgArea, bind_eq_ok, need_eq_ok, Option.bind_eq_some_iff] at h
  obtain ⟨_, hvma, vma, ⟨a, rfl, hcell⟩, h⟩ := h
  cases hlist : vma.vmFreergList with
  | none =>
    rw [hlist] at h
    cases h
    exact iff_of_true (by decide) ⟨a, vma, hvma, hcell, hlist⟩
  | some p =>
    rw [hlist] at h
    cases h
    refine iff_of_false (by decide) ?_
    rintro ⟨a', vma', hvma', hcell', hlist'⟩
    rw [hvma] at hvma'
    cases hvma'
    rw [hcell] at hcell'
    cases hcell'
    rw [hlist] at hlist'
    cases hlist'

theorem memmapFailed_iff {inc : IncVmaLimit (Except Fault MmState)}
    (h : sysMemmap inc caller regs env.value env.data mm s.devs = some ret) :
    MemmapFailed env caller s regs ↔ MemmapDropped caller s regs := by
  constructor
  · rintro (⟨hop, hinc, hne⟩ | ⟨hop, hswap⟩ | ⟨hop, hread, hne⟩ | ⟨hop, hwrite, hne⟩ | hop)
    · exact absurd (incVmaLimit_ok hinc) hne
    · simp only [sysMemmap, hop, sysmemSwpOp, sysmemMapOp, sysmemIncOp, Int.reduceEq,
        if_false, if_true, Option.bind_eq_bind, Option.bind_eq_some_iff] at h
      obtain ⟨_, hpage, -⟩ := h
      exact .inr (.inr (.inr ⟨hop, (swapFails_iff hpage).1 hswap⟩))
    · exact .inr (.inr (.inl ⟨.inl hop, (read_refuses hread).1.1 hne⟩))
    · exact .inr (.inr (.inl ⟨.inr hop, (write_refuses hwrite).1.1 hne⟩))
    · exact hop.imp_right .inl
  · rintro (hop | hop | ⟨hop | hop, href⟩ | ⟨hop, href⟩)
    · exact .unknown (.inl hop)
    · exact .unknown (.inr hop)
    · simp only [sysMemmap, hop, sysmemSwpOp, sysmemMapOp, sysmemIncOp, sysmemIoRead,
        Int.reduceEq, if_false, if_true, Option.bind_eq_bind, Option.bind_eq_some_iff] at h
      obtain ⟨⟨r, v, devs'⟩, hread, -⟩ := h
      exact .ioRead hop hread ((read_refuses hread).1.2 href)
    · simp only [sysMemmap, hop, sysmemSwpOp, sysmemMapOp, sysmemIncOp, sysmemIoRead, sysmemIoWrite,
        Int.reduceEq, if_false, if_true, Option.bind_eq_bind, Option.bind_eq_some_iff] at h
      obtain ⟨⟨r, devs'⟩, hwrite, -⟩ := h
      exact .ioWrite hop hwrite ((write_refuses hwrite).1.2 href)
    · simp only [sysMemmap, hop, sysmemSwpOp, sysmemMapOp, sysmemIncOp, Int.reduceEq,
        if_false, if_true, Option.bind_eq_bind, Option.bind_eq_some_iff] at h
      obtain ⟨_, hpage, -⟩ := h
      exact .swap hop ((swapFails_iff hpage).2 href)

theorem failed_iff (h : dispatch env caller ins s = .ok (stat, s')) :
    Failed env caller s ins ↔ Dropped caller s ins := by
  constructor
  · rintro (⟨-, -, hget, hne⟩ | ⟨-, -, hset, hne⟩ | ⟨hop, hfree, hne⟩ | ⟨hop, hnr, hmemmap⟩)
    · exact absurd (pgAccess_ret hget) hne
    · exact absurd (pgAccess_ret hset) hne
    · exact .inl ⟨hop, (getFreeVmrgArea_ne_zero_iff hfree).1 hne⟩
    · rw [dispatch_syscall env caller hop, hnr, syscall_memmap] at h
      simp only [memmapCall, bind_eq_ok, need_eq_ok] at h
      obtain ⟨_, ⟨_, hcall, -⟩, -⟩ := h
      exact .inr ⟨hop, hnr, (memmapFailed_iff hcall).1 hmemmap⟩
  · rintro (⟨hop, hlist⟩ | ⟨hop, hnr, hdrop⟩)
    · rw [dispatch, hop] at h
      simp only [liballoc, mmAlloc, bind_eq_ok] at h
      obtain ⟨_, ⟨⟨ret, rg⟩, hfree, -⟩, -⟩ := h
      exact .alloc hop hfree ((getFreeVmrgArea_ne_zero_iff hfree).2 hlist)
    · rw [dispatch_syscall env caller hop, hnr, syscall_memmap] at h
      simp only [memmapCall, bind_eq_ok, need_eq_ok] at h
      obtain ⟨_, ⟨_, hcall, -⟩, -⟩ := h
      exact .memmap hop hnr ((memmapFailed_iff hcall).2 hdrop)

theorem dropped_stat (h : dispatch env caller ins s = .ok (stat, s')) (hd : Dropped caller s ins) :
    stat = 0 := by
  rcases hd with ⟨hop, -⟩ | ⟨hop, hnr, -⟩
  · rw [dispatch, hop] at h
    exact liballoc_ok h
  · rw [dispatch_syscall env caller hop, hnr, syscall_memmap, bind_eq_ok] at h
    obtain ⟨⟨ret, regs', s₁⟩, hcall, h⟩ := h
    cases h
    exact memmapCall_ok hcall

/-- `memmap` calls that do nothing, by design or because their operation is unknown. -/
theorem run_memmap_nothing (env : Env) (caller : PcbDevices) (s : MmState)
    (hop : asInt op < 2 ∨ 5 < asInt op) :
    run env caller (only ⟨.syscall, 17, op, a2, a3⟩) s =
      .ok (0, ⟨oneInst ⟨.syscall, 17, op, a2, a3⟩, 1⟩, s) := by
  have hcall : sysMemmap (incVmaLimitCall env caller) caller ⟨op, a2, a3⟩ env.value env.data
      (.ok s) s.devs =
      some (0, ⟨op, a2, a3⟩, .ok s, s.devs) :=
    (sysMemmap_other _ _ _ _ (by simp only [sysmemIncOp]; omega) (by simp only [sysmemSwpOp]; omega)
      (by simp only [sysmemIoRead]; omega)
        (by simp only [sysmemIoWrite]; omega) caller 0 0 s.devs).1
  refine (run_ok_iff (only_fetch _)).2 ⟨rfl, ?_⟩
  rw [dispatch_syscall env caller rfl, syscall_memmap]
  simp [memmapCall, hcall]

theorem run_reports_failures (hf : proc.fetch = some (ins, proc'))
    (hrun : run env caller proc s = .ok (stat, proc'', s')) :
    (stat = 0 → ¬ Failed env caller s ins) ↔ ¬ Dropped caller s ins := by
  have hd := ((run_ok_iff hf).1 hrun).2
  rw [failed_iff hd]
  constructor
  · exact fun hsucc hdrop => hsucc (dropped_stat hd hdrop) hdrop
  · exact fun hdrop _ => hdrop

def eightBytes (rdmflg : Int) : Devices := fun d => { blank 8 d with rdmflg := rdmflg }

theorem write_dropped_iff (rdmflg : Int) :
    Dropped ⟨some 0, some 1⟩ (.started (eightBytes rdmflg) .empty) ⟨.syscall, 17, 5, 3, 7⟩ ↔
      rdmflg = 0 := by
  constructor
  · rintro (⟨hop, -⟩ | ⟨-, -, hop | hop | ⟨-, href⟩ | ⟨hop, -⟩⟩)
    · cases hop
    · exact absurd hop (by decide)
    · exact absurd hop (by decide)
    · exact href
    · exact absurd hop (by decide)
  · exact fun href => .inr ⟨rfl, rfl, .inr (.inr (.inl ⟨.inr (by decide), href⟩))⟩

/-- A byte written to the RAM, and the same call on a sequential device, which refuses it. -/
theorem run_reports_failures_write :
    let ins : Inst := ⟨.syscall, 17, 5, 3, 7⟩
    (∃ s', run (.filled 0) ⟨some 0, some 1⟩ (only ins) (.started (eightBytes 1) .empty) =
        .ok (0, ⟨oneInst ins, 1⟩, s') ∧ byteAt s'.devs 0 3 = some 7 ∧
      ¬ Failed (.filled 0) ⟨some 0, some 1⟩ (.started (eightBytes 1) .empty) ins) ∧
    ∃ s', run (.filled 0) ⟨some 0, some 1⟩ (only ins) (.started (eightBytes 0) .empty) =
        .ok (0, ⟨oneInst ins, 1⟩, s') ∧ byteAt s'.devs 0 3 = some 0 ∧
      Failed (.filled 0) ⟨some 0, some 1⟩ (.started (eightBytes 0) .empty) ins := by
  intro ins
  constructor
  · obtain ⟨s', hrun, hbyte⟩ : ∃ s', run (.filled 0) ⟨some 0, some 1⟩ (only ins)
        (.started (eightBytes 1) .empty) =
        .ok (0, ⟨oneInst ins, 1⟩, s') ∧ byteAt s'.devs 0 3 = some 7 := ⟨_, rfl, rfl⟩
    refine ⟨s', hrun, hbyte, (run_reports_failures (only_fetch _) hrun).2 ?_ rfl⟩
    rw [write_dropped_iff]
    decide
  · obtain ⟨s', hrun, hbyte⟩ : ∃ s', run (.filled 0) ⟨some 0, some 1⟩ (only ins)
        (.started (eightBytes 0) .empty) =
        .ok (0, ⟨oneInst ins, 1⟩, s') ∧ byteAt s'.devs 0 3 = some 0 := ⟨_, rfl, rfl⟩
    refine ⟨s', hrun, hbyte, ?_⟩
    by_contra hnot
    exact (run_reports_failures (only_fetch _) hrun).1 (fun _ => hnot) ((write_dropped_iff 0).2 rfl)

/-- `syscall 17 9 0 0` names no operation of `__sys_memmap`, and `run` reports success. -/
theorem run_reports_failures_unknown :
    let s := MmState.started (blank 0) .empty
    let ins : Inst := ⟨.syscall, 17, 9, 0, 0⟩
    run (.filled 0) ⟨some 0, some 1⟩ (only ins) s = .ok (0, ⟨oneInst ins, 1⟩, s) ∧
      Failed (.filled 0) ⟨some 0, some 1⟩ s ins :=
  ⟨run_memmap_nothing _ _ _ (.inr (by decide)), .memmap rfl rfl (.unknown (.inr (by decide)))⟩

end AssignmentOS.Cpu
