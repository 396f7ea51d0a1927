import AssignmentOS.Cpu.Run

/-!
# Storage behind system calls

The operands of a `memmap` call reach the storage of the devices as they are: no
function on the way compares them with `maxsz`. So nothing is ever rejected, and
an access stays inside exactly if the program asked for nothing else.
-/

namespace AssignmentOS.Cpu

open Memory Fallible Mm

variable {env : Env} {s s' : MmState} {proc proc' : Pcb} {ins : Inst} {r d : DevId}

def OperandsInRange (s : MmState) (r d : DevId) (ins : Inst) : Prop :=
  ins.arg0 = 17 → ScRegs.InRange ⟨ins.arg1, ins.arg2, ins.arg3⟩ (s.devs r).maxsz (s.devs d).maxsz

/-- No index leaves the storage, since operands that would make one do so are rejected. -/
structure StorageSafe (env : Env) (r d : DevId) (s : MmState) (proc : Pcb) (ins : Inst) : Prop where
  inStorage : run env ⟨some r, some d⟩ proc s ≠ .error .storage
  rejected : ¬ OperandsInRange s r d ins → ∃ stat proc' s',
    run env ⟨some r, some d⟩ proc s = .ok (stat, proc', s') ∧ stat ≠ 0 ∧
      s'.devs r = s.devs r ∧ s'.devs d = s.devs d

theorem syscall_storage_iff (env : Env) (hne : r ≠ d) (hr : RandomAccess (s.devs r))
    (hd : RandomAccess (s.devs d)) (hop : ins.opcode = .syscall) :
    dispatch env ⟨some r, some d⟩ ins s = .error .storage ↔ ¬ OperandsInRange s r d ins := by
  rw [dispatch_syscall env _ hop, OperandsInRange]
  by_cases hmemmap : ins.arg0 = 17
  · rw [hmemmap, syscall_memmap, bind_eq_error, memmapCall_storage_iff env hne hr hd]
    simp
  · have hfails := syscall_fails env ⟨some r, some d⟩ hmemmap ⟨ins.arg1, ins.arg2, ins.arg3⟩ s
    constructor
    · exact fun hstorage => absurd (hfails _ hstorage) (by decide)
    · exact fun hout => absurd (fun h17 => absurd h17 hmemmap) hout

theorem memmap_storage_safe (env : Env) (hf : proc.fetch = some (ins, proc'))
    (hop : ins.opcode = .syscall) (hne : r ≠ d) (hr : RandomAccess (s.devs r))
    (hd : RandomAccess (s.devs d)) :
    StorageSafe env r d s proc ins ↔ OperandsInRange s r d ins := by
  have hiff := (run_error_iff hf).trans (syscall_storage_iff env hne hr hd hop)
  constructor
  · intro hsafe
    by_contra hout
    exact hsafe.inStorage (hiff.2 hout)
  · exact fun hin => ⟨fun hstorage => hiff.1 hstorage hin, fun hout => absurd hin hout⟩

theorem blank_randomAccess (d : DevId) (hn : n < 0x80000000) : RandomAccess (blank n d) where
  rdmflg := Int.one_ne_zero
  length := by simp [blank]
  int := show (n : Int) < 0x80000000 by omega

theorem memmap_storage_safe_last :
    StorageSafe (.filled 0) 0 1 (.started (blank 256) .empty) (only ⟨.syscall, 17, 4, 255, 0⟩)
      ⟨.syscall, 17, 4, 255, 0⟩ :=
  (memmap_storage_safe (.filled 0) (only_fetch _) rfl Nat.zero_ne_one
    (blank_randomAccess 0 (by decide)) (blank_randomAccess 1 (by decide))).2
      fun _ => ⟨by decide, by decide⟩

/-- `syscall 17 5 256 0` writes the byte behind a RAM of 256 bytes. -/
theorem memmap_storage_safe_behind :
    run (.filled 0) ⟨some 0, some 1⟩ (only ⟨.syscall, 17, 5, 256, 0⟩)
      (.started (blank 256) .empty) =
        .error .storage ∧
      ¬ StorageSafe (.filled 0) 0 1 (.started (blank 256) .empty) (only ⟨.syscall, 17, 5, 256, 0⟩)
        ⟨.syscall, 17, 5, 256, 0⟩ := by
  have hrange : ¬ OperandsInRange (.started (blank 256) .empty) 0 1 ⟨.syscall, 17, 5, 256, 0⟩ :=
    fun hin =>
    absurd ((hin rfl).io (by decide)).2 (by decide)
  have hrun := (run_error_iff (only_fetch _)).2 ((syscall_storage_iff (.filled 0) Nat.zero_ne_one
    (blank_randomAccess 0 (by decide)) (blank_randomAccess 1 (by decide)) rfl).2 hrange)
  exact ⟨hrun, fun hsafe => hsafe.inStorage hrun⟩

end AssignmentOS.Cpu
