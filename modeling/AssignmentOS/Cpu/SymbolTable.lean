import AssignmentOS.Cpu.Run

/-!
# Indexes of the symbol table

Each of ALLOC, FREE, READ and WRITE names a region by its index in `symrgtbl`.
Outside the table the four disagree: ALLOC takes every index, READ and WRITE
also 30, FREE refuses from 31 on.
-/

namespace AssignmentOS.Cpu

open Memory Fallible Mm

variable {env : Env} {caller : PcbDevices} {s s' : MmState} {proc proc' : Pcb}
  {ins : Inst} {idx : UInt32}

def regionIndex (ins : Inst) : Option UInt32 :=
  match ins.opcode with
  | .alloc => some ins.arg1
  | .free => some ins.arg0
  | .read => some ins.arg0
  | .write => some ins.arg1
  | _ => none

def Names (proc : Pcb) (idx : UInt32) : Prop :=
  ∃ ins proc', proc.fetch = some (ins, proc') ∧ regionIndex ins = some idx

def Rejects (env : Env) (caller : PcbDevices) (s : MmState) (proc : Pcb) : Prop :=
  ∃ stat proc' s', run env caller proc s = .ok (stat, proc', s') ∧ stat ≠ 0

/-- What is to hold of an index, in whatever instruction it appears. -/
structure CheckedAlike (env : Env) (caller : PcbDevices) (s : MmState) (idx : UInt32) : Prop where
  inTable : ∀ proc, Names proc idx → run env caller proc s ≠ .error .symrgtbl
  alike : ∀ proc₁ proc₂, Names proc₁ idx → Names proc₂ idx →
    (Rejects env caller s proc₁ ↔ Rejects env caller s proc₂)
  unchanged : ∀ proc stat proc' s', Names proc idx → run env caller proc s = .ok (stat, proc', s') →
    stat ≠ 0 → s' = s

def HasArea (s : MmState) : Prop := ∃ a, getVmaByNum s 0 = .ok (some a)

theorem only_names (hi : regionIndex ins = some idx) :
    Names (only ins) idx := ⟨ins, _, only_fetch ins, hi⟩

theorem only_rejects_iff :
    Rejects env caller s (only ins) ↔
      ∃ stat s', dispatch env caller ins s = .ok (stat, s') ∧ stat ≠ 0 := by
  constructor
  · rintro ⟨stat, proc', s', hrun, hne⟩
    exact ⟨stat, s', ((run_ok_iff (only_fetch ins)).1 hrun).2, hne⟩
  · rintro ⟨stat, s', hd, hne⟩
    exact ⟨stat, _, s', (run_ok_iff (only_fetch ins)).2 ⟨rfl, hd⟩, hne⟩

-- ---------------------------------------------------------------------------
-- What the operations do with an index
-- ---------------------------------------------------------------------------

theorem inTable_iff (idx : UInt32) : InTable (asInt idx) ↔ idx.toNat < 30 := by
  have hlt := idx.toNat_lt
  rw [InTable, asInt_eq, pagingMaxSymtblSz]
  split <;> omega

theorem getSymrgByid_eq_none_iff (idx : UInt32) :
    getSymrgByid (asInt idx) = none ↔ 30 < idx.toNat := by
  have hlt := idx.toNat_lt
  rw [getSymrgByid, asInt_eq, pagingMaxSymtblSz, ite_eq_left_iff]
  simp only [reduceCtorEq, imp_false, not_not]
  split <;> omega

theorem dispatch_ok (hi : regionIndex ins = some idx)
    (h : dispatch env caller ins s = .ok (stat, s')) :
    stat = 0 ∨ s' = s ∧ getSymrgByid (asInt idx) = none := by
  unfold regionIndex at hi
  unfold dispatch at h
  split at hi <;> cases hi <;> rename_i hop <;> rw [hop] at h
  · exact .inl (liballoc_ok h)
  · cases h
    by_cases hidx : asInt ins.arg0 < 0 ∨ asInt ins.arg0 > pagingMaxSymtblSz
    · exact .inr ⟨rfl, if_pos hidx⟩
    · exact .inl (if_neg hidx)
  · simp only [bind_eq_ok] at h
    obtain ⟨⟨_, _, _⟩, hread, h⟩ := h
    cases h
    exact (libread_ok hread).imp_right And.right
  · exact (libwrite_ok h).imp_right And.right

theorem not_rejects (hi : Names proc idx)
    (hidx : idx.toNat ≤ 30) : ¬ Rejects env caller s proc := by
  rintro ⟨stat, proc', s', hrun, hne⟩
  obtain ⟨ins, proc₁, hf, hi⟩ := hi
  rcases dispatch_ok hi ((run_ok_iff hf).1 hrun).2 with hstat | ⟨-, hsym⟩
  · exact hne hstat
  · rw [getSymrgByid_eq_none_iff] at hsym
    omega

theorem checkedAlike_of_fails (hidx : idx.toNat ≤ 30)
    (hfails : ∀ ins, regionIndex ins = some idx →
      FailsOnly Fault.Paging (dispatch env caller ins s)) :
    CheckedAlike env caller s idx where
  inTable := by
    rintro proc ⟨ins, proc', hf, hi⟩ hrun
    exact absurd (hfails ins hi _ ((run_error_iff hf).1 hrun)) (by decide)
  alike proc₁ proc₂ h₁ h₂ := iff_of_false (not_rejects h₁ hidx) (not_rejects h₂ hidx)
  unchanged proc stat proc' s' hn hrun hne :=
    absurd ⟨stat, proc', s', hrun, hne⟩ (not_rejects hn hidx)

-- ---------------------------------------------------------------------------
-- Inside the table, or without an area
-- ---------------------------------------------------------------------------

theorem dispatch_fails (hi : regionIndex ins = some idx) (hin : InTable (asInt idx)) :
    FailsOnly Fault.Paging (dispatch env caller ins s) := by
  have hpg : ∀ addr s, FailsOnly Fault.Paging (pgAccess env caller addr s) :=
    pgAccess_fails env caller
  unfold regionIndex at hi
  unfold dispatch
  split at hi <;> cases hi <;> rename_i hop <;> rw [hop]
  · exact liballoc_fails env s _ hin
  · exact failsOnly_ok _ _
  · exact failsOnly_bind (failsOnly_bind
      (accessRegion_fails (fun addr => hpg addr) 0 hin _ s) fun _ _ =>
      failsOnly_bind (printPgtbl_fails _) fun _ _ => failsOnly_ok _ _) fun _ _ => failsOnly_ok _ _
  · exact failsOnly_bind (printPgtbl_fails _) fun _ _ => accessRegion_fails
      (fun addr => hpg addr) 0 hin _ s

theorem accessRegion_noArea (harea : ¬ HasArea s)
    (pg : Int → MmState → Except Fault (Int × MmState)) (rgid offset : Int) :
    FailsOnly Fault.Paging (accessRegion pg 0 rgid offset s) := by
  refine failsOnly_bind (getVmaByNum_fails s 0) fun curVma hvma => ?_
  cases curVma with
  | none => cases getSymrgByid rgid <;> exact failsOnly_ok _ _
  | some a => exact absurd ⟨a, hvma⟩ harea

theorem getFreeVmrgArea_noArea (harea : ¬ HasArea s) (size : Int) (newrg : VmRgStruct) :
    ∃ e, getFreeVmrgArea s 0 size newrg = .error e ∧ e.Paging := by
  cases hvma : getVmaByNum s 0 with
  | error e => exact ⟨e, by simp [getFreeVmrgArea, hvma], getVmaByNum_fails s 0 e hvma⟩
  | ok curVma =>
    cases curVma with
    | none => exact ⟨.pointer, by simp [getFreeVmrgArea, hvma], by decide⟩
    | some a => exact absurd ⟨a, hvma⟩ harea

theorem dispatch_noArea (hi : regionIndex ins = some idx) (harea : ¬ HasArea s) :
    FailsOnly Fault.Paging (dispatch env caller ins s) := by
  unfold regionIndex at hi
  unfold dispatch
  split at hi <;> cases hi <;> rename_i hop <;> rw [hop]
  · obtain ⟨e, hfree, he⟩ := getFreeVmrgArea_noArea harea (asInt ins.arg0) env.rgnode
    simp only [liballoc, mmAlloc, hfree, error_bind]
    exact failsOnly_error he
  · exact failsOnly_ok _ _
  · exact failsOnly_bind (failsOnly_bind (accessRegion_noArea harea _ _ _) fun _ _ =>
      failsOnly_bind (printPgtbl_fails _) fun _ _ => failsOnly_ok _ _) fun _ _ => failsOnly_ok _ _
  · exact failsOnly_bind (printPgtbl_fails _) fun _ _ => accessRegion_noArea harea _ _ _

-- ---------------------------------------------------------------------------
-- Outside the table
-- ---------------------------------------------------------------------------

theorem read_outside (harea : HasArea s) (env : Env) (caller : PcbDevices) :
    run env caller (only ⟨.read, 30, 0, 0, 0⟩) s = .error .symrgtbl := by
  obtain ⟨a, hvma⟩ := harea
  have hsym : getSymrgByid (asInt 30) = some 30 := by decide
  have hout : ¬ InTable 30 := fun hin => absurd hin.2 (by decide)
  have hread : mmRead env caller 0 (asInt 30) (asInt 0) env.value s = .error .symrgtbl :=
    accessRegion_outside hsym hout hvma _
  rw [run_error_iff (only_fetch _)]
  simp only [dispatch, libread, hread, error_bind]

theorem free_rejects (hidx : 30 < idx.toNat) :
    Rejects env caller s (only ⟨.free, idx, 0, 0, 0⟩) := by
  have hfree : mmFree 0 (asInt idx) = -1 := by
    rw [← getSymrgByid_eq_none_iff, getSymrgByid, ite_eq_left_iff] at hidx
    rw [mmFree, ite_eq_left_iff]
    exact fun hn => absurd (hidx hn) (by simp)
  refine only_rejects_iff.2 ⟨-1, s, ?_, by decide⟩
  simp only [dispatch, libfree, hfree]

theorem alloc_not_rejects : ¬ Rejects env caller s (only ⟨.alloc, size, idx, 0, 0⟩) := by
  rw [only_rejects_iff]
  rintro ⟨stat, s', halloc, hne⟩
  exact hne (liballoc_ok halloc)

theorem symrgtbl_checked_alike (env : Env) (caller : PcbDevices) (s : MmState) (idx : UInt32) :
    CheckedAlike env caller s idx ↔ idx.toNat < 30 ∨ idx = 30 ∧ ¬ HasArea s := by
  constructor
  · intro halike
    by_contra hcond
    rcases Nat.lt_trichotomy idx.toNat 30 with hlt | heq | hgt
    · exact hcond (.inl hlt)
    · obtain rfl : idx = 30 := UInt32.toNat.inj heq
      by_cases harea : HasArea s
      · exact halike.inTable _ (only_names rfl) (read_outside harea env caller)
      · exact hcond (.inr ⟨rfl, harea⟩)
    · have hsame := halike.alike (only ⟨.free, idx, 0, 0, 0⟩) (only ⟨.alloc, 1, idx, 0, 0⟩)
        (only_names rfl)
        (only_names rfl)
      exact alloc_not_rejects (hsame.1 (free_rejects hgt))
  · rintro (hlt | ⟨rfl, harea⟩)
    · exact checkedAlike_of_fails (by omega) fun ins hi => dispatch_fails hi
        ((inTable_iff idx).2 hlt)
    · exact checkedAlike_of_fails (by decide) fun ins hi => dispatch_noArea hi harea

/-- `read 30 0 0` reads one region past the end of the table. -/
theorem symrgtbl_checked_alike_thirty :
    run (.filled 0) ⟨some 0, some 1⟩ (only ⟨.read, 30, 0, 0, 0⟩) (.started (blank 0) .empty) =
        .error .symrgtbl ∧
      ¬ CheckedAlike (.filled 0) ⟨some 0, some 1⟩ (.started (blank 0) .empty) 30 := by
  have harea : HasArea (.started (blank 0) .empty) := ⟨0, rfl⟩
  have hread := read_outside harea (.filled 0) ⟨some 0, some 1⟩
  exact ⟨hread, fun halike => halike.inTable _ (only_names rfl) hread⟩

end AssignmentOS.Cpu
