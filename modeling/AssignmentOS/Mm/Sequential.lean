import AssignmentOS.Lib.Transition
import AssignmentOS.Mm.Memphy

/-!
# Sequential devices

`MEMPHY_read` and `MEMPHY_write` hand an access of a sequential device on to
`MEMPHY_seq_read` and `MEMPHY_seq_write`, and these refuse every device that is
not a random-access one. So a sequential device is never read nor written.
-/

namespace AssignmentOS.Mm

open Transition

/-- A call of `MEMPHY_read` or `MEMPHY_write`; `value` is what the variable to
read into holds before. -/
inductive Access
  | read (addr : Int) (value : Byte)
  | write (addr : Int) (data : Byte)
  deriving DecidableEq, Repr

def Access.addr : Access → Int
  | .read addr _ | .write addr _ => addr

/-- An access of device `d`: its return value and the value read, and the devices. -/
def accessNext (d : DevId) (devs : Devices) : Access → Option ((Int × Option Byte) × Devices)
  | .read addr value => do
    let (ret, value, devs) ← memphyRead devs (some d) addr value
    some ((ret, some value), devs)
  | .write addr data => do
    let (ret, devs) ← memphyWrite devs (some d) addr data
    some ((ret, none), devs)

def Access.refused : Access → Int × Option Byte
  | .read _ value => (-1, some value)
  | .write _ _ => (-1, none)

theorem sequential_refuses (hd : (devs d).rdmflg = 0) (op : Access) :
    accessNext d devs op = some (op.refused, devs) := by
  cases op <;> simp [accessNext, memphyRead, memphySeqRead, memphyWrite, memphySeqWrite, hd,
    Access.refused]

theorem sequential_run (hd : (devs d).rdmflg = 0) (ops : List Access) :
    exec (accessNext d) ops devs = some (ops.map Access.refused, devs) := by
  induction ops with
  | nil => rfl
  | cons op ops ih => simp [exec, sequential_refuses hd, ih]

theorem random_answers (hd : (devs d).rdmflg ≠ 0) (h : accessNext d devs op = some (ans, devs')) :
    ans.1 = 0 := by
  cases op with
  | read addr value =>
    simp only [accessNext, memphyRead, hd, ne_eq, not_false_eq_true, if_true, Option.bind_eq_bind,
      Option.bind_eq_some_iff] at h
    obtain ⟨_, ⟨v, -, hv⟩, h⟩ := h
    cases hv
    cases h
    rfl
  | write addr data =>
    simp only [accessNext, memphyWrite, hd, ne_eq, not_false_eq_true, if_true, Option.bind_eq_bind,
      Option.bind_eq_some_iff] at h
    obtain ⟨_, ⟨v, -, hv⟩, h⟩ := h
    cases hv
    cases h
    rfl

/-- The two devices, `q` a sequential one, give the same answers to the accesses
and end with the same bytes, and the cursor of `q` goes along. -/
def SameAccesses (devs : Devices) (q d : DevId) (ops : List Access) : Prop :=
  ∃ answers devs₁ devs₂, exec (accessNext q) ops devs = some (answers, devs₁) ∧
    exec (accessNext d) ops devs = some (answers, devs₂) ∧ (devs₁ q).storage = (devs₂ d).storage ∧
    ∀ pre op post, ops = pre ++ op :: post → ∃ answers devs',
      exec (accessNext q) (pre ++ [op]) devs = some (answers, devs') ∧ (devs' q).cursor = op.addr

theorem not_sameAccesses_cons (hq : (devs q).rdmflg = 0) (hd : (devs d).rdmflg ≠ 0) :
    ¬ SameAccesses devs q d (op :: ops) := by
  rintro ⟨answers, devs₁, devs₂, hseq, hrnd, -, -⟩
  rw [sequential_run hq] at hseq
  cases hseq
  simp only [exec, Option.bind_eq_bind, Option.bind_eq_some_iff] at hrnd
  obtain ⟨⟨ans, devs'⟩, hop, ⟨es, devs''⟩, -, hrnd⟩ := hrnd
  cases hrnd
  have hans := random_answers hd hop
  cases op <;> cases hans

theorem sequential_accesses (devs : Devices) (q d : DevId)
    (hq : initMemphy M mp₁ sz 0 h₁ = some (ret₁, devs q, h₁'))
    (hd : initMemphy M mp₂ sz 1 h₂ = some (ret₂, devs d, h₂'))
    (ops : List Access) : SameAccesses devs q d ops ↔ ops = [] := by
  obtain ⟨hqs, -, hqf⟩ := init_device hq
  obtain ⟨hds, -, hdf⟩ := init_device hd
  simp only [ne_eq, not_true, if_false, one_ne_zero, not_false_eq_true, if_true] at hqf hdf
  constructor
  · intro hsame
    cases ops with
    | nil => rfl
    | cons op ops =>
      have hne : (devs d).rdmflg ≠ 0 := by
        rw [hdf]
        decide
      exact absurd hsame (not_sameAccesses_cons hqf hne)
  · rintro rfl
    refine ⟨[], devs, devs, rfl, rfl, hqs.trans hds.symm, ?_⟩
    intro pre op post hops
    simp at hops

theorem init_page (randomflg : Int) :
    ∃ mp h, initMemphy (.bump (9, some 9)) ⟨[], 0, 0, 0, .prior none⟩ 256 randomflg .empty =
      some (0, mp, h) :=
  ⟨_, _, rfl⟩

theorem sequential_accesses_none : ∃ devs, SameAccesses devs 0 1 [] := by
  obtain ⟨mp, h, hq⟩ := init_page 0
  obtain ⟨mp', h', hd⟩ := init_page 1
  let devs : Devices := fun
    | 0 => mp
    | _ => mp'
  exact ⟨devs, (sequential_accesses devs 0 1 hq hd []).2 rfl⟩

/-- The first write is refused by the sequential one. -/
theorem sequential_accesses_write :
    ∃ (devs : Devices) (h h' : FrameHeap),
      initMemphy (.bump (9, some 9)) ⟨[], 0, 0, 0, .prior none⟩ 256 0 .empty = some (0, devs 0, h) ∧
      initMemphy (.bump (9, some 9)) ⟨[], 0, 0, 0, .prior none⟩ 256 1 .empty =
        some (0, devs 1, h') ∧
      ¬ SameAccesses devs 0 1 [.write 0 5] := by
  obtain ⟨mp, h, hq⟩ := init_page 0
  obtain ⟨mp', h', hd⟩ := init_page 1
  let devs : Devices := fun
    | 0 => mp
    | _ => mp'
  refine ⟨devs, h, h', hq, hd, ?_⟩
  have hqf : mp.rdmflg = 0 := (init_device hq).2.2
  have hdf : mp'.rdmflg = 1 := (init_device hd).2.2
  refine not_sameAccesses_cons hqf ?_
  show mp'.rdmflg ≠ 0
  rw [hdf]
  decide

end AssignmentOS.Mm
