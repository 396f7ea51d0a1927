import Mathlib.Algebra.GroupWithZero.Nat
import AssignmentOS.Lib.Transition

/-!
# Potentials

How long a run can get: each step costs one, paid for by the potential of the
state or by what the label of the step brings in (`Run.length_add_le`).
-/

namespace Transition

theorem Run.length_add_le {M : System σ ε} {Φ : σ → Nat} {gain : ε → Nat}
    (h0 : ∀ s, M.init s → Φ s ≤ b)
    (hstep : ∀ s e t, Reachable M s → M.step s e t → Φ t + 1 ≤ Φ s + gain e) (h : Run M tr s) :
    tr.length + Φ s ≤ b + (tr.map gain).sum := by
  refine h.invariant (P := fun tr s => tr.length + Φ s ≤ b + (tr.map gain).sum) ?_ ?_
  · intro s hs
    simpa using h0 s hs
  · intro tr s e t hr ih hs
    have hpaid := hstep s e t hr.reachable hs
    simp only [List.length_append, List.length_singleton, List.map_append, List.map_singleton,
      List.sum_append, List.sum_singleton]
    omega

/-- What the labels of a component add up to, counted over the whole run or over the part of it. -/
theorem sum_filterMap (lab : ε → Option δ) (f : δ → Nat) (tr : List ε) :
    ((tr.filterMap lab).map f).sum = (tr.map fun e => ((lab e).map f).getD 0).sum := by
  induction tr with
  | nil => rfl
  | cons e tr ih => cases he : lab e <;> simp [he, ih]

theorem sum_change [Fintype ι] [DecidableEq ι] {f g : ι → Nat} (i : ι)
    (h : ∀ j, j ≠ i → g j = f j) :
    ∑ j, g j + f i = ∑ j, f j + g i := by
  have hg : Function.update f i (g i) = g := by
    funext j
    by_cases hj : j = i
    · subst hj
      simp
    · simp [hj, h j hj]
  have hsum := sum_update (fun x => x) f i (g i)
  rw [hg] at hsum
  exact hsum

end Transition
