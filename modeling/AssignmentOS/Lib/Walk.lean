import Mathlib.Data.Fintype.Pigeonhole

/-!
# Walks that do not end

Repeating a partial function whose values lie below a bound either stops within
that many steps or goes on for ever, since it has then been somewhere twice.
-/

namespace Walk

universe u

variable {α : Type u}

def walk (f : α → Option α) : Nat → α → Option α
  | 0, a => some a
  | n + 1, a => (f a).bind (walk f n)

theorem walk_add (f : α → Option α) (m n : Nat) (a : α) :
    walk f (m + n) a = (walk f m a).bind (walk f n) := by
  induction m generalizing a with
  | zero => simp [walk]
  | succ m ih =>
    rw [Nat.succ_add, walk, walk, Option.bind_assoc]
    exact congrArg ((f a).bind ·) (funext ih)

theorem walk_isSome_of_le {f : α → Option α} (hmn : m ≤ n) (h : (walk f n a).isSome) :
    (walk f m a).isSome := by
  obtain ⟨k, rfl⟩ := Nat.exists_eq_add_of_le hmn
  rw [walk_add] at h
  exact Option.isSome_of_isSome_bind h

theorem walk_of_cycle {f : α → Option α} (hpq : p < q) (hcycle : walk f p a = walk f q a)
    (hq : (walk f q a).isSome) (n : Nat) : (walk f n a).isSome := by
  induction n using Nat.strong_induction_on with
  | _ n ih =>
    rcases Nat.le_total n q with hle | hge
    · exact walk_isSome_of_le hle hq
    · obtain ⟨k, rfl⟩ := Nat.exists_eq_add_of_le hge
      rw [walk_add, ← hcycle, ← walk_add]
      exact ih (p + k) (by omega)

theorem walk_forever {f : Nat → Option Nat} {bound : Nat} (hb : ∀ a b, f a = some b → b < bound)
    (h : (walk f (bound + 1) a).isSome) (n : Nat) : (walk f n a).isSome := by
  have hsome : ∀ i : Fin (bound + 1), ∃ b, walk f (i + 1) a = some b ∧ b < bound := by
    intro i
    have hle : (i : Nat) + 1 ≤ bound + 1 := i.2
    obtain ⟨b, hi⟩ := Option.isSome_iff_exists.mp (walk_isSome_of_le hle h)
    have hlast := hi
    rw [walk_add] at hlast
    obtain ⟨c, -, hc⟩ := Option.bind_eq_some_iff.mp hlast
    obtain ⟨b', hb', hret⟩ := Option.bind_eq_some_iff.mp hc
    cases hret
    exact ⟨b, hi, hb c b hb'⟩
  choose g hg using hsome
  obtain ⟨i, j, hij, heq⟩ := Fintype.exists_ne_map_eq_of_card_lt
    (fun i => (⟨g i, (hg i).2⟩ : Fin bound))
    (by simp)
  have hgij : g i = g j := congrArg Fin.val heq
  have hcycle : walk f (i + 1) a = walk f (j + 1) a := by rw [(hg i).1, (hg j).1, hgij]
  have hj : (walk f (j + 1) a).isSome := by rw [(hg j).1]; rfl
  have hi : (walk f (i + 1) a).isSome := by rw [(hg i).1]; rfl
  rcases Nat.lt_or_gt_of_ne (fun hv => hij (Fin.ext hv)) with hlt | hgt
  · exact walk_of_cycle (Nat.succ_lt_succ hlt) hcycle hj n
  · exact walk_of_cycle (Nat.succ_lt_succ hgt) hcycle.symm hi n

end Walk
