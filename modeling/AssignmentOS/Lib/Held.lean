import Mathlib.Data.List.ReduceOption

/-!
# A variable over reads that may fail

A read that fails leaves the variable as it was, so what is seen after each read
is the values that were read with some of them repeated.
-/

namespace Held

universe u

variable {α : Type u} {d z : α} {rs : List (Option α)}

/-- What a variable that starts with `d` holds after each of the reads. -/
def held (d : α) : List (Option α) → List α
  | [] => []
  | none :: rs => d :: held d rs
  | some a :: rs => a :: held a rs

@[simp] theorem held_length (d : α) (rs : List (Option α)) : (held d rs).length = rs.length := by
  induction rs generalizing d with
  | nil => rfl
  | cons r rs ih => cases r <;> simp [held, ih]

theorem reduceOption_map_some (l : List α) : (l.map some).reduceOption = l := by
  induction l with
  | nil => rfl
  | cons a l ih => rw [List.map_cons, List.reduceOption_cons_of_some, ih]

@[simp] theorem held_map_some (d : α) (l : List α) : held d (l.map some) = l := by
  induction l generalizing d with
  | nil => rfl
  | cons a l ih => simp [held, ih]

theorem held_append (d : α) (rs rs' : List (Option α)) :
    held d (rs ++ rs') = held d rs ++ held ((held d rs).getLastD d) rs' := by
  induction rs generalizing d with
  | nil => rfl
  | cons r rs ih =>
    cases r with
    | none => rw [List.cons_append, held, held, ih, List.cons_append, List.getLastD_cons]
    | some a => rw [List.cons_append, held, held, ih, List.cons_append, List.getLastD_cons]

theorem held_eq_replicate (h : ∀ a ∈ rs.reduceOption, a = z) :
    held z rs = List.replicate rs.length z := by
  induction rs with
  | nil => rfl
  | cons r rs ih =>
    cases r with
    | none => simpa [held, List.replicate_succ] using ih (by simpa using h)
    | some a =>
      simp only [List.reduceOption_cons_of_some, List.forall_mem_cons] at h
      obtain ⟨rfl, h⟩ := h
      simpa [held, List.replicate_succ] using ih h

theorem map_some_or_first_none (rs : List (Option α)) :
    (∃ l : List α, rs = l.map some) ∨
      ∃ (l : List α) (after : List (Option α)), rs = l.map some ++ none :: after := by
  induction rs with
  | nil => exact .inl ⟨[], rfl⟩
  | cons r rs ih =>
    cases r with
    | none => exact .inr ⟨[], rs, rfl⟩
    | some a =>
      rcases ih with ⟨l, rfl⟩ | ⟨l, after, rfl⟩
      · exact .inl ⟨a :: l, rfl⟩
      · exact .inr ⟨a :: l, after, rfl⟩

theorem eq_of_prefix_held (hn : 0 < n)
    (h : rs.reduceOption ++ [z] <+: List.replicate n d ++ held d rs) :
    ∀ a ∈ rs.reduceOption ++ [z], a = d := by
  induction rs generalizing n with
  | nil =>
    have hmem := h.subset (List.mem_singleton_self z)
    simp only [held, List.append_nil, List.mem_replicate] at hmem
    simpa using hmem.2
  | cons r rs ih =>
    cases r with
    | none =>
      have hrep : List.replicate n d ++ held d (none :: rs) =
          List.replicate (n + 1) d ++ held d rs := by
        rw [held, List.replicate_succ', List.append_assoc, List.singleton_append]
      rw [hrep, List.reduceOption_cons_of_none] at h
      simpa using ih (Nat.succ_pos n) h
    | some a =>
      obtain ⟨n, rfl⟩ := Nat.exists_eq_succ_of_ne_zero (Nat.pos_iff_ne_zero.mp hn)
      rw [List.reduceOption_cons_of_some, List.replicate_succ, List.cons_append, List.cons_append,
        List.cons_prefix_cons] at h
      obtain ⟨rfl, h⟩ := h
      have hrep : List.replicate n a ++ held a (some a :: rs) =
          List.replicate (n + 1) a ++ held a rs := by
        rw [held, List.replicate_succ', List.append_assoc, List.singleton_append]
      rw [hrep] at h
      simpa using ih (Nat.succ_pos n) h

/-- The values that were read, closed by `z`, are what is seen at the beginning exactly if from
the first failure on everything is `z`. -/
theorem prefix_held_iff (z : α) (rs : List (Option α)) :
    rs.reduceOption ++ [z] <+: held z rs ++ [z] ↔
      ∀ (l : List α) (after : List (Option α)), rs = l.map some ++ none :: after →
        l.getLastD z = z ∧ ∀ a ∈ after.reduceOption, a = z := by
  have hsplit : ∀ (l : List α) (after : List (Option α)),
      (l.map some ++ none :: after).reduceOption = l ++ after.reduceOption ∧
        held z (l.map some ++ none :: after) = l ++ l.getLastD z :: held (l.getLastD z) after := by
    intro l after
    simp [List.reduceOption_append, reduceOption_map_some, held_append, held]
  constructor
  · rintro h l after rfl
    rw [(hsplit l after).1, (hsplit l after).2, List.append_assoc, List.append_assoc,
      List.prefix_append_right_inj] at h
    have hlen := after.reduceOption_length_le
    have hseen : after.reduceOption ++ [z] <+: List.replicate 1 (l.getLastD z) ++
        held (l.getLastD z) after :=
      List.prefix_of_prefix_length_le h (List.prefix_append _ _) (by simpa using hlen)
    have hall := eq_of_prefix_held Nat.zero_lt_one hseen
    have hz : z = l.getLastD z := hall z (List.mem_append_right _ (List.mem_singleton_self z))
    exact ⟨hz.symm, fun a ha => (hall a (List.mem_append_left _ ha)).trans hz.symm⟩
  · intro h
    rcases map_some_or_first_none rs with ⟨l, rfl⟩ | ⟨l, after, rfl⟩
    · simp [reduceOption_map_some]
    · obtain ⟨hlast, hafter⟩ := h l after rfl
      rw [(hsplit l after).1, (hsplit l after).2, hlast, held_eq_replicate hafter,
        List.append_assoc, List.append_assoc, List.prefix_append_right_inj, ← List.replicate_succ,
        ← List.replicate_succ', List.prefix_replicate_iff]
      have hlen := after.reduceOption_length_le
      refine ⟨by simp; omega, List.eq_replicate_of_mem fun a ha => ?_⟩
      rcases List.mem_append.mp ha with ha | ha
      · exact hafter a ha
      · exact List.mem_singleton.mp ha

end Held
