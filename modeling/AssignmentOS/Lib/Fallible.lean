import Mathlib.Data.List.Basic

/-!
# Computations that may fail

What a computation in `Except` returns and which errors it can end in, read off
its parts.
-/

namespace Fallible

universe u v

variable {ε : Type u} {α β : Type v} {x : Except ε α} {f : α → Except ε β}

@[simp] theorem ok_bind (a : α) (f : α → Except ε β) : (.ok a : Except ε α) >>= f = f a := rfl

@[simp] theorem error_bind (e : ε) (f : α → Except ε β) :
    (.error e : Except ε α) >>= f = .error e := rfl

theorem bind_eq_ok : x >>= f = .ok b ↔ ∃ a, x = .ok a ∧ f a = .ok b := by
  cases x with
  | error e => simp
  | ok a => simp

theorem bind_eq_error : x >>= f = .error e ↔ x = .error e ∨ ∃ a, x = .ok a ∧ f a = .error e := by
  cases x with
  | error e => simp
  | ok a => simp

def need (e : ε) : Option α → Except ε α
  | none => .error e
  | some a => .ok a

theorem need_eq_ok {o : Option α} : need e o = .ok a ↔ o = some a := by
  cases o <;> simp [need]

@[simp] theorem need_some (e : ε) (a : α) : need e (some a) = .ok a := rfl

@[simp] theorem need_none (e : ε) : need e (none : Option α) = .error e := rfl

-- ---------------------------------------------------------------------------
-- Possible errors
-- ---------------------------------------------------------------------------

/-- Every error the computation can end in is one of these. -/
def FailsOnly (allowed : ε → Prop) (x : Except ε α) : Prop := ∀ e, x = .error e → allowed e

@[simp] theorem failsOnly_ok (allowed : ε → Prop) (a : α) :
    FailsOnly allowed (.ok a : Except ε α) := by
  rintro e ⟨⟩

theorem failsOnly_error (h : allowed e) : FailsOnly allowed (.error e : Except ε α) := by
  rintro _ ⟨⟩
  exact h

theorem failsOnly_need (h : allowed e) (o : Option α) : FailsOnly allowed (need e o) := by
  cases o with
  | none => exact failsOnly_error h
  | some a => exact failsOnly_ok allowed a

theorem failsOnly_bind (hx : FailsOnly allowed x) (hf : ∀ a, x = .ok a → FailsOnly allowed (f a)) :
    FailsOnly allowed (x >>= f) := by
  intro e he
  rcases bind_eq_error.mp he with hx' | ⟨a, ha, hfa⟩
  · exact hx e hx'
  · exact hf a ha e hfa

theorem FailsOnly.mono (h : FailsOnly allowed x)
    (hle : ∀ e, allowed e → allowed' e) : FailsOnly allowed' x :=
  fun e he => hle e (h e he)

end Fallible
