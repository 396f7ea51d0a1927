import Mathlib.Algebra.BigOperators.Group.Finset.Basic
import Mathlib.Data.Fintype.Basic

/-!
# Labelled transition systems

A `System` has initial states and labelled steps. A `Run` is a finite run from
an initial state with the trace of its labels, oldest first, so an invariant
may speak about the history as well as about the state. `ofNext` builds a
system from an executable `next`; `exec` runs it on a given schedule. `latest`
reads off a history what was left last.
-/

namespace Transition

universe u v w

structure System (σ : Type u) (ε : Type v) where
  init : σ → Prop
  step : σ → ε → σ → Prop

/-- Finite runs, with the trace of their labels, oldest first. -/
inductive Run (M : System σ ε) : List ε → σ → Prop
  | init {s} : M.init s → Run M [] s
  | step {tr s e t} : Run M tr s → M.step s e t → Run M (tr ++ [e]) t

def Reachable (M : System σ ε) (s : σ) : Prop := ∃ tr, Run M tr s

section
variable {M : System σ ε}

theorem Run.reachable (h : Run M tr s) : Reachable M s := ⟨tr, h⟩

theorem Reachable.step (h : Reachable M s) (hs : M.step s e t) : Reachable M t := by
  obtain ⟨tr, h⟩ := h
  exact ⟨_, h.step hs⟩

/-- The induction rule for properties of the trace and the state: each step may
use that the state before it is reached by that trace. -/
theorem Run.invariant {P : List ε → σ → Prop} (h0 : ∀ s, M.init s → P [] s)
    (hstep : ∀ tr s e t, Run M tr s → P tr s → M.step s e t → P (tr ++ [e]) t)
    (h : Run M tr s) : P tr s := by
  induction h with
  | init hi => exact h0 _ hi
  | step hr hs ih => exact hstep _ _ _ _ hr ih hs

theorem Reachable.invariant {P : σ → Prop} (h0 : ∀ s, M.init s → P s)
    (hstep : ∀ s e t, Reachable M s → P s → M.step s e t → P t)
    (h : Reachable M s) : P s := by
  obtain ⟨tr, h⟩ := h
  exact h.invariant (P := fun _ s => P s) h0 fun _ s e t hr hp hs => hstep s e t hr.reachable hp hs

def System.after (M : System σ ε) (s : σ) : System σ ε where
  init := (· = s)
  step := M.step

theorem Run.split (h : Run M (tr₁ ++ e :: tr₂) s) :
    ∃ a b, Run M tr₁ a ∧ M.step a e b ∧ Run (M.after b) tr₂ s := by
  generalize htr : tr₁ ++ e :: tr₂ = tr at h
  induction h generalizing tr₂ with
  | init => simp at htr
  | @step tr s e' t hr hs ih =>
    rcases List.eq_nil_or_concat' tr₂ with rfl | ⟨tr₂', x, rfl⟩
    · obtain ⟨rfl, he⟩ := List.append_inj' htr rfl
      cases he
      exact ⟨s, t, hr, hs, .init rfl⟩
    · have hx : (tr₁ ++ e :: tr₂') ++ [x] = tr ++ [e'] := by simpa using htr
      obtain ⟨htr', hxe⟩ := List.append_inj' hx rfl
      cases hxe
      obtain ⟨a, b, hra, hab, hrb⟩ := ih htr'
      exact ⟨a, b, hra, hab, hrb.step hs⟩

theorem Run.trans (h : Run M tr₁ s) (h' : Run (M.after s) tr₂ t) : Run M (tr₁ ++ tr₂) t := by
  induction h' with
  | init hi =>
    cases hi
    simpa using h
  | step _ hs ih => simpa using ih.step hs

/-- The induction rule for what happens after a reachable state. -/
theorem Run.after_invariant {P : List ε → σ → Prop} (ha : Reachable M a) (h0 : P [] a)
    (hstep : ∀ tr s e t, Reachable M s → P tr s → M.step s e t → P (tr ++ [e]) t)
    (h : Run (M.after a) tr s) : P tr s := by
  obtain ⟨tr₀, ha⟩ := ha
  refine h.invariant ?_ ?_
  · rintro _ rfl
    exact h0
  · intro tr s e t hr hp hs
    exact hstep tr s e t (ha.trans hr).reachable hp hs

end

-- ---------------------------------------------------------------------------
-- Simulation
-- ---------------------------------------------------------------------------

/-- `f` maps each step of `M` to a step of `N` with the label `lab` names, or to
no step at all. -/
structure Simulates (M : System σ ε) (N : System τ δ) (f : σ → τ) (lab : ε → Option δ) : Prop where
  init : ∀ s, M.init s → N.init (f s)
  step : ∀ s e t, M.step s e t → match lab e with
    | none => f t = f s
    | some d => N.step (f s) d (f t)

theorem Simulates.run {M : System σ ε} {N : System τ δ} (h : Simulates M N f lab)
    (hr : Run M tr s) : Run N (tr.filterMap lab) (f s) := by
  induction hr with
  | init hi => exact .init (h.init _ hi)
  | @step tr s e t _ hs ih =>
    have hstep := h.step s e t hs
    cases hl : lab e with
    | none =>
      rw [hl] at hstep
      simpa [hl, hstep] using ih
    | some d =>
      rw [hl] at hstep
      simpa [hl] using ih.step hstep

theorem Simulates.reachable {M : System σ ε} {N : System τ δ} (h : Simulates M N f lab)
    (hr : Reachable M s) : Reachable N (f s) := by
  obtain ⟨tr, hr⟩ := hr
  exact ⟨_, h.run hr⟩

theorem Simulates.after {M : System σ ε} {N : System τ δ} (h : Simulates M N f lab) (s : σ) :
    Simulates (M.after s) (N.after (f s)) f lab where
  init _ ht := congrArg f ht
  step := h.step

-- ---------------------------------------------------------------------------
-- Executable systems
-- ---------------------------------------------------------------------------

/-- A system given by a function: the action says who moves and how a choice
falls, the result is the step's label and the next state. -/
def System.ofNext (s₀ : σ) (next : σ → α → Option (ε × σ)) : System σ ε where
  init s := s = s₀
  step s e t := ∃ a, next s a = some (e, t)

def exec (next : σ → α → Option (ε × σ)) : List α → σ → Option (List ε × σ)
  | [], s => some ([], s)
  | a :: as, s => do
    let (e, t) ← next s a
    let (es, u) ← exec next as t
    return (e :: es, u)

theorem Run.of_exec {next : σ → α → Option (ε × σ)}
    (hr : Run (System.ofNext s₀ next) tr s) (h : exec next as s = some (es, t)) :
    Run (System.ofNext s₀ next) (tr ++ es) t := by
  induction as generalizing tr s es with
  | nil =>
    simp only [exec, Option.some.injEq, Prod.mk.injEq] at h
    obtain ⟨rfl, rfl⟩ := h
    simpa using hr
  | cons a as ih =>
    simp only [exec, Option.bind_eq_bind, Option.bind_eq_some_iff, Prod.exists] at h
    obtain ⟨e, u, ha, es', v, has, h⟩ := h
    cases h
    simpa using ih (hr.step ⟨a, ha⟩) has

theorem run_exec {next : σ → α → Option (ε × σ)} {l : List α} (h : exec next l s₀ = some (es, t)) :
    Run (System.ofNext s₀ next) es t := by
  simpa using Run.of_exec (.init rfl) h

/-- The induction rule for schedules of allowed actions: each of them can be taken,
and the invariant may speak about the actions so far, newest first. -/
theorem exec_total {next : σ → α → Option (ε × σ)} {ok : α → Prop} {P : List α → σ → Prop}
    (hstep : ∀ past s a, P past s → ok a → ∃ e t, next s a = some (e, t) ∧ P (a :: past) t)
    (h0 : P past s) (l : List α) (hl : ∀ a ∈ l, ok a) :
    ∃ es t, exec next l s = some (es, t) ∧ P (l.reverse ++ past) t := by
  induction l generalizing past s with
  | nil => exact ⟨[], s, rfl, h0⟩
  | cons a l ih =>
    obtain ⟨e, t, ha, ht⟩ := hstep past s a h0 (hl a List.mem_cons_self)
    obtain ⟨es, u, hu, hP⟩ := ih ht fun b hb => hl b (List.mem_cons_of_mem a hb)
    exact ⟨e :: es, u, by simp [exec, ha, hu], by simpa using hP⟩

/-- The rule for what has to come next: a state that owes a label takes it whatever the
action is, and then owes the labels after it. -/
theorem exec_owed {next : σ → α → Option (ε × σ)} {Owes : σ → List ε → Prop}
    (hstep : ∀ s e es a, Owes s (e :: es) → ∃ t, next s a = some (e, t) ∧ Owes t es)
    (h : Owes s es) (l : List α) (hl : l.length = es.length) :
    ∃ t, exec next l s = some (es, t) := by
  induction l generalizing s es with
  | nil =>
    obtain rfl := List.eq_nil_of_length_eq_zero hl.symm
    exact ⟨s, rfl⟩
  | cons a l ih =>
    cases es with
    | nil => cases hl
    | cons e es =>
      obtain ⟨t, ha, ht⟩ := hstep s e es a h
      obtain ⟨u, hu⟩ := ih ht (Nat.succ.inj hl)
      exact ⟨u, by simp [exec, ha, hu]⟩

/-- The rule for two systems in lockstep: related states stay related under any schedule, and
both can follow it or neither can. -/
theorem exec_lockstep {next : σ → α → Option (ε × σ)} {next' : τ → α → Option (δ × τ)}
    {R : σ → τ → Prop}
    (hstep : ∀ s t a, R s t → Option.Rel (fun x y => R x.2 y.2) (next s a) (next' t a)) (h : R s t)
    (l : List α) :
    Option.Rel (fun x y => R x.2 y.2) (exec next l s) (exec next' l t) := by
  induction l generalizing s t with
  | nil => exact .some h
  | cons a l ih =>
    have ha := hstep s t a h
    unfold exec
    generalize next s a = x at ha
    generalize next' t a = y at ha
    cases ha with
    | none => exact .none
    | @some x y hxy =>
      have hrest := ih hxy
      simp only [Option.bind_eq_bind, Option.bind_some]
      generalize exec next l x.2 = u at hrest
      generalize exec next' l y.2 = v at hrest
      cases hrest with
      | none => exact .none
      | some hlast => exact .some hlast

-- ---------------------------------------------------------------------------
-- Histories
-- ---------------------------------------------------------------------------

/-- What the most recent event that leaves a value has left, `d` if there is none. The
history is newest first; what an event leaves may depend on the history before it. -/
def latest (leaves : ε → List ε → Option β) (d : β) : List ε → β
  | [] => d
  | e :: past => (leaves e past).getD (latest leaves d past)

theorem latest_of_some {leaves : ε → List ε → Option β} (h : leaves e past = some v) :
    latest leaves d (e :: past) = v := by
  simp [latest, h]

theorem latest_of_none {leaves : ε → List ε → Option β} (h : leaves e past = none) :
    latest leaves d (e :: past) = latest leaves d past := by
  simp [latest, h]

-- ---------------------------------------------------------------------------
-- Families of components
-- ---------------------------------------------------------------------------

theorem sum_update [Fintype ι] [DecidableEq ι] (F : β → Nat) (g : ι → β) (i : ι) (x : β) :
    (∑ j, F (Function.update g i x j)) + F (g i) = (∑ j, F (g j)) + F x := by
  have hrest : ∑ j ∈ Finset.univ.erase i, F (Function.update g i x j) =
      ∑ j ∈ Finset.univ.erase i, F (g j) :=
    Finset.sum_congr rfl fun j hj => by
      rw [Function.update_of_ne (Finset.ne_of_mem_erase hj)]
  rw [← Finset.add_sum_erase _ _ (Finset.mem_univ i), ← Finset.add_sum_erase (a := i) _
    (fun j => F (g j)) (Finset.mem_univ i), hrest, Function.update_self]
  omega

end Transition
