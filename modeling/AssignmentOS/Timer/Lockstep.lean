import AssignmentOS.Timer.Model

/-!
# Clients and timer move in lockstep

`Lockstep T s`: after `T` ticks each record and its client agree with what the
timer has still to do with them in this turn (`Agrees`). A step keeps it, and
only a tick moves `T` (`Lockstep.step`), so it holds along every run with `T`
the number of ticks in the trace (`run_lockstep`).
-/

namespace AssignmentOS.Timer

open Transition

variable {n : Nat}

/-- What the timer owes a record in the current turn: nothing yet, a tick, or
the clearing of `done`. -/
inductive Status
  | free
  | counted
  | due
  deriving DecidableEq

def TimerPc.status (pc : TimerPc) (i : Fin n) : Status :=
  match pc with
  | .scan k _ _ | .asleep k _ _ => if i.val < k then .counted else .free
  | .release k _ _ => if i.val < k then .free else .due
  | .loop | .exited => .free

/-- Record and client after `T` ticks. A client that posted before the last
tick is `due` until the timer clears its flag, and `released` until it runs. -/
inductive Agrees : Nat → Status → TimerId → Client → Prop
  | working : Agrees T .free ⟨false, false⟩ ⟨.outside, T⟩
  | entered : Agrees T .free ⟨false, false⟩ ⟨.entered, T⟩
  | posted : st ≠ .due → pc = .checking ∨ pc = .waiting → Agrees T st ⟨true, false⟩ ⟨pc, T⟩
  | due : pc = .checking ∨ pc = .waiting → Agrees (T + 1) .due ⟨true, false⟩ ⟨pc, T⟩
  | released : Agrees (T + 1) .free ⟨false, false⟩ ⟨.checking, T⟩
  | detached : Agrees T st ⟨false, true⟩ ⟨.detached, k⟩

structure Lockstep (T : Nat) (s : State n) : Prop where
  time : s.time = .ofNat T
  agrees : ∀ i, Agrees T (s.timer.status i) (s.dev i) (s.client i)

@[simp] theorem status_signalEvent (i j : Fin n) (pc : TimerPc) :
    (signalEvent i pc).status j = pc.status j := by
  cases pc with
  | asleep k fsh event =>
    simp only [signalEvent]
    split <;> rfl
  | _ => rfl

-- ---------------------------------------------------------------------------
-- One record
-- ---------------------------------------------------------------------------

section
variable {T : Nat} {st : Status} {d : TimerId} {c : Client}

theorem Agrees.count (h : Agrees T .free d c) (hd : d.done = true ∨ d.fsh = true) :
    Agrees T .counted d c := by
  cases h with
  | working | entered | released => simp at hd
  | posted _ hpc => exact .posted (by simp) hpc
  | detached => exact .detached

theorem Agrees.tick (h : Agrees T .counted d c) : Agrees (T + 1) .due d c := by
  cases h with
  | posted _ hpc => exact .due hpc
  | detached => exact .detached

theorem Agrees.clear (h : Agrees T .due d c) :
    Agrees T .free { d with done := false } c.signalTimer := by
  cases h with
  | posted hst => exact absurd rfl hst
  | due hpc => rcases hpc with rfl | rfl <;> exact .released
  | detached => exact .detached

theorem Agrees.call (h : Agrees T st d c) (hpc : c.pc = .outside) :
    Agrees T st d { c with pc := .entered } := by
  cases h with
  | working => exact .entered
  | posted _ h | due h => rcases h with rfl | rfl <;> cases hpc
  | _ => cases hpc

theorem Agrees.post (h : Agrees T st d c) (hpc : c.pc = .entered) :
    Agrees T st { d with done := true } { c with pc := .checking } := by
  cases h with
  | entered => exact .posted (by simp) (.inl rfl)
  | posted _ h | due h => rcases h with rfl | rfl <;> cases hpc
  | _ => cases hpc

theorem Agrees.block (h : Agrees T st d c) (hpc : c.pc = .checking) (hd : d.done = true) :
    Agrees T st d { c with pc := .waiting } := by
  cases h with
  | posted hst _ => exact .posted hst (.inr rfl)
  | due => exact .due (.inr rfl)
  | _ => simp at hpc hd

theorem Agrees.wake (h : Agrees T st d c) (hpc : c.pc = .waiting) :
    Agrees T st d { c with pc := .checking } := by
  cases h with
  | posted hst _ => exact .posted hst (.inl rfl)
  | due => exact .due (.inl rfl)
  | _ => cases hpc

/-- A client that finds its flag cleared has been released, so the tick it
waited for has happened. -/
theorem Agrees.leave (h : Agrees T st d c) (hpc : c.pc = .checking) (hd : d.done = false) :
    c.calls + 1 = T ∧ Agrees T st d ⟨.outside, c.calls + 1⟩ := by
  cases h with
  | released => exact ⟨rfl, .working⟩
  | _ => simp at hpc hd

theorem Agrees.detach (h : Agrees T st d c) (hpc : c.pc = .outside) :
    Agrees T st { d with fsh := true } { c with pc := .detached } := by
  cases h with
  | working => exact .detached
  | posted _ h | due h => rcases h with rfl | rfl <;> cases hpc
  | _ => cases hpc

theorem Agrees.outside (h : Agrees T st d c) (hpc : c.pc = .outside) :
    st = .free ∧ d.done = false ∧ c.calls = T := by
  cases h with
  | working => exact ⟨rfl, rfl, rfl⟩
  | posted _ h | due h => rcases h with rfl | rfl <;> cases hpc
  | _ => cases hpc

theorem Agrees.entered_free (h : Agrees T st d c) (hpc : c.pc = .entered) : st = .free := by
  cases h with
  | entered => rfl
  | posted _ h | due h => rcases h with rfl | rfl <;> cases hpc
  | _ => cases hpc

theorem Agrees.undetached (h : Agrees T st d c) (hc : c.Undetached) :
    c.calls = T ∨ c.calls + 1 = T := by
  cases h with
  | working | entered | posted => exact .inl rfl
  | due | released => exact .inr rfl
  | detached => exact absurd rfl hc

theorem Agrees.counted (h : Agrees T .counted d c) (hc : c.Undetached) :
    c.Inside ∧ d.done = true ∧ c.calls = T := by
  cases h with
  | posted _ hpc => exact ⟨.inr hpc, rfl, rfl⟩
  | detached => exact absurd rfl hc

theorem Agrees.fsh (h : Agrees T st d c) : d.fsh = true ↔ c.pc = .detached := by
  cases h with
  | posted _ h | due h => rcases h with rfl | rfl <;> simp
  | _ => simp

theorem Agrees.waiting (h : Agrees T st d c) (hpc : c.pc = .waiting) : d.done = true := by
  cases h with
  | posted | due => rfl
  | _ => cases hpc

end

-- ---------------------------------------------------------------------------
-- One step
-- ---------------------------------------------------------------------------

theorem agrees_update {s : State n} {st : Fin n → Status}
    (h : ∀ j, Agrees T (st j) (s.dev j) (s.client j)) (hi : Agrees T (st i) d c) :
    ∀ j, Agrees T (st j) (Function.update s.dev i d j) (Function.update s.client i c j) := by
  intro j
  by_cases hj : j = i
  · subst hj
    simpa using hi
  · simpa [hj] using h j

theorem agrees_update_client {s : State n} {st : Fin n → Status}
    (h : ∀ j, Agrees T (st j) (s.dev j) (s.client j)) (hi : Agrees T (st i) (s.dev i) c) :
    ∀ j, Agrees T (st j) (s.dev j) (Function.update s.client i c j) := by
  simpa using agrees_update h hi

theorem lockstep_start (n : Nat) : Lockstep 0 (startTimer n) :=
  ⟨rfl, fun _ => .working⟩

@[simp] def Event.ticks : Event n → Nat
  | .tick => 1
  | _ => 0

theorem Lockstep.step (h : Lockstep T s) (hs : Step s e t) : Lockstep (T + e.ticks) t := by
  obtain ⟨htime, ha⟩ := h
  cases hs with
  | quit hpc | begin hpc | stop hpc =>
    exact ⟨htime, fun i => by simpa [TimerPc.status, hpc] using ha i⟩
  | sleep i hpc => exact ⟨htime, fun j => by simpa [TimerPc.status, hpc] using ha j⟩
  | wakeTimer hpc => exact ⟨htime, fun j => by simpa [TimerPc.status, hpc] using ha j⟩
  | exit hpc hn | again hpc hn =>
    refine ⟨htime, fun j => ?_⟩
    have hj : j.val < _ := Nat.lt_of_lt_of_le j.isLt hn
    simpa [TimerPc.status, hpc, hj] using ha j
  | count i hpc hd =>
    refine ⟨htime, fun j => ?_⟩
    have haj := ha j
    simp only [TimerPc.status, hpc] at haj ⊢
    by_cases hj : j = i
    · subst hj
      simp only [Nat.lt_irrefl, if_false, Nat.lt_succ_self, if_true] at haj ⊢
      exact haj.count hd
    · have : j.val ≠ i.val := fun he => hj (Fin.ext he)
      simpa [show j.val < i.val + 1 ↔ j.val < i.val by omega] using haj
  | tick hpc hn =>
    refine ⟨?_, fun j => ?_⟩
    · simp only [Event.ticks, htime, UInt64.ofNat_add]
      rfl
    · have haj := ha j
      simp only [TimerPc.status, hpc, Nat.lt_of_lt_of_le j.isLt hn, if_true] at haj
      exact haj.tick
  | clear i hpc =>
    refine ⟨htime, fun j => ?_⟩
    have haj := ha j
    simp only [TimerPc.status, hpc] at haj ⊢
    by_cases hj : j = i
    · subst hj
      simp only [Nat.lt_irrefl, if_false] at haj
      simpa using haj.clear
    · have : j.val ≠ i.val := fun he => hj (Fin.ext he)
      simpa [hj, show j.val < i.val + 1 ↔ j.val < i.val by omega] using haj
  | call i hpc => exact ⟨htime, agrees_update_client ha ((ha i).call hpc)⟩
  | block i hpc hd => exact ⟨htime, agrees_update_client ha ((ha i).block hpc hd)⟩
  | leave i hpc hd => exact ⟨htime, agrees_update_client ha ((ha i).leave hpc hd).2⟩
  | wakeClient i hpc => exact ⟨htime, agrees_update_client ha ((ha i).wake hpc)⟩
  | post i hpc =>
    refine ⟨htime, ?_⟩
    simpa using agrees_update ha ((ha i).post hpc)
  | detach i hpc =>
    refine ⟨htime, ?_⟩
    simpa using agrees_update ha ((ha i).detach hpc)

def ticks (tr : List (Event n)) : Nat := tr.count .tick

theorem ticks_append (tr : List (Event n)) (e : Event n) :
    ticks (tr ++ [e]) = ticks tr + e.ticks := by
  cases e <;> simp [ticks, List.count_append]

theorem run_lockstep (h : Run (system n) tr s) : Lockstep (ticks tr) s := by
  refine h.invariant (P := fun tr s => Lockstep (ticks tr) s) ?_ ?_
  · rintro _ rfl
    exact lockstep_start n
  · rintro tr s e t _ ih ⟨a, ha⟩
    rw [ticks_append]
    exact ih.step (next_step ha)

theorem reachable_lockstep (h : Reachable (system n) s) : ∃ T, Lockstep T s := by
  obtain ⟨tr, h⟩ := h
  exact ⟨_, run_lockstep h⟩

-- ---------------------------------------------------------------------------
-- Counted before cleared
-- ---------------------------------------------------------------------------

/-- How far the pending `done = 1` of a record has come. -/
inductive Mark
  | idle
  | posted
  | counted
  | ticked
  deriving DecidableEq

def Mark.next (i : Fin n) (m : Mark) : Event n → Mark
  | .post j => if j = i then .posted else m
  | .count j => if j = i ∧ m = .posted then .counted else m
  | .tick => if m = .counted then .ticked else m
  | .clear j _ => if j = i then .idle else m
  | _ => m

/-- Read off the trace: the last post of record `i`, its count after that, and
a tick after the count. -/
def mark (i : Fin n) (tr : List (Event n)) : Mark := tr.foldl (Mark.next i) .idle

def Status.mark : Status → Mark
  | .free => .posted
  | .counted => .counted
  | .due => .ticked

theorem Lockstep.mark_step {m : Fin n → Mark} (h : Lockstep T s)
    (hm : ∀ i, (s.dev i).done = true → m i = (s.timer.status i).mark) (hs : Step s e t) :
    ∀ i, (t.dev i).done = true → (m i).next i e = (t.timer.status i).mark := by
  intro j hj
  cases hs with
  | quit hpc | begin hpc | sleep i hpc | wakeTimer hpc =>
    simpa [Mark.next, TimerPc.status, hpc] using hm j hj
  | stop | call | block | leave | wakeClient => exact hm j hj
  | exit hpc hn | again hpc hn =>
    have hlt : j.val < _ := Nat.lt_of_lt_of_le j.isLt hn
    simpa [Mark.next, TimerPc.status, hpc, hlt] using hm j hj
  | tick hpc hn =>
    have hlt : j.val < _ := Nat.lt_of_lt_of_le j.isLt hn
    have hmj := hm j hj
    simp only [TimerPc.status, hpc, hlt, if_true, Status.mark] at hmj
    simp [Mark.next, hmj, TimerPc.status, Status.mark]
  | count i hpc hd =>
    have hmj := hm j hj
    simp only [TimerPc.status, hpc] at hmj ⊢
    by_cases hji : j = i
    · subst hji
      simp only [Nat.lt_irrefl, if_false, Status.mark] at hmj
      simp [Mark.next, hmj, Status.mark]
    · have : j.val ≠ i.val := fun he => hji (Fin.ext he)
      simpa [Mark.next, Ne.symm hji, show j.val < i.val + 1 ↔ j.val < i.val by omega] using hmj
  | clear i hpc =>
    by_cases hji : j = i
    · subst hji
      simp at hj
    · have : j.val ≠ i.val := fun he => hji (Fin.ext he)
      have hmj := hm j (by simpa [hji] using hj)
      simpa [Mark.next, Ne.symm hji, TimerPc.status, hpc,
        show j.val < i.val + 1 ↔ j.val < i.val by omega] using hmj
  | post i hpc =>
    by_cases hji : j = i
    · subst hji
      simp [Mark.next, (h.agrees j).entered_free hpc, Status.mark]
    · have hmj := hm j (by simpa [hji] using hj)
      simpa [Mark.next, Ne.symm hji] using hmj
  | detach i hpc =>
    by_cases hji : j = i
    · subst hji
      exact absurd (by simpa using hj) (by simp [((h.agrees j).outside hpc).2.1])
    · have hmj := hm j (by simpa [hji] using hj)
      simpa [Mark.next] using hmj

theorem run_marked (h : Run (system n) tr s) :
    ∀ i, (s.dev i).done = true → mark i tr = (s.timer.status i).mark := by
  refine h.invariant
    (P := fun tr s => ∀ i, (s.dev i).done = true → mark i tr = (s.timer.status i).mark) ?_ ?_
  · rintro _ rfl i hd
    cases hd
  · rintro tr s e t hr ih ⟨a, ha⟩ i hd
    simpa [mark] using (run_lockstep hr).mark_step ih (next_step ha) i hd

theorem next_clear {s : State n} (h : next s a = some (.clear i d, t)) :
    (s.dev i).done = d ∧ s.timer.status i = .due := by
  cases next_step h with
  | clear i hpc => exact ⟨rfl, by simp [TimerPc.status, hpc]⟩

theorem next_tick {s : State n} (h : next s a = some (.tick, t)) :
    ∀ i : Fin n, s.timer.status i = .counted := by
  cases next_step h with
  | tick hpc hn =>
    intro i
    simp [TimerPc.status, hpc, Nat.lt_of_lt_of_le i.isLt hn]

-- ---------------------------------------------------------------------------
-- The clients' view
-- ---------------------------------------------------------------------------

theorem client_sees_time (h : Lockstep T s) (i : Fin n) :
    ((s.client i).pc = .outside →
      (s.dev i).done = false ∧ s.currentTime = .ofNat (s.client i).calls) ∧
    ((s.client i).Undetached →
      s.currentTime = .ofNat (s.client i).calls ∨
        s.currentTime = .ofNat ((s.client i).calls + 1)) := by
  have htime : s.currentTime = .ofNat T := h.time
  rw [htime]
  constructor
  · intro hpc
    obtain ⟨-, hd, hT⟩ := (h.agrees i).outside hpc
    exact ⟨hd, by rw [hT]⟩
  · intro hc
    rcases (h.agrees i).undetached hc with hT | hT
    · exact .inl (by rw [hT])
    · exact .inr (by rw [hT])

theorem leave_sees_time (h : Lockstep T s) (hs : next s a = some (.leave i, t)) :
    (t.client i).calls = (s.client i).calls + 1 ∧
      s.currentTime = .ofNat ((s.client i).calls + 1) := by
  cases next_step hs with
  | leave i hpc hd =>
    refine ⟨by simp, ?_⟩
    rw [((h.agrees i).leave hpc hd).1]
    exact h.time

theorem timer_lockstep (h : Run (system n) tr s) :
    (∀ i, (s.client i).pc = .outside →
      (s.dev i).done = false ∧ s.currentTime = .ofNat (s.client i).calls) ∧
    (∀ i, (s.client i).Inside →
      s.currentTime = .ofNat (s.client i).calls ∨ s.currentTime = .ofNat ((s.client i).calls + 1)) ∧
    (∀ a i t, next s a = some (.leave i, t) →
      (t.client i).calls = (s.client i).calls + 1 ∧ t.currentTime = .ofNat (t.client i).calls) ∧
    (∀ i j, (s.client i).Undetached → (s.client j).Undetached →
      (s.client i).calls ≤ (s.client j).calls + 1) ∧
    (∀ a t, next s a = some (.tick, t) →
      ∀ i, (s.client i).Undetached → (s.client i).Inside ∧ (s.dev i).done = true) ∧
    (∀ a i t, next s a = some (.clear i true, t) → mark i tr = .ticked) := by
  have hL := run_lockstep h
  refine ⟨fun i => (client_sees_time hL i).1, fun i hin => ?_, fun a i t hs => ?_,
    fun i j hi hj => ?_, fun a t hs i hi => ?_, fun a i t hs => ?_⟩
  · refine (client_sees_time hL i).2 ?_
    rcases hin with hpc | hpc | hpc <;> simp [Client.Undetached, hpc]
  · obtain ⟨hcalls, htime⟩ := leave_sees_time hL hs
    refine ⟨hcalls, ?_⟩
    rw [hcalls, ← htime]
    cases next_step hs with
    | leave => rfl
  · have := (hL.agrees i).undetached hi
    have := (hL.agrees j).undetached hj
    omega
  · have hi' := hL.agrees i
    rw [next_tick hs i] at hi'
    exact ⟨(hi'.counted hi).1, (hi'.counted hi).2.1⟩
  · obtain ⟨hd, hst⟩ := next_clear hs
    rw [run_marked h i hd, hst]
    rfl

/-- Client 0 is released, runs ahead and posts again while client 1 still waits
for the same pass to reach it. -/
def overtaking : List (Act 2) :=
  [.timer, .call 0, .client 0, .call 1, .client 1, .client 1, .timer, .timer, .timer, .timer,
    .client 0, .call 0, .client 0]

theorem timer_lockstep_overtaking :
    ∃ tr s, exec next overtaking (startTimer 2) = some (tr, s) ∧
      (s.client 0).calls = 1 ∧ (s.client 1).pc = .waiting ∧ (s.dev 0).done = true ∧
      (s.client 0).calls ≤ (s.client 1).calls + 1 := by
  refine ⟨_, _, rfl, rfl, rfl, rfl, ?_⟩
  exact (timer_lockstep (run_exec (l := overtaking) rfl)).2.2.2.1 0 1 (by decide) (by decide)

end AssignmentOS.Timer
