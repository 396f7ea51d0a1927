import AssignmentOS.Lib.Transition

/-!
# The slot timer

`timer.c` as a transition system: the records of `dev_list`, `timer_routine`,
and one client thread for each record. A section under a mutex is one step.
`pthread_cond_wait` is two: the check that goes to sleep, and, once the thread
is awake, the check again. A signal wakes only a thread that is asleep; a
spurious wake-up is an action of its own.

`calls` counts the `next_slot` calls a client has completed. No step reads it.
-/

namespace AssignmentOS.Timer

open Transition

/-- The flags of a `timer_id_t`; who waits on its condition variables is in the
program points of the threads. -/
structure TimerId where
  done : Bool
  fsh : Bool
  deriving DecidableEq, Repr

inductive ClientPc
  | outside
  | entered
  | checking
  | waiting
  | detached
  deriving DecidableEq, Repr

structure Client where
  pc : ClientPc
  calls : Nat
  deriving DecidableEq, Repr

def Client.Undetached (c : Client) : Prop := c.pc ≠ .detached

instance (c : Client) : Decidable c.Undetached := by unfold Client.Undetached; infer_instance

def Client.Inside (c : Client) : Prop := c.pc = .entered ∨ c.pc = .checking ∨ c.pc = .waiting

instance (c : Client) : Decidable c.Inside := by unfold Client.Inside; infer_instance

/-- Where `timer_routine` stands: the position `k` of `temp` in `dev_list` and
the counters `fsh` and `event` of this turn of the loop. -/
inductive TimerPc
  | loop
  | scan (k fsh event : Nat)
  | asleep (k fsh event : Nat)
  | release (k fsh event : Nat)
  | exited
  deriving DecidableEq, Repr

structure State (n : Nat) where
  dev : Fin n → TimerId
  time : UInt64
  timerStop : Bool
  timer : TimerPc
  client : Fin n → Client

inductive Event (n : Nat)
  | begin
  | sleep (i : Fin n)
  | count (i : Fin n)
  | tick
  | clear (i : Fin n) (done : Bool)
  | again
  | exit
  | call (i : Fin n)
  | post (i : Fin n)
  | block (i : Fin n)
  | leave (i : Fin n)
  | detach (i : Fin n)
  | spurious
  | stop
  deriving DecidableEq, Repr

-- ---------------------------------------------------------------------------
-- Threads
-- ---------------------------------------------------------------------------

/-- `start_timer` after `n` calls of `attach_event`: the timer at its loop, every client at work. -/
def startTimer (n : Nat) : State n where
  dev _ := ⟨false, false⟩
  time := 0
  timerStop := false
  timer := .loop
  client _ := ⟨.outside, 0⟩

variable {n : Nat}

def State.currentTime (s : State n) : UInt64 := s.time

/-- `pthread_cond_signal(&id.event_cond)`: only the timer waits on it. -/
def signalEvent (i : Fin n) : TimerPc → TimerPc
  | .asleep k fsh event => if k = i then .scan k fsh event else .asleep k fsh event
  | pc => pc

/-- `pthread_cond_signal(&id.timer_cond)`: only the record's client waits on it. -/
def Client.signalTimer (c : Client) : Client :=
  if c.pc = .waiting then { c with pc := .checking } else c

/-- The next step of `timer_routine`; `none` while it is asleep or has left. -/
def timerRoutine (s : State n) : Option (Event n × State n) :=
  match s.timer with
  | .loop =>
    if s.timerStop then some (.exit, { s with timer := .exited })
    else some (.begin, { s with timer := .scan 0 0 0 })
  | .scan k fsh event =>
    if h : k < n then
      let id := s.dev ⟨k, h⟩
      if !id.done && !id.fsh then some (.sleep ⟨k, h⟩, { s with timer := .asleep k fsh event })
      else
        some (.count ⟨k, h⟩,
          { s with timer := .scan (k + 1) (if id.fsh then fsh + 1 else fsh) (event + 1) })
    else some (.tick, { s with time := s.time + 1, timer := .release 0 fsh event })
  | .asleep .. => none
  | .release k fsh event =>
    if h : k < n then
      let i : Fin n := ⟨k, h⟩
      some (.clear i (s.dev i).done,
        { s with
          dev := Function.update s.dev i { s.dev i with done := false }
          client := Function.update s.client i (s.client i).signalTimer
          timer := .release (k + 1) fsh event })
    else if fsh = event then some (.exit, { s with timer := .exited })
    else some (.again, { s with timer := .loop })
  | .exited => none

/-- The next step of client `i` inside `next_slot`; `none` while it sleeps. -/
def nextSlot (s : State n) (i : Fin n) : Option (Event n × State n) :=
  match (s.client i).pc with
  | .entered =>
    some (.post i,
      { s with
        dev := Function.update s.dev i { s.dev i with done := true }
        client := Function.update s.client i { s.client i with pc := .checking }
        timer := signalEvent i s.timer })
  | .checking =>
    if (s.dev i).done then
      some (.block i,
        { s with client := Function.update s.client i { s.client i with pc := .waiting } })
    else
      some (.leave i,
        { s with client := Function.update s.client i ⟨.outside, (s.client i).calls + 1⟩ })
  | _ => none

def callNextSlot (s : State n) (i : Fin n) : Option (Event n × State n) :=
  if (s.client i).pc = .outside then
    some (.call i,
      { s with client := Function.update s.client i { s.client i with pc := .entered } })
  else none

def detachEvent (s : State n) (i : Fin n) : Option (Event n × State n) :=
  if (s.client i).pc = .outside then
    some (.detach i,
      { s with
        dev := Function.update s.dev i { s.dev i with fsh := true }
        client := Function.update s.client i { s.client i with pc := .detached }
        timer := signalEvent i s.timer })
  else none

/-- `stop_timer` sets `timer_stop`. `main` joins every client thread first. -/
def stopTimer (s : State n) : Option (Event n × State n) :=
  if ∀ i, (s.client i).pc = .detached then some (.stop, { s with timerStop := true }) else none

/-- `pthread_cond_wait` returns to the timer without a signal. -/
def wakeTimer (s : State n) : Option (Event n × State n) :=
  match s.timer with
  | .asleep k fsh event => some (.spurious, { s with timer := .scan k fsh event })
  | _ => none

/-- `pthread_cond_wait` returns to client `i` without a signal. -/
def wakeClient (s : State n) (i : Fin n) : Option (Event n × State n) :=
  if (s.client i).pc = .waiting then
    some (.spurious,
      { s with client := Function.update s.client i { s.client i with pc := .checking } })
  else none

-- ---------------------------------------------------------------------------
-- The system
-- ---------------------------------------------------------------------------

inductive Act (n : Nat)
  | timer
  | client (i : Fin n)
  | call (i : Fin n)
  | detach (i : Fin n)
  | stop
  | wakeTimer
  | wakeClient (i : Fin n)
  deriving DecidableEq, Repr

def Act.Spurious : Act n → Bool
  | .wakeTimer | .wakeClient _ => true
  | _ => false

/-- The actions a client's program does not choose: what is under way inside
`next_slot`, and the timer's own. -/
def Act.Internal : Act n → Bool
  | .call _ | .detach _ => false
  | _ => true

def next (s : State n) : Act n → Option (Event n × State n)
  | .timer => timerRoutine s
  | .client i => nextSlot s i
  | .call i => callNextSlot s i
  | .detach i => detachEvent s i
  | .stop => stopTimer s
  | .wakeTimer => wakeTimer s
  | .wakeClient i => wakeClient s i

/-- What one step can do, the form in which the invariants read it. -/
inductive Step (s : State n) : Event n → State n → Prop
  | quit : s.timer = .loop → s.timerStop = true → Step s .exit { s with timer := .exited }
  | begin : s.timer = .loop → Step s .begin { s with timer := .scan 0 0 0 }
  | sleep (i : Fin n) : s.timer = .scan i fsh event → (s.dev i).done = false →
      (s.dev i).fsh = false → Step s (.sleep i) { s with timer := .asleep i fsh event }
  | count (i : Fin n) : s.timer = .scan i fsh event → (s.dev i).done = true ∨ (s.dev i).fsh = true →
      Step s (.count i)
        { s with timer := .scan (i + 1) (if (s.dev i).fsh then fsh + 1 else fsh) (event + 1) }
  | tick : s.timer = .scan k fsh event → n ≤ k →
      Step s .tick { s with time := s.time + 1, timer := .release 0 fsh event }
  | clear (i : Fin n) : s.timer = .release i fsh event →
      Step s (.clear i (s.dev i).done)
        { s with
          dev := Function.update s.dev i { s.dev i with done := false }
          client := Function.update s.client i (s.client i).signalTimer
          timer := .release (i + 1) fsh event }
  | exit : s.timer = .release k event event → n ≤ k → Step s .exit { s with timer := .exited }
  | again : s.timer = .release k fsh event → n ≤ k → fsh ≠ event →
      Step s .again { s with timer := .loop }
  | call (i : Fin n) : (s.client i).pc = .outside →
      Step s (.call i)
        { s with client := Function.update s.client i { s.client i with pc := .entered } }
  | post (i : Fin n) : (s.client i).pc = .entered →
      Step s (.post i)
        { s with
          dev := Function.update s.dev i { s.dev i with done := true }
          client := Function.update s.client i { s.client i with pc := .checking }
          timer := signalEvent i s.timer }
  | block (i : Fin n) : (s.client i).pc = .checking → (s.dev i).done = true →
      Step s (.block i)
        { s with client := Function.update s.client i { s.client i with pc := .waiting } }
  | leave (i : Fin n) : (s.client i).pc = .checking → (s.dev i).done = false →
      Step s (.leave i)
        { s with client := Function.update s.client i ⟨.outside, (s.client i).calls + 1⟩ }
  | detach (i : Fin n) : (s.client i).pc = .outside →
      Step s (.detach i)
        { s with
          dev := Function.update s.dev i { s.dev i with fsh := true }
          client := Function.update s.client i { s.client i with pc := .detached }
          timer := signalEvent i s.timer }
  | stop : (∀ i, (s.client i).pc = .detached) → Step s .stop { s with timerStop := true }
  | wakeTimer : s.timer = .asleep k fsh event →
      Step s .spurious { s with timer := .scan k fsh event }
  | wakeClient (i : Fin n) : (s.client i).pc = .waiting →
      Step s .spurious
        { s with client := Function.update s.client i { s.client i with pc := .checking } }

theorem timerRoutine_step (h : timerRoutine s = some (e, t)) : Step s e t := by
  unfold timerRoutine at h
  split at h
  · rename_i hpc
    split at h
    · rename_i hstop
      cases h
      exact .quit hpc hstop
    · cases h
      exact .begin hpc
  · rename_i k fsh event hpc
    split at h
    · rename_i hk
      simp only at h
      split at h
      · rename_i hd
        simp only [Bool.and_eq_true, Bool.not_eq_true'] at hd
        cases h
        exact .sleep ⟨k, hk⟩ hpc hd.1 hd.2
      · rename_i hd
        cases h
        refine .count ⟨k, hk⟩ hpc ?_
        simpa [imp_iff_not_or] using hd
    · rename_i hk
      cases h
      exact .tick hpc (Nat.le_of_not_lt hk)
  · cases h
  · rename_i k fsh event hpc
    split at h
    · rename_i hk
      cases h
      exact .clear ⟨k, hk⟩ hpc
    · rename_i hk
      split at h
      · rename_i heq
        subst heq
        cases h
        exact .exit hpc (Nat.le_of_not_lt hk)
      · rename_i hne
        cases h
        exact .again hpc (Nat.le_of_not_lt hk) hne
  · cases h

theorem nextSlot_step (h : nextSlot s i = some (e, t)) : Step s e t := by
  unfold nextSlot at h
  split at h
  · rename_i hpc
    cases h
    exact .post i hpc
  · rename_i hpc
    split at h
    · rename_i hd
      cases h
      exact .block i hpc hd
    · rename_i hd
      cases h
      exact .leave i hpc (by simpa using hd)
  · cases h

theorem next_step (h : next s a = some (e, t)) : Step s e t := by
  cases a with
  | timer => exact timerRoutine_step h
  | client i => exact nextSlot_step h
  | call i =>
    simp only [next, callNextSlot, Option.ite_none_right_eq_some] at h
    obtain ⟨hpc, h⟩ := h
    cases h
    exact .call i hpc
  | detach i =>
    simp only [next, detachEvent, Option.ite_none_right_eq_some] at h
    obtain ⟨hpc, h⟩ := h
    cases h
    exact .detach i hpc
  | stop =>
    simp only [next, stopTimer, Option.ite_none_right_eq_some] at h
    obtain ⟨hall, h⟩ := h
    cases h
    exact .stop hall
  | wakeTimer =>
    simp only [next, wakeTimer] at h
    split at h
    · rename_i hpc
      cases h
      exact .wakeTimer hpc
    · cases h
  | wakeClient i =>
    simp only [next, wakeClient, Option.ite_none_right_eq_some] at h
    obtain ⟨hpc, h⟩ := h
    cases h
    exact .wakeClient i hpc

theorem Step.client (h : Step s e t) (i : Fin n) :
    t.client i = s.client i ∨
    (e = .call i ∧ (s.client i).pc = .outside ∧
      t.client i = { s.client i with pc := .entered }) ∨
    (e = .detach i ∧ (s.client i).pc = .outside ∧
      t.client i = { s.client i with pc := .detached }) ∨
    (e = .leave i ∧ (s.client i).pc = .checking ∧ (s.dev i).done = false ∧
      t.client i = ⟨.outside, (s.client i).calls + 1⟩) ∨
    ((s.client i).Inside ∧ (t.client i).Inside ∧ (t.client i).calls = (s.client i).calls) := by
  cases h with
  | call j hpc =>
    by_cases hi : i = j
    · subst hi
      exact .inr (.inl ⟨rfl, hpc, by simp⟩)
    · exact .inl (by simp [hi])
  | detach j hpc =>
    by_cases hi : i = j
    · subst hi
      exact .inr (.inr (.inl ⟨rfl, hpc, by simp⟩))
    · exact .inl (by simp [hi])
  | leave j hpc hd =>
    by_cases hi : i = j
    · subst hi
      exact .inr (.inr (.inr (.inl ⟨rfl, hpc, hd, by simp⟩)))
    · exact .inl (by simp [hi])
  | post j hpc | block j hpc | wakeClient j hpc =>
    by_cases hi : i = j
    · subst hi
      exact .inr (.inr (.inr (.inr (by simp [Client.Inside, hpc]))))
    · exact .inl (by simp [hi])
  | clear j hpc =>
    by_cases hi : i = j
    · subst hi
      by_cases hw : (s.client i).pc = .waiting
      · exact .inr (.inr (.inr (.inr (by simp [Client.Inside, Client.signalTimer, hw]))))
      · exact .inl (by simp [Client.signalTimer, hw])
    · exact .inl (by simp [hi])
  | _ => exact .inl rfl

theorem internal_event (ha : a.Internal = true) (h : next s a = some (e, t)) (i : Fin n) :
    e ≠ .call i ∧ e ≠ .detach i := by
  cases a with
  | timer =>
    simp only [next, timerRoutine] at h
    split at h <;> (try split at h) <;> (try split at h) <;> cases h <;> simp
  | client j =>
    simp only [next, nextSlot] at h
    split at h <;> (try split at h) <;> cases h <;> simp
  | call j | detach j => cases ha
  | stop =>
    simp only [next, stopTimer, Option.ite_none_right_eq_some] at h
    obtain ⟨-, h⟩ := h
    cases h
    simp
  | wakeTimer =>
    simp only [next, wakeTimer] at h
    split at h <;> cases h
    simp
  | wakeClient j =>
    simp only [next, wakeClient, Option.ite_none_right_eq_some] at h
    obtain ⟨-, h⟩ := h
    cases h
    simp

def Client.slot (c : Client) : Nat := if c.Inside then c.calls + 1 else c.calls

/-- What happens without the client's program leaves it in its slot, outside
`next_slot` if it was outside, and attached if it was attached. -/
theorem internal_client (ha : a.Internal = true) (h : next s a = some (e, t)) (i : Fin n) :
    (t.client i).slot = (s.client i).slot ∧ ((t.client i).Inside → (s.client i).Inside) ∧
      ((t.client i).pc = .detached ↔ (s.client i).pc = .detached) := by
  have hne := internal_event ha h i
  rcases (next_step h).client i with hu | ⟨he, -⟩ | ⟨he, -⟩ | ⟨-, hpc, -, hu⟩ | ⟨hs, ht, hcalls⟩
  · rw [hu]
    exact ⟨rfl, id, Iff.rfl⟩
  · exact absurd he hne.1
  · exact absurd he hne.2
  · rw [hu]
    simp [Client.slot, Client.Inside, hpc]
  · refine ⟨by simp [Client.slot, hs, ht, hcalls], fun _ => hs, ?_⟩
    constructor
    · rintro hd
      simp [Client.Inside, hd] at ht
    · rintro hd
      simp [Client.Inside, hd] at hs

theorem time_step {s t : State n} (h : Step s e t) (he : e ≠ .tick) : t.time = s.time := by
  cases h with
  | tick => exact absurd rfl he
  | _ => rfl

theorem next_call (h : next s (.call i) = some (e, t)) :
    (s.client i).pc = .outside ∧
      t = { s with client := Function.update s.client i { s.client i with pc := .entered } } := by
  simp only [next, callNextSlot, Option.ite_none_right_eq_some] at h
  obtain ⟨hpc, h⟩ := h
  cases h
  exact ⟨hpc, rfl⟩

theorem next_detach (h : next s (.detach i) = some (e, t)) :
    (s.client i).pc = .outside ∧
      t.client = Function.update s.client i { s.client i with pc := .detached } ∧
      t.time = s.time := by
  simp only [next, detachEvent, Option.ite_none_right_eq_some] at h
  obtain ⟨hpc, h⟩ := h
  cases h
  exact ⟨hpc, rfl, rfl⟩

def system (n : Nat) : System (State n) (Event n) := .ofNext (startTimer n) next

/-- The same threads where `pthread_cond_wait` returns only when signalled. -/
def signalOnly (s : State n) (a : Act n) : Option (Event n × State n) :=
  if a.Spurious then none else next s a

def signalledSystem (n : Nat) : System (State n) (Event n) := .ofNext (startTimer n) signalOnly

theorem signalled_simulates : Simulates (signalledSystem n) (system n) id some where
  init _ h := h
  step s e t h := by
    obtain ⟨a, h⟩ := h
    unfold signalOnly at h
    split at h
    · cases h
    · exact ⟨a, h⟩

end AssignmentOS.Timer
