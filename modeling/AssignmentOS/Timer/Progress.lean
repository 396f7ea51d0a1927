import AssignmentOS.Timer.Lockstep

/-!
# The handshake neither loses a wake-up nor ends early

`Pass` is what the counters of `timer_routine` and its sleep say about the
records. With it the timer sleeps only on a record whose client has still to
post or to detach, and leaves its loop only when every record has detached.
-/

namespace AssignmentOS.Timer

open Transition

variable {n : Nat}

/-- After the first `k` records: all were counted, and `fsh` is `event` only if
every one of them had detached. -/
def Tally (dev : Fin n → TimerId) (k fsh event : Nat) : Prop :=
  event = k ∧ fsh ≤ k ∧ (fsh = k → ∀ i : Fin n, i.val < k → (dev i).fsh = true)

def Pass (dev : Fin n → TimerId) : TimerPc → Prop
  | .loop => True
  | .scan k fsh event => k ≤ n ∧ Tally dev k fsh event
  | .asleep k fsh event => Tally dev k fsh event ∧ ∃ i : Fin n, i.val = k ∧
      (dev i).done = false ∧ (dev i).fsh = false
  | .release _ fsh event => Tally dev n fsh event
  | .exited => ∀ i, (dev i).fsh = true

theorem Tally.mono {dev dev' : Fin n → TimerId} (h : Tally dev k fsh event)
    (hd : ∀ i, (dev i).fsh = true → (dev' i).fsh = true) : Tally dev' k fsh event :=
  ⟨h.1, h.2.1, fun hk i hi => hd i (h.2.2 hk i hi)⟩

theorem Tally.count {dev : Fin n → TimerId} {i : Fin n} (h : Tally dev i fsh event) :
    Tally dev (i + 1) (if (dev i).fsh then fsh + 1 else fsh) (event + 1) := by
  obtain ⟨rfl, hle, hall⟩ := h
  cases hi : (dev i).fsh with
  | false =>
    refine ⟨rfl, by simp; omega, ?_⟩
    intro hk
    simp at hk
    omega
  | true =>
    refine ⟨rfl, by simpa using hle, ?_⟩
    intro hk j hj
    rcases Nat.lt_succ_iff_lt_or_eq.mp hj with hj | hj
    · exact hall (by simpa using hk) j hj
    · rw [Fin.ext hj]
      exact hi

theorem Pass.signal {dev dev' : Fin n → TimerId} (h : Pass dev pc)
    (hd : ∀ j, (dev j).fsh = true → (dev' j).fsh = true) (hne : ∀ j, j ≠ i → dev' j = dev j) :
    Pass dev' (signalEvent i pc) := by
  cases pc with
  | loop => trivial
  | scan k fsh event => exact ⟨h.1, h.2.mono hd⟩
  | asleep k fsh event =>
    obtain ⟨ht, j, rfl, hj⟩ := h
    simp only [signalEvent]
    split
    · exact ⟨Nat.le_of_lt j.isLt, ht.mono hd⟩
    · rename_i hji
      have hji : j ≠ i := fun he => hji (congrArg Fin.val he)
      exact ⟨ht.mono hd, j, rfl, by rw [hne j hji]; exact hj⟩
  | release k fsh event => exact Tally.mono h hd
  | exited => exact fun j => hd j (h j)

structure Progress (s : State n) : Prop where
  pass : Pass s.dev s.timer
  fsh : ∀ i, (s.dev i).fsh = true ↔ (s.client i).pc = .detached
  stopped : s.timerStop = true → ∀ i, (s.client i).pc = .detached

theorem pass_step (hp : Progress s) (hs : Step s e t) : Pass t.dev t.timer := by
  obtain ⟨h, hfsh, hstop⟩ := hp
  cases hs with
  | quit hpc hst => exact fun i => (hfsh i).mpr (hstop hst i)
  | begin => exact ⟨Nat.zero_le _, rfl, Nat.le_refl _, fun _ i hi => absurd hi (Nat.not_lt_zero _)⟩
  | sleep i hpc hd hf =>
    rw [hpc] at h
    exact ⟨h.2, i, rfl, hd, hf⟩
  | count i hpc =>
    rw [hpc] at h
    exact ⟨i.isLt, h.2.count⟩
  | tick hpc hn =>
    rw [hpc] at h
    obtain ⟨hk, ht⟩ := h
    rw [Nat.le_antisymm hk hn] at ht
    exact ht
  | clear i hpc =>
    rw [hpc] at h
    refine Tally.mono h fun j hj => ?_
    by_cases hji : j = i
    · subst hji
      simpa using hj
    · simpa [hji] using hj
  | exit hpc =>
    rw [hpc] at h
    exact fun i => h.2.2 h.1 i i.isLt
  | again => trivial
  | call | block | leave | stop | wakeClient => exact h
  | post i =>
    refine h.signal (fun j hj => ?_) fun j hji => by simp [hji]
    by_cases hji : j = i
    · subst hji
      simpa using hj
    · simpa [hji] using hj
  | detach i =>
    refine h.signal (fun j hj => ?_) fun j hji => by simp [hji]
    by_cases hji : j = i
    · subst hji
      simp
    · simpa [hji] using hj
  | wakeTimer hpc =>
    rw [hpc] at h
    obtain ⟨ht, j, rfl, -⟩ := h
    exact ⟨Nat.le_of_lt j.isLt, ht⟩

theorem detached_step (hs : Step s e t) (h : (s.client i).pc = .detached) :
    (t.client i).pc = .detached := by
  cases hs with
  | call j hpc | post j hpc | block j hpc | leave j hpc | wakeClient j hpc =>
    by_cases hij : i = j
    · subst hij
      rw [hpc] at h
      cases h
    · simpa [hij] using h
  | detach j hpc =>
    by_cases hij : i = j
    · subst hij
      simp
    · simpa [hij] using h
  | clear j hpc =>
    by_cases hij : i = j
    · subst hij
      simp [Client.signalTimer, h]
    · simpa [hij] using h
  | _ => exact h

theorem timerStop_step {s t : State n} (hs : Step s e t) (h : t.timerStop = true) :
    s.timerStop = true ∨ ∀ i, (s.client i).pc = .detached := by
  cases hs with
  | stop hall => exact .inr hall
  | _ => exact .inl h

theorem stopped_step {s t : State n} (h : s.timerStop = true → ∀ i, (s.client i).pc = .detached)
    (hs : Step s e t) : t.timerStop = true → ∀ i, (t.client i).pc = .detached := by
  intro ht i
  rcases timerStop_step hs ht with hst | hall
  · exact detached_step hs (h hst i)
  · exact detached_step hs (hall i)

theorem reachable_progress (h : Reachable (system n) s) : Progress s := by
  refine h.invariant (P := Progress) ?_ ?_
  · rintro _ rfl
    exact ⟨trivial, fun i => by simp [startTimer], fun h => nomatch h⟩
  · rintro s e t hr hp ⟨a, ha⟩
    obtain ⟨T, hL⟩ := reachable_lockstep (hr.step ⟨a, ha⟩)
    exact ⟨pass_step hp (next_step ha), fun i => (hL.agrees i).fsh,
      stopped_step hp.stopped (next_step ha)⟩

-- ---------------------------------------------------------------------------
-- Who can move
-- ---------------------------------------------------------------------------

theorem timerRoutine_enabled (s : State n) :
    (timerRoutine s).isSome ∨ (∃ k fsh event, s.timer = .asleep k fsh event) ∨
      s.timer = .exited := by
  unfold timerRoutine
  split
  · left
    split <;> rfl
  · left
    split
    · simp only
      split <;> rfl
    · rfl
  · exact .inr (.inl ⟨_, _, _, by assumption⟩)
  · left
    split
    · rfl
    · split <;> rfl
  · exact .inr (.inr (by assumption))

theorem nextSlot_enabled {s : State n} (h : (s.client i).Inside) :
    (nextSlot s i).isSome ∨ (s.client i).pc = .waiting := by
  rcases h with hpc | hpc | hpc
  · left
    simp [nextSlot, hpc]
  · left
    simp only [nextSlot, hpc]
    split <;> rfl
  · exact .inr hpc

/-- A client on which the timer sleeps is awake: it has not posted, so nothing
can have put it to sleep. -/
theorem sleeper_enabled (h : Reachable (system n) s) (hpc : s.timer = .asleep k fsh event)
    (hin : ∀ i, (s.client i).Undetached → (s.client i).Inside) :
    ∃ i, (nextSlot s i).isSome := by
  obtain ⟨T, hL⟩ := reachable_lockstep h
  have hp := (reachable_progress h).pass
  rw [hpc] at hp
  obtain ⟨-, i, -, hd, hf⟩ := hp
  have hu : (s.client i).Undetached := fun hdet => by
    rw [(hL.agrees i).fsh.mpr hdet] at hf
    cases hf
  refine ⟨i, (nextSlot_enabled (hin i hu)).resolve_right fun hw => ?_⟩
  rw [(hL.agrees i).waiting hw] at hd
  cases hd

theorem no_lost_wakeup (h : Reachable (signalledSystem n) s) :
    ((∀ i, (s.client i).Undetached → (s.client i).Inside) → (∃ i, (s.client i).Undetached) →
      (signalOnly s .timer).isSome ∨ ∃ i, (signalOnly s (.client i)).isSome) ∧
    (∀ t, signalOnly s .timer = some (.exit, t) → s.timerStop = false →
      ∀ i, (s.dev i).fsh = true) ∧
    (s.timer = .exited → ∀ i, (s.dev i).fsh = true ∧ (s.client i).pc ≠ .waiting) := by
  have hr : Reachable (system n) s := signalled_simulates.reachable h
  have hp := reachable_progress hr
  refine ⟨fun hin hex => ?_, fun t ht hstop i => ?_, fun hpc i => ?_⟩
  · rcases timerRoutine_enabled s with he | ⟨k, fsh, event, hpc⟩ | hpc
    · exact .inl he
    · exact .inr (sleeper_enabled hr hpc hin)
    · obtain ⟨i, hu⟩ := hex
      have hall := hp.pass
      rw [hpc] at hall
      exact absurd ((hp.fsh i).mp (hall i)) hu
  · have hall := pass_step hp (timerRoutine_step ht)
    have hs := timerRoutine_step ht
    cases hs with
    | quit _ hst =>
      rw [hstop] at hst
      cases hst
    | exit => exact hall i
  · have hall := hp.pass
    rw [hpc] at hall
    refine ⟨hall i, fun hw => ?_⟩
    rw [(hp.fsh i).mp (hall i)] at hw
    cases hw

/-- The timer sleeps on the only record while its client enters `next_slot`. -/
def sleepingOn : List (Act 1) := [.timer, .timer, .call (Fin.last 0)]

theorem no_lost_wakeup_sleepingOn :
    ∃ tr s, exec signalOnly sleepingOn (startTimer 1) = some (tr, s) ∧
      s.timer = .asleep 0 0 0 ∧
      ((signalOnly s .timer).isSome ∨ ∃ i, (signalOnly s (.client i)).isSome) := by
  refine ⟨_, _, rfl, rfl, ?_⟩
  exact (no_lost_wakeup (run_exec (l := sleepingOn) rfl).reachable).1 (by decide) ⟨0, by decide⟩

end AssignmentOS.Timer
