import Mathlib.Algebra.Order.BigOperators.Group.Finset
import Mathlib.Tactic.Ring
import AssignmentOS.Lib.Potential
import AssignmentOS.Timer.Lockstep

/-!
# A slot is over after boundedly many steps

`State.rank` counts down the steps before the next tick: those of the timer, those
of each client inside `next_slot`, and the operations its thread has left outside.
Every step lowers it but for ticks and spurious wake-ups, so the handshake cannot
go on for ever within a slot, whoever is scheduled (`steps_per_slot`).
-/

namespace AssignmentOS.Timer

open Transition

variable {n : Nat}

-- ---------------------------------------------------------------------------
-- The rank
-- ---------------------------------------------------------------------------

/-- The steps of the timer before the next tick. Falling asleep is one, and being
woken is paid for by the client. -/
def TimerPc.rank (n : Nat) : TimerPc → Nat
  | .loop => 2 * n + 1
  | .scan k _ _ => 2 * (n - k)
  | .asleep k _ _ => 2 * (n - k) - 1
  | .release k _ _ => (n - k) + 2 * n + 2
  | .exited => 0

/-- The steps of a client before the next tick, when its thread makes at most `full`
operations in a slot and has `left` of them before it if it is outside. -/
def Client.rank (full left : Nat) (st : Status) (d : TimerId) (c : Client) : Nat :=
  match c.pc with
  | .outside => left + 3
  | .entered => 3
  | .checking => if d.done then (if st = .due then full + 5 else 1) else full + 4
  | .waiting => if st = .due then full + 4 else 0
  | .detached => 0

def State.clientRank (full : Nat) (left : Fin n → Nat) (s : State n) (i : Fin n) : Nat :=
  (s.client i).rank full (left i) (s.timer.status i) (s.dev i)

def State.rank (full : Nat) (left : Fin n → Nat) (s : State n) : Nat :=
  s.timer.rank n + ∑ i, s.clientRank full left i

/-- All the steps there can be from one tick to the next, one tick counted. -/
def slotSteps (n full : Nat) : Nat := n * (full + 8) + 3

/-- Steps that nothing in the slot pays for: a wake-up without a signal, and `stop_timer`. -/
@[simp] def Event.unpaid : Event n → Nat
  | .spurious | .stop => 1
  | _ => 0

@[simp] def Event.gain (full : Nat) (e : Event n) : Nat := slotSteps n full * e.ticks + 2 * e.unpaid

section
variable {full : Nat} {left left' : Fin n → Nat} {s t : State n}

theorem Client.rank_le {left : Nat} (hleft : left ≤ full) (st : Status) (d : TimerId) (c : Client) :
    c.rank full left st d ≤ full + 5 := by
  unfold rank
  split
  · omega
  · omega
  · split
    · split <;> omega
    · omega
  · split <;> omega
  · omega

theorem Client.rank_status (h : st = .due ↔ st' = .due) (left : Nat) (d : TimerId) (c : Client) :
    c.rank full left st d = c.rank full left st' d := by
  simp only [rank, h]

theorem sum_clientRank_le (hleft : ∀ i, left i ≤ full) (s : State n) :
    ∑ i, s.clientRank full left i ≤ n * (full + 5) := by
  have hsum := Finset.sum_le_card_nsmul Finset.univ (s.clientRank full left) (full + 5)
    fun i _ => Client.rank_le (hleft i) _ _ _
  simpa using hsum

theorem rank_of_timer (hdev : t.dev = s.dev) (hclient : t.client = s.client)
    (hst : ∀ i : Fin n, t.timer.status i = .due ↔ s.timer.status i = .due)
    (hrank : t.timer.rank n + 1 ≤ s.timer.rank n + g) :
    t.rank full left + 1 ≤ s.rank full left + g := by
  have hsum : ∑ i, t.clientRank full left i = ∑ i, s.clientRank full left i := by
    refine Finset.sum_congr rfl fun i _ => ?_
    unfold State.clientRank
    rw [hdev, hclient]
    exact Client.rank_status (hst i) _ _ _
  unfold State.rank
  omega

theorem rank_of_client (i : Fin n)
    (hother : ∀ j, j ≠ i → t.clientRank full left' j = s.clientRank full left j)
    (hrank : t.timer.rank n + t.clientRank full left' i + 1 ≤
      s.timer.rank n + s.clientRank full left i + g) :
    t.rank full left' + 1 ≤ s.rank full left + g := by
  have hsum := sum_change i hother
  unfold State.rank
  omega

theorem rank_signalEvent (i : Fin n) (pc : TimerPc) :
    (signalEvent i pc).rank n ≤ pc.rank n + 1 := by
  cases pc with
  | asleep k fsh event =>
    simp only [signalEvent]
    split <;> simp only [TimerPc.rank] <;> omega
  | _ => exact Nat.le_succ _

-- ---------------------------------------------------------------------------
-- One step
-- ---------------------------------------------------------------------------

/-- A record that is due has a client inside `next_slot` or none at all, and its release
leaves that client a whole slot. -/
theorem Agrees.rank_clear (h : Agrees T .due d c) (full left : Nat) :
    c.signalTimer.rank full left .free { d with done := false } ≤ c.rank full left .due d := by
  cases h with
  | posted hst => exact absurd rfl hst
  | due hpc => rcases hpc with rfl | rfl <;> simp [Client.signalTimer, Client.rank]
  | detached => simp [Client.signalTimer, Client.rank]

def Event.OfTimer : Event n → Prop
  | .begin | .sleep _ | .count _ | .tick | .clear _ _ | .again | .exit | .stop => True
  | _ => False

def Event.OfClient : Event n → Prop
  | .post _ | .block _ | .leave _ => True
  | _ => False

theorem rank_clear (h : Lockstep T s) (i : Fin n) (hpc : s.timer = .release i fsh event) :
    State.rank full left
        { s with
          dev := Function.update s.dev i { s.dev i with done := false }
          client := Function.update s.client i (s.client i).signalTimer
          timer := .release (i + 1) fsh event } + 1 ≤ s.rank full left + g := by
  refine rank_of_client i (fun j hj => ?_) ?_
  · have hji : j.val ≠ i.val := fun hval => hj (Fin.ext hval)
    simp [State.clientRank, TimerPc.status, hpc, hj,
      show j.val < i.val + 1 ↔ j.val < i.val by omega]
  · have hdue := h.agrees i
    simp only [TimerPc.status, hpc, Nat.lt_irrefl, if_false] at hdue
    have hclear := hdue.rank_clear full (left i)
    simp only [State.clientRank, TimerPc.rank, TimerPc.status, hpc, Function.update_self,
      Nat.lt_succ_self, Nat.lt_irrefl, if_true, if_false]
    omega

theorem rank_timer (h : Lockstep T s) (hs : Step s e t) (he : e.OfTimer)
    (hleft : ∀ i, left i ≤ full) :
    t.rank full left + 1 ≤ s.rank full left + e.gain full := by
  cases hs with
  | quit hpc | begin hpc =>
    refine rank_of_timer rfl rfl (fun i => by simp [TimerPc.status, hpc]) ?_
    simp only [hpc, TimerPc.rank]
    omega
  | sleep i hpc =>
    refine rank_of_timer rfl rfl (fun j => by simp [TimerPc.status, hpc]) ?_
    simp only [hpc, TimerPc.rank]
    omega
  | count i hpc =>
    refine rank_of_timer rfl rfl (fun j => ?_) ?_
    · simp only [TimerPc.status, hpc]
      split <;> split <;> simp
    · simp only [hpc, TimerPc.rank]
      omega
  | @tick k fsh event hpc hn =>
    have hsum := sum_clientRank_le hleft
      { s with time := s.time + 1, timer := .release 0 fsh event }
    simp only [State.rank, TimerPc.rank, Event.gain, Event.ticks, Event.unpaid,
      slotSteps, Nat.mul_add]
      at hsum ⊢
    omega
  | clear i hpc => exact rank_clear h i hpc
  | exit hpc hn | again hpc hn =>
    refine rank_of_timer rfl rfl (fun j => ?_) ?_
    · simp [TimerPc.status, hpc, Nat.lt_of_lt_of_le j.isLt hn]
    · simp only [hpc, TimerPc.rank]
      omega
  | stop =>
    refine rank_of_timer rfl rfl (fun _ => Iff.rfl) ?_
    simp only [Event.gain, Event.ticks, Event.unpaid]
    omega
  | call | post | block | leave | detach | wakeTimer | wakeClient => exact he.elim

theorem rank_client (h : Lockstep T s) (hs : Step s e t) (he : e.OfClient)
    (hleft : ∀ i, left i ≤ full) :
    t.rank full left + 1 ≤ s.rank full left + e.gain full := by
  cases hs with
  | post i hpc =>
    have hfree := (h.agrees i).entered_free hpc
    have hsignal := rank_signalEvent i s.timer
    refine rank_of_client i (fun j hj => by simp [State.clientRank, hj]) ?_
    simp only [State.clientRank, Client.rank, status_signalEvent, Function.update_self, hpc, hfree]
    simp
    omega
  | block i hpc hd =>
    refine rank_of_client i (fun j hj => by simp [State.clientRank, hj]) ?_
    simp only [State.clientRank, Client.rank, Function.update_self, hpc, hd, if_true]
    split <;> omega
  | leave i hpc hd =>
    refine rank_of_client i (fun j hj => by simp [State.clientRank, hj]) ?_
    have := hleft i
    simp only [State.clientRank, Client.rank, Function.update_self, hpc, hd]
    simp
    omega
  | quit | begin | sleep | count | tick | clear | exit | again | call | detach | stop | wakeTimer
  | wakeClient => exact he.elim

/-- A wake-up without a signal costs what the gain for it pays. -/
theorem rank_spurious (h : Lockstep T s) (hs : Step s .spurious t) :
    t.rank full left + 1 ≤ s.rank full left + Event.gain full (n := n) .spurious := by
  cases hs with
  | wakeTimer hpc =>
    refine rank_of_timer rfl rfl (fun j => by simp [TimerPc.status, hpc]) ?_
    simp only [hpc, TimerPc.rank, Event.gain, Event.ticks, Event.unpaid]
    omega
  | wakeClient i hpc =>
    have hd := (h.agrees i).waiting hpc
    refine rank_of_client i (fun j hj => by simp [State.clientRank, hj]) ?_
    simp only [State.clientRank, Client.rank, Function.update_self, hpc, hd, if_true, Event.gain,
      Event.ticks, Event.unpaid]
    split <;> omega

theorem rank_internal (h : Lockstep T s) (hs : Step s e t) (he : ∀ i, e ≠ .call i ∧ e ≠ .detach i)
    (hleft : ∀ i, left i ≤ full) : t.rank full left + 1 ≤ s.rank full left + e.gain full := by
  cases e with
  | begin | sleep | count | tick | clear | again | exit | stop =>
      exact rank_timer h hs trivial hleft
  | post | block | leave => exact rank_client h hs trivial hleft
  | spurious => exact rank_spurious h hs
  | call i => exact absurd rfl (he i).1
  | detach i => exact absurd rfl (he i).2

theorem rank_call (hs : Step s (.call i) t) (hother : ∀ j, j ≠ i → left' j = left j)
    (hleft : 0 < left i) :
    t.rank full left' + 1 ≤ s.rank full left := by
  cases hs with
  | call _ hpc =>
    refine rank_of_client (g := 0) i (fun j hj => by simp [State.clientRank, hj, hother j hj]) ?_
    simp only [State.clientRank, Client.rank, Function.update_self, hpc]
    omega

theorem rank_detach (hs : Step s (.detach i) t) (hother : ∀ j, j ≠ i → left' j = left j) :
    t.rank full left' + 1 ≤ s.rank full left := by
  cases hs with
  | detach _ hpc =>
    have hsignal := rank_signalEvent i s.timer
    refine rank_of_client (g := 0) i (fun j hj => by simp [State.clientRank, hj, hother j hj]) ?_
    simp only [State.clientRank, Client.rank, Function.update_self, hpc]
    omega

theorem rank_outside (full : Nat) (hpc : (s.client i).pc = .outside)
    (hother : ∀ j, j ≠ i → left' j = left j) (hleft : left' i < left i) :
    s.rank full left' + 1 ≤ s.rank full left := by
  refine rank_of_client (g := 0) i (fun j hj => by simp [State.clientRank, hother j hj]) ?_
  simp only [State.clientRank, Client.rank, hpc]
  omega

theorem rank_start (hleft : ∀ i, left i ≤ full) :
    (startTimer n).rank full left ≤ slotSteps n full := by
  have hsum := sum_clientRank_le hleft (startTimer n)
  simp only [State.rank, startTimer, TimerPc.rank, slotSteps, Nat.mul_add] at hsum ⊢
  omega

end

theorem timerRoutine_unpaid {s t : State n} (h : timerRoutine s = some (e, t)) : e.unpaid = 0 := by
  simp only [timerRoutine] at h
  split at h <;> (try split at h) <;> (try split at h) <;> cases h <;> rfl

theorem nextSlot_unpaid {s t : State n} (h : nextSlot s i = some (e, t)) : e.unpaid = 0 := by
  simp only [nextSlot] at h
  split at h <;> (try split at h) <;> cases h <;> rfl

-- ---------------------------------------------------------------------------
-- Runs
-- ---------------------------------------------------------------------------

def unpaid (tr : List (Event n)) : Nat := (tr.map Event.unpaid).sum

theorem sum_gain (full : Nat) (tr : List (Event n)) :
    (tr.map (Event.gain full)).sum = slotSteps n full * ticks tr + 2 * unpaid tr := by
  induction tr with
  | nil => rfl
  | cons e tr ih =>
    have hticks : ticks (e :: tr) = e.ticks + ticks tr := by
      cases e <;> simp [ticks, Nat.add_comm]
    have hunpaid : unpaid (e :: tr) = e.unpaid + unpaid tr := rfl
    rw [List.map_cons, List.sum_cons, ih, hticks, hunpaid, Event.gain]
    ring

theorem steps_per_slot (h : Run (system n) tr s) :
    tr.length ≤ slotSteps n 1 * (ticks tr + 1) + 2 * unpaid tr := by
  have hlen : tr.length + s.rank 1 (fun _ => 1) ≤ slotSteps n 1 + (tr.map (Event.gain 1)).sum := by
    refine h.length_add_le ?_ ?_
    · rintro _ rfl
      exact rank_start fun _ => Nat.le_refl 1
    rintro s e t hr ⟨a, ha⟩
    obtain ⟨T, hL⟩ := reachable_lockstep hr
    have hs := next_step ha
    by_cases hcall : ∃ i, e = .call i
    · obtain ⟨i, rfl⟩ := hcall
      exact rank_call hs (fun _ _ => rfl) Nat.one_pos
    by_cases hdetach : ∃ i, e = .detach i
    · obtain ⟨i, rfl⟩ := hdetach
      exact rank_detach hs fun _ _ => rfl
    exact rank_internal hL hs (fun i => ⟨fun he => hcall ⟨i, he⟩, fun he => hdetach ⟨i, he⟩⟩)
        fun _ => Nat.le_refl 1
  rw [sum_gain] at hlen
  rw [Nat.mul_succ]
  omega

/-- Two clients that overtake each other around the first tick. -/
theorem steps_per_slot_overtaking :
    ∃ tr s, exec next overtaking (startTimer 2) = some (tr, s) ∧
      tr.length ≤ slotSteps 2 1 * (ticks tr + 1) + 2 * unpaid tr := by
  obtain ⟨⟨tr, s⟩, hexec⟩ : ∃ r, exec next overtaking (startTimer 2) = some r := ⟨_, rfl⟩
  exact ⟨tr, s, hexec, steps_per_slot (run_exec hexec)⟩

end AssignmentOS.Timer
