import Mathlib.Data.List.FinRange
import AssignmentOS.Os.Control

/-!
# When the processes arrive

`arrival` is the closed form of the loader's double loop. `OnTime` relates the
loader's place to the slot it is in; the slot is the clock, since the clock
cannot tick while the loader is between two calls of `next_slot`.
-/

namespace AssignmentOS.Os

open Transition

variable {cfg : Config} {mayMiss : Bool} {m : Nat}

-- ---------------------------------------------------------------------------
-- The closed form
-- ---------------------------------------------------------------------------

/-- The slot in which process `i` arrives: its start time, or the slot after its
predecessor's if that is later. -/
def arrivalAt (startTime : Fin m → UInt64) : (i : Nat) → i < m → UInt64
  | 0, h => startTime ⟨0, h⟩
  | i + 1, h => max (startTime ⟨i + 1, h⟩) (arrivalAt startTime i (Nat.lt_of_succ_lt h) + 1)

def arrival (startTime : Fin m → UInt64) (i : Fin m) : UInt64 := arrivalAt startTime i i.isLt

/-- The slot in which the loader is done with the first `i` processes. -/
def freeSlot (startTime : Fin m → UInt64) : (i : Nat) → i ≤ m → UInt64
  | 0, _ => 0
  | i + 1, h => arrivalAt startTime i h + 1

theorem max_bounds (a b : UInt64) :
    a ≤ max a b ∧ b ≤ max a b ∧ ∀ c, a ≤ c → b ≤ c → max a b ≤ c := by
  have hmax : max a b = if a ≤ b then b else a := rfl
  rw [hmax]
  split
  · rename_i hab
    exact ⟨hab, UInt64.le_refl b, fun _ _ hb => hb⟩
  · rename_i hab
    exact ⟨UInt64.le_refl a, UInt64.le_of_lt (UInt64.not_le.mp hab), fun _ ha _ => ha⟩

theorem arrivalAt_eq (startTime : Fin m → UInt64) (h : i < m) :
    arrivalAt startTime i h = max (startTime ⟨i, h⟩) (freeSlot startTime i (Nat.le_of_lt h)) := by
  cases i with
  | zero =>
    obtain ⟨hle, -, hmin⟩ := max_bounds (startTime ⟨0, h⟩) 0
    exact UInt64.le_antisymm hle (hmin _ (UInt64.le_refl _) UInt64.zero_le)
  | succ i => rfl

def OnTime (startTime : Fin m → UInt64) (slot : UInt64) : Ld m → Prop
  | .loop i => slot = freeSlot startTime i i.is_le
  | .wait i => freeSlot startTime i i.isLt.le ≤ slot ∧ slot ≤ arrival startTime i
  | .waitSlot i => freeSlot startTime i i.isLt.le ≤ slot ∧ slot < startTime i
  | .add i | .slot i => slot = arrival startTime i
  | .fin | .detach | .exited => slot = freeSlot startTime m m.le_refl

def LdOp.slotAfter (now : UInt64) : LdOp m → UInt64
  | .nextSlot => now + 1
  | _ => now

theorem add_one_le_of_lt {a b : UInt64} (h : a < b) : a + 1 ≤ b ∧ a ≤ a + 1 := by
  constructor <;> grind

theorem arrival_bounds (startTime : Fin m → UInt64) (i : Fin m) :
    startTime i ≤ arrival startTime i ∧ freeSlot startTime i i.isLt.le ≤ arrival startTime i ∧
      ∀ now, startTime i ≤ now → freeSlot startTime i i.isLt.le ≤ now →
        arrival startTime i ≤ now := by
  rw [arrival, arrivalAt_eq]
  exact max_bounds _ _

theorem OnTime.step {l l' : Ld m} (h : OnTime startTime now l)
    (hop : ldRoutine startTime now l = some (op, l')) : OnTime startTime (op.slotAfter now) l' := by
  cases ldRoutine_step hop with
  | load i =>
    cases h
    exact ⟨UInt64.le_refl _, (arrival_bounds startTime i).2.1⟩
  | early i hlt => exact ⟨h.1, hlt⟩
  | due i hge =>
    obtain ⟨hfree, hle⟩ := h
    exact UInt64.le_antisymm hle ((arrival_bounds startTime i).2.2 _ (UInt64.not_lt.mp hge) hfree)
  | waitSlot i =>
    obtain ⟨hfree, hlt⟩ := h
    obtain ⟨hnext, hle⟩ := add_one_le_of_lt hlt
    exact ⟨UInt64.le_trans hfree hle, UInt64.le_trans hnext (arrival_bounds startTime i).1⟩
  | slot i => exact congrArg (· + 1) h
  | leaveLoop | addProc | setDone | detachEvent => exact h

-- ---------------------------------------------------------------------------
-- What the loader has done
-- ---------------------------------------------------------------------------

/-- An operation as others see it: `add_proc` of a process or `done = 1`, and
the time of it. -/
def LdOp.event (now : UInt64) : LdOp m → Option (Option (Fin m) × UInt64)
  | .addProc i => some (some i, now)
  | .setDone => some (none, now)
  | _ => none

/-- The schedule: every process in order, each at its arrival, then `done`. -/
def scheduled (startTime : Fin m → UInt64) (added : Nat) (done : Bool) :
    List (Option (Fin m) × UInt64) :=
  ((List.finRange m).take added).map (fun i => (some i, arrival startTime i)) ++
    if done then [(none, freeSlot startTime m m.le_refl)] else []

theorem scheduled_succ (startTime : Fin m → UInt64) (i : Fin m) :
    scheduled startTime (i + 1) false =
      scheduled startTime i false ++ [(some i, arrival startTime i)] := by
  have htake : (List.finRange m).take (i.val + 1) = (List.finRange m).take i ++ [i] := by
    rw [List.take_succ_eq_append_getElem (by simp)]
    simp
  simp [scheduled, htake]

theorem scheduled_done (startTime : Fin m → UInt64) :
    scheduled startTime m true =
      scheduled startTime m false ++ [(none, freeSlot startTime m m.le_refl)] := by
  simp [scheduled]

theorem OnTime.scheduled {l l' : Ld m} {done : Bool} (h : OnTime startTime now l)
    (hdone : done = true ↔ l.Over) (hop : ldRoutine startTime now l = some (op, l')) :
    scheduled startTime l'.added (done || op == .setDone) =
      scheduled startTime l.added done ++ (op.event now).toList := by
  have hadded := ldRoutine_added hop
  cases ldRoutine_step hop with
  | addProc i =>
    obtain rfl : done = false := by simpa [Ld.Over] using hdone
    cases h
    exact scheduled_succ startTime i
  | setDone =>
    obtain rfl : done = false := by simpa [Ld.Over] using hdone
    cases h
    exact scheduled_done startTime
  | load i => simp [LdOp.event, hadded.1, hadded.2, beq_eq_decide]
  | leaveLoop | early | due | waitSlot | slot | detachEvent =>
      simp [LdOp.event, hadded, beq_eq_decide]

def Config.startTime (cfg : Config) (p : cfg.Pid) : UInt64 := (cfg.desc p).startTime

def Label.loaderEvent : Label cfg → Option (Option cfg.Pid × UInt64)
  | .ld op now => op.event now
  | _ => none

def loaderLog (tr : List (Label cfg)) : List (Option cfg.Pid × UInt64) :=
  tr.filterMap Label.loaderEvent

structure Arriving (tr : List (Label cfg)) (s : State cfg) : Prop where
  onTime : OnTime cfg.startTime (.ofNat s.ldClient.slot) s.ld
  log : loaderLog tr = scheduled cfg.startTime s.ld.added s.done

theorem loaderLog_append (tr : List (Label cfg)) (e : Label cfg) :
    loaderLog (tr ++ [e]) = loaderLog tr ++ e.loaderEvent.toList := by
  simp only [loaderLog, List.filterMap_append]
  cases h : e.loaderEvent <;> simp [h]

theorem LdOp.slot_onClient {client : Timer.Client} {now : UInt64} (op : LdOp m)
    (hpc : client.pc = .outside) (hnow : now = .ofNat client.slot) :
    .ofNat (op.onClient client).slot = op.slotAfter now := by
  have hslot : client.slot = client.calls := by simp [Timer.Client.slot, Timer.Client.Inside, hpc]
  rw [hslot] at hnow
  cases op with
  | nextSlot => simp [Timer.Client.slot, Timer.Client.Inside, slotAfter, hnow]
  | detachEvent => simp [Timer.Client.slot, Timer.Client.Inside, slotAfter, hnow]
  | _ => simp [slotAfter, hnow, hslot]

theorem run_arriving (h : Run (system mayMiss cfg) tr s) : Arriving tr s := by
  refine h.invariant (P := Arriving) ?_ ?_
  · rintro _ rfl
    exact ⟨rfl, by simp [loaderLog, scheduled, State.start, Ld.added]⟩
  · rintro tr s e t hr ih ⟨a, ha⟩
    obtain ⟨T, hL⟩ := reachable_timer hr.reachable
    have hdone := (reachable_control hr.reachable).ld.done
    obtain ⟨hon, hlog⟩ := ih
    cases next_step ha with
    | timer hi hn =>
      refine ⟨?_, by rw [loaderLog_append]; simpa [Label.loaderEvent] using hlog⟩
      have hslot := (Timer.internal_client hi hn ldSlot).1
      rw [← show _ = s.ldClient.slot from hslot] at hon
      exact hon
    | @cpu _ op _ u c hpc hop hp =>
      obtain ⟨-, hother, -⟩ := perform_client hp
      obtain ⟨-, hld, hd⟩ := perform_frame hp
      have hclient : u.ldClient = s.ldClient := hother _ (cpuSlot_ne_ldSlot c).symm
      refine ⟨?_, ?_⟩
      · rw [← hclient, ← hld] at hon
        exact hon
      · have hev : (s.label c op).loaderEvent = none := by cases op <;> rfl
        rw [loaderLog_append, hev, hlog, ← hld, ← hd]
        simp
    | @ld op l u hpc hop hp =>
      obtain ⟨-, -, hown⟩ := performLd_client hp
      obtain ⟨-, -, -, -, hd, -⟩ := performLd_frame hp
      have hout : s.ldClient.pc = .outside := hpc
      have hnow := currentTime_of_outside hL hout
      rw [← hnow] at hon
      refine ⟨?_, ?_⟩
      · have hstep := OnTime.step hon hop
        rw [← op.slot_onClient hout hnow, ← hown] at hstep
        exact hstep
      · have hstep := OnTime.scheduled hon hdone hop
        rw [← hd, ← hlog] at hstep
        rw [loaderLog_append]
        exact hstep.symm

/-- The clock does not tick past the arrival of the next process while that is
not added, nor past the slot after the last one while `done` is not set. -/
theorem tick_onTime (h : Run (system mayMiss cfg) tr s)
    (ht : next mayMiss s a = some (.timer .tick, t)) (hdone : s.done = false) :
    (∀ i : cfg.Pid, i.val = s.ld.added → t.timer.currentTime ≤ arrival cfg.startTime i) ∧
      (s.ld.added = cfg.numProcesses →
        t.timer.currentTime = freeSlot cfg.startTime cfg.numProcesses (Nat.le_refl _)) := by
  have hon := (run_arriving h).onTime
  have hctl := (reachable_control h.reachable).ld
  have hover : ¬ s.ld.Over := fun ho => by
    rw [hctl.done.mpr ho] at hdone
    cases hdone
  have hatt : s.ldClient.Undetached := fun hd => hover (.inr (hctl.detached.mp hd))
  obtain ⟨hin, hnow⟩ := tick_inside h.reachable ht ldSlot hatt
  rw [hnow]
  rcases hctl.inside hin with ⟨j, hj⟩ | ⟨j, hj⟩
  · rw [hj] at hon ⊢
    refine ⟨fun i hi => ?_, fun hadd => absurd hadd (Nat.ne_of_lt j.isLt)⟩
    obtain rfl : i = j := Fin.ext hi
    exact hon.2
  · rw [hj] at hon ⊢
    simp only [OnTime] at hon
    have hslot : UInt64.ofNat (s.timer.client ldSlot).slot = _ := hon
    rw [hslot]
    refine ⟨fun i hi => ?_, fun hadd => ?_⟩
    · have hbound := (arrival_bounds cfg.startTime i).2.1
      simp only [hi] at hbound
      exact hbound
    · simp only [Ld.added] at hadd
      simp only [hadd]

theorem arrival_schedule (h : Run (system mayMiss cfg) tr s) :
    loaderLog tr = scheduled cfg.startTime s.ld.added s.done ∧
    (s.done = true → s.ld.added = cfg.numProcesses) ∧
    (∀ a t, next mayMiss s a = some (.timer .tick, t) → s.done = false →
      (∀ i : cfg.Pid, i.val = s.ld.added → t.timer.currentTime ≤ arrival cfg.startTime i) ∧
      (s.ld.added = cfg.numProcesses →
        t.timer.currentTime = freeSlot cfg.startTime cfg.numProcesses (Nat.le_refl _))) := by
  refine ⟨(run_arriving h).log, fun hd => ?_, fun a t ht hd => tick_onTime h ht hd⟩
  rcases (reachable_control h.reachable).ld.done.mp hd with hl | hl <;> rw [hl] <;> rfl

/-- The first line of the file starts after the second. -/
abbrev unsorted : Config := ⟨1, 0, [⟨1, ⟨[], by decide⟩⟩, ⟨0, ⟨[], by decide⟩⟩]⟩

/-- The loader waits for slot 1 and adds process 0, and process 1 in slot 2. -/
def unsortedRun : List (Act unsorted) :=
  let slot := [.ld, .timer (.client 0)] ++ List.replicate 5 (.timer .timer) ++ [.timer (.client 0)]
  [.ld, .ld] ++ slot ++ [.ld, .ld] ++ slot ++ [.ld, .ld, .ld]

theorem arrival_schedule_unsorted :
    ∃ tr s, exec (next false) unsortedRun (.start unsorted) = some (tr, s) ∧
      loaderLog tr = [(some 0, 1), (some 1, 2)] := by
  have hexec : ∃ tr s, exec (next false) unsortedRun (.start unsorted) = some (tr, s) ∧
      s.ld.added = 2 ∧ s.done = false := ⟨_, _, rfl, rfl, rfl⟩
  obtain ⟨tr, s, hexec, hadded, hdone⟩ := hexec
  have hr : Run (system false unsorted) tr s := run_exec hexec
  have hlog := (arrival_schedule hr).1
  rw [hadded, hdone] at hlog
  exact ⟨tr, s, hexec, hlog⟩

end AssignmentOS.Os
