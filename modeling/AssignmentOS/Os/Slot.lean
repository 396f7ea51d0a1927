import Mathlib.Data.List.DropRight
import AssignmentOS.Lib.Potential
import AssignmentOS.Os.Ownership
import AssignmentOS.Os.Control

/-!
# One slot

What the threads do between two ticks. `State.turn` says how far a CPU is with the
slot; an operation moves it one way only (`TurnStep`), so a CPU runs one process in
a slot and a process runs once (`run_once_per_slot`). A CPU that runs none has asked
when the queue was empty, and what was put there since is asked for again, but for
the process the loader adds (`work_conserving`).
-/

namespace AssignmentOS.Timer

variable {n : Nat} {s t : State n}

def Client.Awaits (T : Nat) (c : Client) : Prop := c.Inside ∧ c.calls = T

instance (T : Nat) (c : Client) : Decidable (c.Awaits T) := inferInstanceAs (Decidable (_ ∧ _))

theorem awaits_internal (h : Lockstep T s) (hs : Step s e t) (he : e ≠ .call i ∧ e ≠ .detach i) :
    (t.client i).Awaits T ↔ (s.client i).Awaits T := by
  rcases hs.client i with hu | ⟨hcall, -⟩ | ⟨hdetach, -⟩ | ⟨-, hpc, hd, hu⟩ | ⟨hin, hin', hcalls⟩
  · rw [hu]
  · exact absurd hcall he.1
  · exact absurd hdetach he.2
  · have hT := ((h.agrees i).leave hpc hd).1
    constructor
    · rintro ⟨hin, -⟩
      simp [Client.Inside, hu] at hin
    · rintro ⟨-, hcalls⟩
      omega
  · simp [Client.Awaits, hin, hin', hcalls]

theorem Lockstep.not_awaits_succ (h : Lockstep T s) (i : Fin n) :
    ¬ (s.client i).Awaits (T + 1) := by
  rintro ⟨hin, hcalls⟩
  have hatt : (s.client i).Undetached := by
    intro hd
    simp [Client.Inside, hd] at hin
  rcases (h.agrees i).undetached hatt with hT | hT <;> omega

theorem Lockstep.awaits_tick (h : Lockstep T s) (ht : next s a = some (.tick, t))
    (hatt : (s.client i).Undetached) : (s.client i).Awaits T := by
  have hag := h.agrees i
  rw [next_tick ht i] at hag
  obtain ⟨hin, -, hcalls⟩ := hag.counted hatt
  exact ⟨hin, hcalls⟩

end AssignmentOS.Timer

namespace AssignmentOS.Os

open Transition

variable {cfg : Config} {mayMiss : Bool} {P : Type} {m : Nat}

-- ---------------------------------------------------------------------------
-- The turn of a CPU
-- ---------------------------------------------------------------------------

/-- How far a CPU is with the slot: before the turn of a process, between giving one up
and asking for another, without a process, or past the turn of `p`. -/
inductive Turn (P : Type)
  | fresh
  | asking
  | idle
  | ran (p : P)
  deriving DecidableEq

/-- `called` if the CPU has called `next_slot` in this slot. -/
def Cpu.turn (called : Bool) (c : Cpu P) : Turn P :=
  match c.pc with
  | .top => if called then c.proc.elim .idle .ran else .fresh
  | .reload | .refetch => .asking
  | .recheck => if c.proc.isNone then .idle else .fresh
  | .slot => c.proc.elim .idle .ran
  | .stopped | .exited => .idle

inductive TurnStep : CpuOp P → Turn P → Turn P → Prop
  | miss : τ = .fresh ∨ τ = .asking → TurnStep (.getProc none) τ .idle
  | take : τ = .fresh ∨ τ = .asking → TurnStep (.getProc (some p)) τ .fresh
  | inspect : TurnStep (.inspect p) .fresh .fresh
  | free : TurnStep (.free p) .fresh .asking
  | putProc : TurnStep (.putProc p) .fresh .asking
  | readDone : TurnStep (.readDone d) .idle .idle
  | run : TurnStep (.run p) .fresh (.ran p)
  | nextSlot : TurnStep .nextSlot τ τ
  | detachEvent : TurnStep .detachEvent .idle .idle

theorem cpuRoutine_turn [DecidableEq P] {c c' : Cpu P}
    (h : cpuRoutine timeSlot finished c ans done = some (op, c')) :
    TurnStep op (c.turn false) (c'.turn (decide (op = .nextSlot))) := by
  cases cpuRoutine_step h with
  | first hpc hproc =>
    have hturn : c.turn false = .fresh := by simp [Cpu.turn, hpc]
    cases ans with
    | none => exact .miss (.inl hturn)
    | some p => exact .take (.inl hturn)
  | reload hpc | refetch hpc =>
    have hturn : c.turn false = .asking := by simp [Cpu.turn, hpc]
    cases ans with
    | none => exact .miss (.inr hturn)
    | some p => exact .take (.inr hturn)
  | free hpc hproc =>
    rw [show c.turn false = .fresh by simp [Cpu.turn, hpc]]
    exact .free
  | putProc hpc hproc =>
    rw [show c.turn false = .fresh by simp [Cpu.turn, hpc]]
    exact .putProc
  | inspect hpc hproc =>
    rw [show c.turn false = .fresh by simp [Cpu.turn, hpc]]
    simp only [Cpu.turn, hproc]
    exact .inspect
  | readDone hpc hproc =>
    rw [show c.turn false = .idle by simp [Cpu.turn, hpc, hproc]]
    cases done <;> (simp only [Cpu.turn, hproc]; exact .readDone)
  | run hpc hproc =>
    rw [show c.turn false = .fresh by simp [Cpu.turn, hpc, hproc]]
    simp only [Cpu.turn, hproc]
    exact .run
  | nextSlot hpc =>
    rw [show c.turn false = c.proc.elim .idle .ran by simp [Cpu.turn, hpc]]
    exact .nextSlot
  | detachEvent hpc =>
    rw [show c.turn false = .idle by simp [Cpu.turn, hpc]]
    exact .detachEvent

theorem held_of_ran {c : Cpu P} (h : c.turn called = .ran p) : c.held = some p := by
  unfold Cpu.turn at h
  unfold Cpu.held
  cases hpc : c.pc <;> cases hproc : c.proc <;> cases called <;> simp_all

def State.turn (T : Nat) (s : State cfg) (c : Fin cfg.numCpus) : Turn cfg.Pid :=
  (s.cpu c).turn (decide ((s.cpuClient c).Awaits T))

section
variable {s t : State cfg} {c : Fin cfg.numCpus}

theorem turn_congr (hcpu : t.cpu c = s.cpu c)
    (hawaits : (t.cpuClient c).Awaits T ↔ (s.cpuClient c).Awaits T) : t.turn T c = s.turn T c := by
  rw [State.turn, State.turn, hcpu, decide_eq_decide.mpr hawaits]

theorem turn_internal (hL : Timer.Lockstep T s.timer) (hb : b.Internal = true)
    (hn : Timer.next s.timer b = some (e, u)) (c : Fin cfg.numCpus) :
    State.turn T { s with timer := u } c = s.turn T c :=
  turn_congr rfl (Timer.awaits_internal hL (Timer.next_step hn)
    (Timer.internal_event hb hn (cpuSlot c)))

theorem turn_cpu (hL : Timer.Lockstep T s.timer) (hpc : (s.timer.client (cpuSlot c)).pc = .outside)
    (hop : cpuRoutine cfg.timeSlot s.finished (s.cpu c) ans s.done = some (op, x))
    (hp : s.perform mayMiss c op = some t) :
    (∀ d, d ≠ c → State.turn T { t with cpu := Function.update t.cpu c x } d = s.turn T d) ∧
      TurnStep op (s.turn T c) (State.turn T { t with cpu := Function.update t.cpu c x } c) := by
  obtain ⟨-, hother, hown⟩ := perform_client hp
  obtain ⟨hcpu, -, -⟩ := perform_frame hp
  refine ⟨fun d hd => ?_, ?_⟩
  · have hclient : t.cpuClient d = s.cpuClient d := hother _ (by simpa using hd)
    refine turn_congr (by simp [hd, hcpu]) (Iff.of_eq ?_)
    exact congrArg (Timer.Client.Awaits T) hclient
  · have hpc' : (s.cpuClient c).pc = .outside := hpc
    have hcalls : (s.cpuClient c).calls = T := ((hL.agrees _).outside hpc).2.2
    have hbefore : s.turn T c = (s.cpu c).turn false := by
      simp [State.turn, Timer.Client.Awaits, Timer.Client.Inside, hpc']
    have hover : (t.cpuClient c).Awaits T ↔ op = .nextSlot := by
      rw [hown]
      cases op <;> simp [Timer.Client.Awaits, Timer.Client.Inside, hpc', hcalls]
    have hafter : State.turn T { t with cpu := Function.update t.cpu c x } c =
        x.turn (decide (op = .nextSlot)) := by
      have hd : decide ((t.cpuClient c).Awaits T) = decide (op = .nextSlot) :=
        decide_eq_decide.mpr hover
      rw [← hd]
      exact congrArg (Cpu.turn _) (Function.update_self c x t.cpu)
    rw [hbefore, hafter]
    exact cpuRoutine_turn hop

theorem turn_ld (hp : s.performLd op = some t) (l : Ld cfg.numProcesses) (c : Fin cfg.numCpus) :
    State.turn T { t with ld := l } c = s.turn T c := by
  obtain ⟨-, hother, -⟩ := performLd_client hp
  obtain ⟨hcpu, -⟩ := performLd_frame hp
  have hclient : t.cpuClient c = s.cpuClient c := hother _ (cpuSlot_ne_ldSlot c)
  exact turn_congr (congrFun hcpu c) (Iff.of_eq (congrArg (Timer.Client.Awaits T) hclient))

theorem turn_tick (hr : Reachable (system mayMiss cfg) s) (hL : Timer.Lockstep T s.timer)
    (hn : Timer.next s.timer b = some (.tick, u)) (c : Fin cfg.numCpus) :
    s.turn T c = .idle ∨ ∃ p, s.turn T c = .ran p := by
  have hctl := (reachable_control hr).cpu c
  by_cases hatt : (s.cpuClient c).Undetached
  · have hawaits : (s.cpuClient c).Awaits T := hL.awaits_tick hn hatt
    cases hproc : (s.cpu c).proc <;> simp [State.turn, Cpu.turn, hctl.inside hawaits.1,
      hawaits, hproc]
  · have hpc := hctl.detached.mp (not_not.mp hatt)
    simp [State.turn, Cpu.turn, hpc]

theorem turn_ticked (hr : Reachable (system mayMiss cfg) s) (hL : Timer.Lockstep T s.timer)
    (hn : Timer.next s.timer b = some (.tick, u)) (c : Fin cfg.numCpus) :
    State.turn (T + 1) { s with timer := u } c = .fresh ∨
      State.turn (T + 1) { s with timer := u } c = .idle ∧ (s.cpu c).pc = .exited := by
  have hctl := (reachable_control hr).cpu c
  have hclient : u.client = s.timer.client := by
    cases Timer.next_step hn
    rfl
  have hnot : ¬ (State.cpuClient { s with timer := u } c).Awaits (T + 1) := by
    simp only [State.cpuClient, hclient]
    exact hL.not_awaits_succ _
  by_cases hatt : (s.cpuClient c).Undetached
  · have hawaits : (s.cpuClient c).Awaits T := hL.awaits_tick hn hatt
    left
    simp [State.turn, Cpu.turn, hctl.inside hawaits.1, hnot]
  · have hpc := hctl.detached.mp (not_not.mp hatt)
    exact .inr ⟨by simp [State.turn, Cpu.turn, hpc], hpc⟩

end

-- ---------------------------------------------------------------------------
-- The turn of the loader
-- ---------------------------------------------------------------------------

/-- 1 if the loader has added a process in this slot; `called` as for a CPU. -/
def Ld.justAdded (called : Bool) : Ld m → Nat
  | .slot _ => 1
  | .loop _ => if called then 1 else 0
  | _ => 0

def LdOp.Adds (before after : Nat) : LdOp m → Prop
  | .addProc _ => before = 0 ∧ after = 1
  | _ => after = before

theorem ldRoutine_justAdded {l l' : Ld m} (h : ldRoutine startTime now l = some (op, l')) :
    op.Adds (l.justAdded false) (l'.justAdded (decide (op = .nextSlot))) := by
  cases ldRoutine_step h with
  | addProc => exact ⟨rfl, rfl⟩
  | load | leaveLoop | early | due | waitSlot | slot | setDone | detachEvent => rfl

def State.justAdded (T : Nat) (s : State cfg) : Nat := s.ld.justAdded (decide (s.ldClient.Awaits T))

section
variable {s t : State cfg}

theorem justAdded_congr (hld : t.ld = s.ld) (hawaits : t.ldClient.Awaits T ↔ s.ldClient.Awaits T) :
    t.justAdded T = s.justAdded T := by
  rw [State.justAdded, State.justAdded, hld, decide_eq_decide.mpr hawaits]

theorem justAdded_cpu (hp : s.perform mayMiss c op = some t) (f : Fin cfg.numCpus → Cpu cfg.Pid) :
    State.justAdded T { t with cpu := f } = s.justAdded T := by
  obtain ⟨-, hother, -⟩ := perform_client hp
  obtain ⟨-, hld, -⟩ := perform_frame hp
  have hclient : t.ldClient = s.ldClient := hother _ (cpuSlot_ne_ldSlot c).symm
  exact justAdded_congr hld (Iff.of_eq (congrArg (Timer.Client.Awaits T) hclient))

theorem justAdded_ld (hL : Timer.Lockstep T s.timer) (hpc : (s.timer.client ldSlot).pc = .outside)
    (hop : ldRoutine startTime now s.ld = some (op, l)) (hp : s.performLd op = some t) :
    op.Adds (s.justAdded T) (State.justAdded T { t with ld := l }) := by
  obtain ⟨-, -, hown⟩ := performLd_client hp
  have hpc' : s.ldClient.pc = .outside := hpc
  have hcalls : s.ldClient.calls = T := ((hL.agrees _).outside hpc).2.2
  have hbefore : s.justAdded T = s.ld.justAdded false := by
    simp [State.justAdded, Timer.Client.Awaits, Timer.Client.Inside, hpc']
  have hover : t.ldClient.Awaits T ↔ op = .nextSlot := by
    rw [hown]
    cases op <;> simp [Timer.Client.Awaits, Timer.Client.Inside, hpc', hcalls]
  have hafter : State.justAdded T { t with ld := l } = l.justAdded (decide (op = .nextSlot)) := by
    have hd : decide (t.ldClient.Awaits T) = decide (op = .nextSlot) := decide_eq_decide.mpr hover
    rw [← hd]
    rfl
  rw [hbefore, hafter]
  exact ldRoutine_justAdded hop

theorem justAdded_ticked (hr : Reachable (system mayMiss cfg) s) (hL : Timer.Lockstep T s.timer)
    (hn : Timer.next s.timer b = some (.tick, u)) :
    State.justAdded (T + 1) { s with timer := u } = 0 := by
  have hctl := (reachable_control hr).ld
  have hclient : u.client = s.timer.client := by
    cases Timer.next_step hn
    rfl
  have hover : decide ((State.ldClient { s with timer := u }).Awaits (T + 1)) = false := by
    refine decide_eq_false ?_
    simp only [State.ldClient, hclient]
    exact hL.not_awaits_succ _
  rw [State.justAdded, hover]
  by_cases hatt : s.ldClient.Undetached
  · rcases hctl.inside (hL.awaits_tick hn hatt).1 with ⟨i, hi⟩ | ⟨i, hi⟩
    · simp [Ld.justAdded, hi]
    · simp [Ld.justAdded, hi]
  · simp [Ld.justAdded, hctl.detached.mp (not_not.mp hatt)]

theorem justAdded_done (h : Control s) (hd : s.done = true) : s.justAdded T = 0 := by
  rcases h.ld.done.mp hd with hl | hl <;> rw [State.justAdded, hl] <;> rfl

end

-- ---------------------------------------------------------------------------
-- What a step does to the slot
-- ---------------------------------------------------------------------------

def CpuOp.Requeues (mayMiss : Bool) (q q' : Multiset P) : CpuOp P → Prop
  | .getProc ans => q = ans.elim 0 ({·}) + q' ∧ (ans = none → q = 0 ∨ mayMiss = true)
  | .putProc p => q' = p ::ₘ q
  | _ => q' = q

theorem perform_requeues {s t : State cfg} (h : s.perform mayMiss c op = some t) :
    op.Requeues mayMiss s.queued t.queued := by
  cases op with
  | getProc ans =>
    obtain ⟨q, rfl, hq⟩ := getProc_some h
    exact hq
  | nextSlot =>
    obtain ⟨u, -, rfl⟩ := callNextSlot_some h
    rfl
  | detachEvent =>
    obtain ⟨u, -, rfl⟩ := detachEvent_some h
    rfl
  | _ =>
    cases h
    rfl

inductive SlotStep (mayMiss : Bool) (T : Nat) (s t : State cfg) : Label cfg → Prop
  | tick : (∀ c, s.turn T c = .idle ∨ ∃ p, s.turn T c = .ran p) →
      (∀ c, t.turn (T + 1) c = .fresh ∨ s.turn T c = .idle ∧ t.turn (T + 1) c = .idle ∧
        s.done = true) →
      t.justAdded (T + 1) = 0 → t.queued = s.queued → SlotStep mayMiss T s t (.timer .tick)
  | timer : e ≠ .tick → (∀ c, t.turn T c = s.turn T c) → t.justAdded T = s.justAdded T →
      t.queued = s.queued → SlotStep mayMiss T s t (.timer e)
  | cpu (c : Fin cfg.numCpus) : (∀ d, d ≠ c → t.turn T d = s.turn T d) →
      TurnStep op (s.turn T c) (t.turn T c) → t.justAdded T = s.justAdded T →
      op.Requeues mayMiss s.queued t.queued → SlotStep mayMiss T s t (s.label c op)
  | add : (∀ c, t.turn T c = s.turn T c) → s.justAdded T = 0 → t.justAdded T = 1 →
      t.queued = p ::ₘ s.queued → SlotStep mayMiss T s t (.ld (.addProc p) now)
  | ld : (∀ p, op ≠ .addProc p) → (∀ c, t.turn T c = s.turn T c) → t.justAdded T = s.justAdded T →
      t.queued = s.queued → SlotStep mayMiss T s t (.ld op now)

theorem slot_step {s t : State cfg} (hr : Reachable (system mayMiss cfg) s)
    (hL : Timer.Lockstep T s.timer) (hs : Step mayMiss s e t) : SlotStep mayMiss T s t e := by
  cases hs with
  | @timer b ev u hb hn =>
    by_cases hev : ev = .tick
    · subst hev
      refine .tick (turn_tick hr hL hn) (fun c => ?_) (justAdded_ticked hr hL hn) rfl
      refine (turn_ticked hr hL hn c).imp_right fun ⟨hidle, hpc⟩ => ?_
      exact ⟨by simp [State.turn, Cpu.turn, hpc], hidle,
        (((reachable_control hr).cpu c).left (.inr hpc)).1⟩
    · exact .timer hev (turn_internal hL hb hn) (justAdded_congr rfl (Timer.awaits_internal hL
        (Timer.next_step hn) (Timer.internal_event hb hn ldSlot))) rfl
  | cpu c hpc hop hp =>
    obtain ⟨hother, hturn⟩ := turn_cpu hL hpc hop hp
    have hq := perform_requeues hp
    exact .cpu c hother hturn (justAdded_cpu hp _) hq
  | @ld op l u hpc hop hp =>
    have hadded := justAdded_ld hL hpc hop hp
    obtain ⟨-, -, -, -, -, hq⟩ := performLd_frame hp
    cases op with
    | addProc p => exact .add (turn_ld hp l) hadded.1 hadded.2 hq
    | _ => exact .ld (fun p hp => nomatch hp) (turn_ld hp l) hadded hq

theorem slotStep_tick {s t : State cfg} (h : SlotStep mayMiss T s t (.timer .tick)) :
    (∀ c, s.turn T c = .idle ∨ ∃ p, s.turn T c = .ran p) ∧
    (∀ c, t.turn (T + 1) c = .fresh ∨ s.turn T c = .idle ∧ t.turn (T + 1) c = .idle ∧
      s.done = true) ∧
    t.justAdded (T + 1) = 0 ∧ t.queued = s.queued := by
  generalize hl : Label.timer .tick = l at h
  cases h with
  | tick hbefore hafter hadded hq => exact ⟨hbefore, hafter, hadded, hq⟩
  | timer hne =>
    cases hl
    exact absurd rfl hne
  | @cpu op c => cases op <;> cases hl
  | add | ld => cases hl

-- ---------------------------------------------------------------------------
-- The slot in the trace
-- ---------------------------------------------------------------------------

def Label.runs : Label cfg → Option (Fin cfg.numCpus × cfg.Pid)
  | .exec c p _ => some (c, p)
  | _ => none

def Label.adds : Label cfg → Option cfg.Pid
  | .ld (.addProc p) _ => some p
  | _ => none

def runs (tr : List (Label cfg)) : List (Fin cfg.numCpus × cfg.Pid) := tr.filterMap Label.runs

def adds (tr : List (Label cfg)) : List cfg.Pid := tr.filterMap Label.adds

def ticks (tr : List (Label cfg)) : Nat := Timer.ticks (tr.filterMap Label.timerEvent)

def thisSlot (tr : List (Label cfg)) : List (Label cfg) := tr.rtakeWhile (· ≠ .timer .tick)

theorem run_lockstep (h : Run (system mayMiss cfg) tr s) : Timer.Lockstep (ticks tr) s.timer :=
  Timer.run_lockstep ((simulates_timer mayMiss cfg).run h)

section
variable {tr : List (Label cfg)} {e : Label cfg}

@[simp] theorem thisSlot_tick (tr : List (Label cfg)) : thisSlot (tr ++ [.timer .tick]) = [] := by
  simp [thisSlot]

theorem thisSlot_append (he : e ≠ .timer .tick) : thisSlot (tr ++ [e]) = thisSlot tr ++ [e] := by
  simp [thisSlot, he]

@[simp] theorem ticks_tick (tr : List (Label cfg)) :
    ticks (tr ++ [.timer .tick]) = ticks tr + 1 := by
  simp [ticks, Label.timerEvent, Timer.ticks_append]

theorem ticks_append (he : e ≠ .timer .tick) : ticks (tr ++ [e]) = ticks tr := by
  have hev : e.timerEvent ≠ some .tick := by
    cases e with
    | timer e => simpa [Label.timerEvent] using he
    | cpu c op | ld op => cases op <;> simp [Label.timerEvent]
    | exec => simp [Label.timerEvent]
  rw [ticks, List.filterMap_append]
  cases h : e.timerEvent with
  | none => simp [h, ticks]
  | some ev =>
    have hne : ev ≠ .tick := by
      rintro rfl
      exact hev h
    simp [h, Timer.ticks, List.count_append, hne, ticks]

theorem runs_append (tr : List (Label cfg)) (e : Label cfg) :
    runs (tr ++ [e]) = runs tr ++ e.runs.toList := by
  simp only [runs, List.filterMap_append]
  cases h : e.runs <;> simp [h]

theorem adds_append (tr : List (Label cfg)) (e : Label cfg) :
    adds (tr ++ [e]) = adds tr ++ e.adds.toList := by
  simp only [adds, List.filterMap_append]
  cases h : e.adds <;> simp [h]

end

theorem perform_pcb {s t : State cfg} (h : s.perform mayMiss c op = some t) : t.pcb = match op with
    | .run p => Function.update s.pcb p (s.pcb p).advance
    | _ => s.pcb := by
  cases op with
  | getProc ans =>
    obtain ⟨_, rfl, -⟩ := getProc_some h
    rfl
  | nextSlot =>
    obtain ⟨_, -, rfl⟩ := callNextSlot_some h
    rfl
  | detachEvent =>
    obtain ⟨_, -, rfl⟩ := detachEvent_some h
    rfl
  | inspect p | free p | putProc p | readDone d | run p =>
    cases h
    rfl

theorem label_runs (s : State cfg) (c : Fin cfg.numCpus) (op : CpuOp cfg.Pid) :
    (s.label c op).runs = match op with
      | .run p => some (c, p)
      | _ => none := by
  cases op <;> rfl

theorem label_adds (s : State cfg) (c : Fin cfg.numCpus) (op : CpuOp cfg.Pid) :
    (s.label c op).adds = none := by
  cases op <;> rfl

theorem slotStep_runs {s t : State cfg} (hs : SlotStep mayMiss T s t e) (he : e ≠ .timer .tick) :
    (e.runs = none ∧ (∀ c p, t.turn T c = .ran p ↔ s.turn T c = .ran p) ∧
      t.justAdded T = s.justAdded T + e.adds.toList.length) ∨
    ∃ c p, e.runs = some (c, p) ∧ s.turn T c = .fresh ∧ t.turn T c = .ran p ∧
      (∀ d, d ≠ c → t.turn T d = s.turn T d) ∧ e.adds = none ∧ t.justAdded T = s.justAdded T := by
  cases hs with
  | tick => exact absurd rfl he
  | timer _ hturn hadded => exact .inl ⟨rfl, fun c p => by rw [hturn], hadded⟩
  | add hturn hbefore hafter => exact .inl ⟨rfl, fun c p => by rw [hturn],
      by simp [hbefore, hafter, Label.adds]⟩
  | @ld op now hop hturn hadded =>
    refine .inl ⟨rfl, fun c p => by rw [hturn], ?_⟩
    cases op with
    | addProc p => exact absurd rfl (hop p)
    | _ => simpa [Label.adds] using hadded
  | @cpu op c hother hturn hadded =>
    have hadds := label_adds s c op
    have hkeep (hruns : (s.label c op).runs = none)
      (hc : ∀ p, t.turn T c = .ran p ↔ s.turn T c = .ran p) :
        (s.label c op).runs = none ∧ (∀ c p, t.turn T c = .ran p ↔ s.turn T c = .ran p) ∧
          t.justAdded T = s.justAdded T + (s.label c op).adds.toList.length := by
      refine ⟨hruns, fun d p => ?_, by rw [hadds]; exact hadded⟩
      by_cases hd : d = c
      · subst hd
        exact hc p
      · rw [hother d hd]
    generalize hs : s.turn T c = before at hturn hkeep
    generalize ht : t.turn T c = after at hturn hkeep
    cases hturn with
    | @run p => exact .inr ⟨c, p, label_runs s c _, hs, ht, hother, hadds, hadded⟩
    | miss hbefore | take hbefore =>
        exact .inl (hkeep rfl fun p => by rcases hbefore with rfl | rfl <;> simp)
    | inspect | free | putProc | readDone | nextSlot | detachEvent =>
        exact .inl (hkeep rfl fun p => by simp)

-- ---------------------------------------------------------------------------
-- Once in a slot
-- ---------------------------------------------------------------------------

theorem holder_unique {s : State cfg} (h : Owned s) (hc : (s.cpu c).held = some p)
    (hd : (s.cpu d).held = some p) : c = d := by
  by_contra hne
  have hplace := h p
  have hpair : (s.cpu c).holds p + (s.cpu d).holds p ≤ s.holders p := by
    have hsub := Finset.sum_le_sum_of_subset (f := fun i => (s.cpu i).holds p)
      (Finset.subset_univ {c, d})
    rwa [Finset.sum_pair hne] at hsub
  rw [holds_of_held hc, holds_of_held hd, if_pos rfl] at hpair
  omega

structure InSlot (T : Nat) (slot : List (Label cfg)) (s : State cfg) : Prop where
  runs : ∀ c p, (c, p) ∈ runs slot ↔ s.turn T c = .ran p
  cpus : ((Os.runs slot).map Prod.fst).Nodup
  procs : ((Os.runs slot).map Prod.snd).Nodup
  adds : (adds slot).length = s.justAdded T

theorem InSlot.keep {s t : State cfg} (h : InSlot T slot s)
    (hturn : ∀ c p, t.turn T c = .ran p ↔ s.turn T c = .ran p)
    (hruns : e.runs = none) (hadds : t.justAdded T = s.justAdded T + e.adds.toList.length) :
    InSlot T (slot ++ [e]) t := by
  have hr : Os.runs (slot ++ [e]) = Os.runs slot := by simp [runs_append, hruns]
  refine ⟨fun c p => ?_, hr ▸ h.cpus, hr ▸ h.procs, ?_⟩
  · rw [hr, hturn]
    exact h.runs c p
  · rw [adds_append, List.length_append, h.adds, hadds]

theorem InSlot.run {s t : State cfg} (h : InSlot T slot s) (ho : Owned t)
    (hfresh : s.turn T c = .fresh) (hran : t.turn T c = .ran p)
    (hother : ∀ d, d ≠ c → t.turn T d = s.turn T d) (hadded : t.justAdded T = s.justAdded T)
    (hruns : e.runs = some (c, p)) (hadds : e.adds = none) :
    InSlot T (slot ++ [e]) t := by
  have hr : Os.runs (slot ++ [e]) = Os.runs slot ++ [(c, p)] := by simp [runs_append, hruns]
  refine ⟨fun d q => ?_, ?_, ?_, ?_⟩
  · rw [hr, List.mem_append, List.mem_singleton, h.runs, Prod.mk.injEq]
    by_cases hd : d = c
    · subst hd
      simp [hfresh, hran, eq_comm]
    · simp [hd, hother d hd]
  · rw [hr, List.map_append, List.nodup_append]
    refine ⟨h.cpus, List.nodup_singleton _, ?_⟩
    rintro d hd _ hc rfl
    obtain ⟨⟨d, q⟩, hq, rfl⟩ := List.mem_map.mp hd
    obtain rfl : d = c := by simpa using hc
    rw [h.runs, hfresh] at hq
    cases hq
  · rw [hr, List.map_append, List.nodup_append]
    refine ⟨h.procs, List.nodup_singleton _, ?_⟩
    rintro q hq _ hp rfl
    obtain ⟨⟨d, q⟩, hmem, rfl⟩ := List.mem_map.mp hq
    obtain rfl : q = p := by simpa using hp
    have hq := (h.runs d q).mp hmem
    have hd : d ≠ c := by
      rintro rfl
      rw [hfresh] at hq
      cases hq
    rw [← hother d hd] at hq
    exact hd (holder_unique ho (held_of_ran hq) (held_of_ran hran))
  · rw [adds_append, List.length_append, h.adds, hadded, hadds]
    rfl

theorem inSlot_step {s t : State cfg} (h : InSlot T slot s) (ho : Owned t) (he : e ≠ .timer .tick)
    (hs : SlotStep mayMiss T s t e) : InSlot T (slot ++ [e]) t := by
  rcases slotStep_runs hs he with ⟨hruns, hturn, hadded⟩ |
    ⟨c, p, hruns, hfresh, hran, hother, hadds, hadded⟩
  · exact h.keep hturn hruns hadded
  · exact h.run ho hfresh hran hother hadded hruns hadds

theorem run_inSlot (h : Run (system mayMiss cfg) tr s) : InSlot (ticks tr) (thisSlot tr) s := by
  refine h.invariant (P := fun tr s => InSlot (ticks tr) (thisSlot tr) s) ?_ ?_
  · rintro _ rfl
    refine ⟨fun c p => ?_, List.nodup_nil, List.nodup_nil, rfl⟩
    simp [runs, thisSlot, State.turn, State.start, Cpu.start, Cpu.turn, State.cpuClient,
      Timer.startTimer, Timer.Client.Awaits, Timer.Client.Inside]
  · rintro tr s e t hr ih ⟨a, ha⟩
    have hs := slot_step hr.reachable (run_lockstep hr) (next_step ha)
    by_cases he : e = .timer .tick
    · subst he
      simp only [ticks_tick, thisSlot_tick]
      obtain ⟨-, hturn, hadded, -⟩ := slotStep_tick hs
      refine ⟨fun c p => ?_, List.nodup_nil, List.nodup_nil, hadded.symm⟩
      rcases hturn c with hc | ⟨-, hc, -⟩ <;> simp [runs, hc]
    · rw [ticks_append he, thisSlot_append he]
      exact inSlot_step ih (reachable_owned (hr.reachable.step ⟨a, ha⟩)) he hs

/-- In a slot no CPU and no process has more than one run. -/
theorem run_once_per_slot (h : Run (system mayMiss cfg) tr s) :
    ((runs (thisSlot tr)).map Prod.fst).Nodup ∧ ((runs (thisSlot tr)).map Prod.snd).Nodup :=
  ⟨(run_inSlot h).cpus, (run_inSlot h).procs⟩

/-- In the second slot the processes have changed their CPUs. -/
theorem run_once_per_slot_twoProcesses :
    let cfg := twoProcesses ⟨.alloc, 16, 3, 0, 0⟩ ⟨.read, 3, 0, 0, 0⟩ ⟨.calc, 0, 0, 0, 0⟩
    ∃ tr s, exec (next false) twoSlots (.start cfg) = some (tr, s) ∧
      runs (thisSlot tr) = [(0, 1), (1, 0)] ∧ ((runs (thisSlot tr)).map Prod.fst).Nodup ∧
        ((runs (thisSlot tr)).map Prod.snd).Nodup := by
  intro cfg
  obtain ⟨tr, s, hexec, hruns⟩ : ∃ tr s, exec (next false) twoSlots (.start cfg) = some (tr, s) ∧
      runs (thisSlot tr) = [(0, 1), (1, 0)] := ⟨_, _, rfl, rfl⟩
  have hr : Run (system false cfg) tr s := run_exec hexec
  obtain ⟨hcpus, hprocs⟩ := run_once_per_slot hr
  exact ⟨tr, s, hexec, hruns, hcpus, hprocs⟩

-- ---------------------------------------------------------------------------
-- No CPU is idle while a process waits
-- ---------------------------------------------------------------------------

def Turn.asks : Turn P → Nat
  | .asking => 1
  | _ => 0

def State.asking (T : Nat) (s : State cfg) : Nat := ∑ c, (s.turn T c).asks

/-- Whoever is without a process has asked when there was none. What is queued since is
asked for again, but for the process the loader has added. -/
def Covered (T : Nat) (s : State cfg) : Prop :=
  (∃ c, s.turn T c = .idle) → s.queued.card ≤ s.asking T + s.justAdded T

section
variable {s t : State cfg}

theorem asking_congr (h : ∀ c, t.turn T c = s.turn T c) : t.asking T = s.asking T :=
  Finset.sum_congr rfl fun c _ => by rw [h c]

theorem asking_cpu (h : ∀ d, d ≠ c → t.turn T d = s.turn T d) :
    t.asking T + (s.turn T c).asks = s.asking T + (t.turn T c).asks :=
  sum_change (f := fun c => (s.turn T c).asks) (g := fun c => (t.turn T c).asks) c fun d hd =>
    congrArg Turn.asks (h d hd)

theorem Covered.keep (h : Covered T s) (hturn : ∀ c, t.turn T c = s.turn T c)
    (hadded : t.justAdded T = s.justAdded T) (hq : t.queued = s.queued) : Covered T t := by
  rintro ⟨c, hc⟩
  rw [hturn] at hc
  rw [asking_congr hturn, hadded, hq]
  exact h ⟨c, hc⟩

theorem Covered.cpu (h : Covered T s) (hother : ∀ d, d ≠ c → t.turn T d = s.turn T d)
    (hidle : t.turn T c = .idle → s.turn T c = .idle) (hadded : t.justAdded T = s.justAdded T)
    (hq : t.queued.card + (s.turn T c).asks ≤ s.queued.card + (t.turn T c).asks) : Covered T t := by
  rintro ⟨d, hd⟩
  have hs : ∃ d, s.turn T d = .idle := by
    by_cases hdc : d = c
    · subst hdc
      exact ⟨d, hidle hd⟩
    · exact ⟨d, by rw [← hother d hdc]; exact hd⟩
  have hcard := h hs
  have hsum := asking_cpu hother
  omega

theorem covered_cpu (h : Covered T s) (hother : ∀ d, d ≠ c → t.turn T d = s.turn T d)
    (hturn : TurnStep op (s.turn T c) (t.turn T c)) (hadded : t.justAdded T = s.justAdded T)
    (hq : op.Requeues false s.queued t.queued) : Covered T t := by
  have hcpu := h.cpu hother
  generalize hs : s.turn T c = before at hturn hcpu
  generalize ht : t.turn T c = after at hturn hcpu
  cases hturn with
  | miss =>
    obtain ⟨hq, hempty⟩ := hq
    have hzero : s.queued = 0 := by simpa using hempty rfl
    have hzero' : t.queued = 0 := by simpa [hzero] using hq.symm
    rintro -
    simp [hzero']
  | take hbefore =>
    have hcard : s.queued.card = t.queued.card + 1 := by simp [hq.1]
    refine hcpu (fun h => nomatch h) hadded ?_
    rcases hbefore with rfl | rfl <;> simp only [Turn.asks] <;> omega
  | putProc =>
    have hcard : t.queued.card = s.queued.card + 1 := by
      rw [show t.queued = _ from hq, Multiset.card_cons]
    refine hcpu (fun h => nomatch h) hadded ?_
    simp only [Turn.asks]
    omega
  | inspect | free | run =>
    have hsame : t.queued = s.queued := hq
    exact hcpu (fun h => nomatch h) hadded (by simp [hsame, Turn.asks])
  | readDone | nextSlot | detachEvent =>
    have hsame : t.queued = s.queued := hq
    exact hcpu id hadded (by rw [hsame])

theorem asking_tick (h : ∀ c, s.turn T c = .idle ∨ ∃ p, s.turn T c = .ran p) : s.asking T = 0 :=
  Finset.sum_eq_zero fun c _ => by rcases h c with hc | ⟨p, hc⟩ <;> rw [hc] <;> rfl

theorem covered_step (h : Covered T s) (he : e ≠ .timer .tick)
    (hs : SlotStep false T s t e) : Covered T t := by
  cases hs with
  | tick => exact absurd rfl he
  | timer _ hturn hadded hq => exact h.keep hturn hadded hq
  | ld _ hturn hadded hq => exact h.keep hturn hadded hq
  | cpu c hother hturn hadded hq => exact covered_cpu h hother hturn hadded hq
  | add hturn hbefore hafter hq =>
    rintro ⟨c, hc⟩
    rw [hturn] at hc
    have hcard := h ⟨c, hc⟩
    rw [asking_congr hturn, hafter, hq, Multiset.card_cons]
    omega

theorem covered_tick (hctl : Control s) (h : Covered T s)
    (hs : SlotStep false T s t (.timer .tick)) :
    Covered (T + 1) t := by
  obtain ⟨hbefore, hafter, -, hq⟩ := slotStep_tick hs
  rintro ⟨c, hc⟩
  obtain hfresh | ⟨hidle, -, hdone⟩ := hafter c
  · rw [hc] at hfresh
    cases hfresh
  · have hcard := h ⟨c, hidle⟩
    rw [asking_tick hbefore, justAdded_done hctl hdone] at hcard
    rw [hq]
    omega

theorem run_covered (h : Run (system false cfg) tr s) : Covered (ticks tr) s := by
  refine h.invariant (P := fun tr s => Covered (ticks tr) s) ?_ ?_
  · rintro _ rfl -
    exact Nat.zero_le _
  · rintro tr s e t hr ih ⟨a, ha⟩
    have hs := slot_step hr.reachable (run_lockstep hr) (next_step ha)
    by_cases he : e = .timer .tick
    · subst he
      rw [ticks_tick]
      exact covered_tick (reachable_control hr.reachable) ih hs
    · rw [ticks_append he]
      exact covered_step ih he hs

theorem justAdded_le (T : Nat) (s : State cfg) : s.justAdded T ≤ 1 := by
  unfold State.justAdded Ld.justAdded
  split
  · exact Nat.le_refl _
  · split <;> decide
  · exact Nat.zero_le _

end

/-- A CPU that lets a slot pass without a run leaves nothing in the queue but the process
that the loader has added in this slot. -/
theorem work_conserving (h : Run (system false cfg) tr s)
    (ht : next false s a = some (.timer .tick, t)) (hc : c ∉ (runs (thisSlot tr)).map Prod.fst) :
    s.queued.card ≤ (adds (thisSlot tr)).length ∧ (adds (thisSlot tr)).length ≤ 1 := by
  have hslot := run_inSlot h
  obtain ⟨hturn, -⟩ := slotStep_tick (slot_step h.reachable (run_lockstep h) (next_step ht))
  have hidle : s.turn (ticks tr) c = .idle := by
    refine (hturn c).resolve_right ?_
    rintro ⟨p, hp⟩
    exact hc (List.mem_map_of_mem (f := Prod.fst) ((hslot.runs c p).mpr hp))
  have hcard := run_covered h ⟨c, hidle⟩
  rw [asking_tick hturn, Nat.zero_add] at hcard
  rw [hslot.adds]
  exact ⟨hcard, justAdded_le _ _⟩

/-- Two CPUs and one process: the first tick comes when CPU 1 has run nothing. -/
def idleSlot : List (Act (oneProcess 2)) :=
  [.ld, .ld, .ld, .ld, .cpu ⟨0, Nat.two_pos⟩ (some ⟨0, Nat.one_pos⟩), .cpu ⟨0, Nat.two_pos⟩ none,
    .cpu ⟨0, Nat.two_pos⟩ none, .cpu ⟨1, Nat.one_lt_two⟩ none, .cpu ⟨1, Nat.one_lt_two⟩ none]
    ++ (List.finRange 3).map (fun i => .timer (.client i)) ++ List.replicate 4 (.timer .timer)

theorem work_conserving_oneProcess :
    ∃ tr s t, exec (next false) idleSlot (.start (oneProcess 2)) = some (tr, s) ∧
      next false s (.timer .timer) = some (.timer .tick, t) ∧ s.queued.card ≤ 1 := by
  obtain ⟨tr, s, t, hexec, htick, hidle⟩ : ∃ tr s t,
      exec (next false) idleSlot (.start (oneProcess 2)) = some (tr, s) ∧
      next false s (.timer .timer) = some (.timer .tick, t) ∧
        (1 : Fin 2) ∉ (runs (thisSlot tr)).map Prod.fst :=
    ⟨_, _, _, rfl, rfl, by decide⟩
  have hr : Run (system false (oneProcess 2)) tr s := run_exec hexec
  obtain ⟨hle, hadds⟩ := work_conserving hr htick hidle
  exact ⟨tr, s, t, hexec, htick, Nat.le_trans hle hadds⟩

end AssignmentOS.Os
