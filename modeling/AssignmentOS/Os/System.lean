import Mathlib.Data.Multiset.Basic
import AssignmentOS.Timer.Lockstep
import AssignmentOS.Os.Threads

/-!
# CPUs, loader and timer together

The threads of `main` over the slot timer. Each operation of a thread is one
step; `next_slot` is entered by one step and then taken through the timer's own
steps, so `current_time`, `done` and `get_proc` are read separately.

The queues behind `get_proc`, `put_proc` and `add_proc` are one bag. `mayMiss`
lets `get_proc` return `NULL` although a process is queued.
-/

namespace AssignmentOS.Os

open Transition

/-- A line of the configuration file, with the code that `load` reads for it. -/
structure ProcDesc where
  startTime : UInt64
  code : CodeSeg

structure Config where
  timeSlot : Int
  numCpus : Nat
  procs : List ProcDesc

abbrev Config.numProcesses (cfg : Config) : Nat := cfg.procs.length

abbrev Config.Pid (cfg : Config) : Type := Fin cfg.numProcesses

abbrev Config.Slot (cfg : Config) : Type := Fin (cfg.numCpus + 1)

def Config.desc (cfg : Config) (p : cfg.Pid) : ProcDesc := cfg.procs.get p

/-- `freed p` counts the calls of `free` on process `p`. -/
structure State (cfg : Config) where
  timer : Timer.State (cfg.numCpus + 1)
  queued : Multiset cfg.Pid
  pcb : cfg.Pid → Pcb
  freed : cfg.Pid → Nat
  done : Bool
  cpu : Fin cfg.numCpus → Cpu cfg.Pid
  ld : Ld cfg.numProcesses

/-- What a step does; `now` is the time at an operation of the loader. -/
inductive Label (cfg : Config)
  | timer (e : Timer.Event (cfg.numCpus + 1))
  | cpu (c : Fin cfg.numCpus) (op : CpuOp cfg.Pid)
  | exec (c : Fin cfg.numCpus) (p : cfg.Pid) (ins : Option Inst)
  | ld (op : LdOp cfg.numProcesses) (now : UInt64)
  deriving DecidableEq

/-- `ans` is what `get_proc` returns if the CPU calls it. -/
inductive Act (cfg : Config)
  | timer (a : Timer.Act (cfg.numCpus + 1))
  | cpu (c : Fin cfg.numCpus) (ans : Option cfg.Pid)
  | ld

variable {cfg : Config}

/-- `main` attaches the records of CPU 0, CPU 1, and so on, then the loader's,
each at the head of `dev_list`. -/
def ldSlot : cfg.Slot := 0

def cpuSlot (c : Fin cfg.numCpus) : cfg.Slot := c.rev.succ

@[simp] theorem cpuSlot_ne_ldSlot (c : Fin cfg.numCpus) : cpuSlot c ≠ ldSlot :=
  Fin.succ_ne_zero _

@[simp] theorem cpuSlot_inj {c d : Fin cfg.numCpus} : cpuSlot c = cpuSlot d ↔ c = d := by
  simp [cpuSlot]

def State.start (cfg : Config) : State cfg where
  timer := Timer.startTimer _
  queued := 0
  pcb p := ⟨(cfg.desc p).code, 0⟩
  freed _ := 0
  done := false
  cpu _ := .start
  ld := .loop 0

def State.finished (s : State cfg) (p : cfg.Pid) : Bool := (s.pcb p).pc == (s.pcb p).code.size

-- ---------------------------------------------------------------------------
-- Operations on the shared state
-- ---------------------------------------------------------------------------

def State.callNextSlot (s : State cfg) (i : cfg.Slot) : Option (State cfg) :=
  (Timer.callNextSlot s.timer i).map fun r => { s with timer := r.2 }

def State.detachEvent (s : State cfg) (i : cfg.Slot) : Option (State cfg) :=
  (Timer.detachEvent s.timer i).map fun r => { s with timer := r.2 }

/-- `get_proc`: takes some queued process out of the bag. -/
def State.getProc (mayMiss : Bool) (s : State cfg) : Option cfg.Pid → Option (State cfg)
  | none => if s.queued = 0 ∨ mayMiss then some s else none
  | some p => if p ∈ s.queued then some { s with queued := s.queued.erase p } else none

def State.put (s : State cfg) (p : cfg.Pid) : State cfg := { s with queued := p ::ₘ s.queued }

def State.perform (mayMiss : Bool) (s : State cfg) (c : Fin cfg.numCpus) :
    CpuOp cfg.Pid → Option (State cfg)
  | .getProc ans => s.getProc mayMiss ans
  | .inspect _ | .readDone _ => some s
  | .free p => some { s with freed := Function.update s.freed p (s.freed p + 1) }
  | .putProc p => some (s.put p)
  | .run p => some { s with pcb := Function.update s.pcb p (s.pcb p).advance }
  | .nextSlot => s.callNextSlot (cpuSlot c)
  | .detachEvent => s.detachEvent (cpuSlot c)

def State.performLd (s : State cfg) : LdOp cfg.numProcesses → Option (State cfg)
  | .load _ | .leaveLoop | .readTime => some s
  | .addProc p => some (s.put p)
  | .setDone => some { s with done := true }
  | .nextSlot => s.callNextSlot ldSlot
  | .detachEvent => s.detachEvent ldSlot

/-- The label of a CPU's operation; `run` shows the instruction it executes. -/
def State.label (s : State cfg) (c : Fin cfg.numCpus) : CpuOp cfg.Pid → Label cfg
  | .run p => .exec c p ((s.pcb p).fetch.map Prod.fst)
  | op => .cpu c op

-- ---------------------------------------------------------------------------
-- The system
-- ---------------------------------------------------------------------------

def next (mayMiss : Bool) (s : State cfg) : Act cfg → Option (Label cfg × State cfg)
  | .timer a =>
    if a.Internal then (Timer.next s.timer a).map fun r => (.timer r.1, { s with timer := r.2 })
    else none
  | .cpu c ans =>
    if (s.timer.client (cpuSlot c)).pc = .outside then do
      let (op, cpu) ← cpuRoutine cfg.timeSlot s.finished (s.cpu c) ans s.done
      let t ← s.perform mayMiss c op
      return (s.label c op, { t with cpu := Function.update t.cpu c cpu })
    else none
  | .ld =>
    if (s.timer.client ldSlot).pc = .outside then do
      let (op, ld) ← ldRoutine (fun p => (cfg.desc p).startTime) s.timer.currentTime s.ld
      let t ← s.performLd op
      return (.ld op s.timer.currentTime, { t with ld := ld })
    else none

def system (mayMiss : Bool) (cfg : Config) : System (State cfg) (Label cfg) :=
  .ofNext (.start cfg) (next mayMiss)

/-- What one step can do: a step of the timer, an operation of a CPU outside
`next_slot`, or one of the loader. -/
inductive Step (mayMiss : Bool) (s : State cfg) : Label cfg → State cfg → Prop
  | timer : a.Internal = true → Timer.next s.timer a = some (e, t) →
      Step mayMiss s (.timer e) { s with timer := t }
  | cpu (c : Fin cfg.numCpus) : (s.timer.client (cpuSlot c)).pc = .outside →
      cpuRoutine cfg.timeSlot s.finished (s.cpu c) ans s.done = some (op, cpu) →
      s.perform mayMiss c op = some t →
      Step mayMiss s (s.label c op) { t with cpu := Function.update t.cpu c cpu }
  | ld : (s.timer.client ldSlot).pc = .outside →
      ldRoutine (fun p => (cfg.desc p).startTime) s.timer.currentTime s.ld = some (op, ld) →
      s.performLd op = some t → Step mayMiss s (.ld op s.timer.currentTime) { t with ld := ld }

theorem next_step (h : next mayMiss s a = some (e, t)) : Step mayMiss s e t := by
  cases a with
  | timer a =>
    simp only [next, Option.ite_none_right_eq_some, Option.map_eq_some_iff] at h
    obtain ⟨ha, ⟨e, u⟩, hn, h⟩ := h
    cases h
    exact .timer ha hn
  | cpu c ans =>
    simp only [next, Option.ite_none_right_eq_some, Option.bind_eq_bind,
      Option.bind_eq_some_iff, Prod.exists] at h
    obtain ⟨hout, op, cpu, hop, u, hu, h⟩ := h
    cases h
    exact .cpu c hout hop hu
  | ld =>
    simp only [next, Option.ite_none_right_eq_some, Option.bind_eq_bind,
      Option.bind_eq_some_iff, Prod.exists] at h
    obtain ⟨hout, op, ld, hop, u, hu, h⟩ := h
    cases h
    exact .ld hout hop hu

theorem next_timer {s t : State cfg} (h : next mayMiss s a = some (.timer e, t)) :
    ∃ b u, b.Internal = true ∧ Timer.next s.timer b = some (e, u) ∧ t = { s with timer := u } := by
  generalize hl : Label.timer e = l at h
  cases next_step h with
  | timer hb hn =>
    cases hl
    exact ⟨_, _, hb, hn, rfl⟩
  | @cpu _ op => cases op <;> cases hl
  | ld => cases hl

-- ---------------------------------------------------------------------------
-- What an operation leaves alone
-- ---------------------------------------------------------------------------

section
variable {mayMiss : Bool} {s t : State cfg} {c : Fin cfg.numCpus}

theorem callNextSlot_some (h : s.callNextSlot i = some t) :
    ∃ u, Timer.next s.timer (.call i) = some (.call i, u) ∧ t = { s with timer := u } := by
  simp only [State.callNextSlot, Option.map_eq_some_iff, Prod.exists] at h
  obtain ⟨e, u, hu, rfl⟩ := h
  refine ⟨u, ?_, rfl⟩
  unfold Timer.callNextSlot at hu
  split at hu
  · cases hu
    simp [Timer.next, Timer.callNextSlot, *]
  · cases hu

theorem detachEvent_some (h : s.detachEvent i = some t) :
    ∃ u, Timer.next s.timer (.detach i) = some (.detach i, u) ∧ t = { s with timer := u } := by
  simp only [State.detachEvent, Option.map_eq_some_iff, Prod.exists] at h
  obtain ⟨e, u, hu, rfl⟩ := h
  refine ⟨u, ?_, rfl⟩
  unfold Timer.detachEvent at hu
  split at hu
  · cases hu
    simp [Timer.next, Timer.detachEvent, *]
  · cases hu

theorem getProc_some (h : s.getProc mayMiss ans = some t) :
    ∃ q, t = { s with queued := q } ∧ s.queued = ans.elim 0 ({·}) + q ∧
      (ans = none → s.queued = 0 ∨ mayMiss = true) := by
  cases ans with
  | none =>
    simp only [State.getProc, Option.ite_none_right_eq_some] at h
    obtain ⟨hq, h⟩ := h
    cases h
    exact ⟨s.queued, rfl, by simp, fun _ => hq⟩
  | some p =>
    simp only [State.getProc, Option.ite_none_right_eq_some] at h
    obtain ⟨hp, h⟩ := h
    cases h
    refine ⟨_, rfl, ?_, fun h => nomatch h⟩
    simp [Multiset.singleton_add, Multiset.cons_erase hp]

theorem perform_frame (h : s.perform mayMiss c op = some t) :
    t.cpu = s.cpu ∧ t.ld = s.ld ∧ t.done = s.done := by
  cases op with
  | getProc ans =>
    obtain ⟨q, rfl, -⟩ := getProc_some h
    exact ⟨rfl, rfl, rfl⟩
  | nextSlot =>
    obtain ⟨u, -, rfl⟩ := callNextSlot_some h
    exact ⟨rfl, rfl, rfl⟩
  | detachEvent =>
    obtain ⟨u, -, rfl⟩ := detachEvent_some h
    exact ⟨rfl, rfl, rfl⟩
  | _ =>
    cases h
    exact ⟨rfl, rfl, rfl⟩

theorem perform_timer : s.perform mayMiss c op = some t →
    match op with
    | .nextSlot => Timer.next s.timer (.call (cpuSlot c)) = some (.call (cpuSlot c), t.timer)
    | .detachEvent => Timer.next s.timer (.detach (cpuSlot c)) = some (.detach (cpuSlot c), t.timer)
    | _ => t.timer = s.timer := by
  intro h
  cases op with
  | getProc ans =>
    obtain ⟨q, rfl, -⟩ := getProc_some h
    rfl
  | nextSlot =>
    obtain ⟨u, hu, rfl⟩ := callNextSlot_some h
    exact hu
  | detachEvent =>
    obtain ⟨u, hu, rfl⟩ := detachEvent_some h
    exact hu
  | _ =>
    cases h
    rfl

theorem performLd_frame : s.performLd op = some t →
    t.cpu = s.cpu ∧ t.ld = s.ld ∧ t.pcb = s.pcb ∧ t.freed = s.freed ∧
      t.done = (s.done || op == .setDone) ∧
      t.queued = match op with
        | .addProc p => p ::ₘ s.queued
        | _ => s.queued := by
  intro h
  cases op with
  | nextSlot =>
    obtain ⟨u, -, rfl⟩ := callNextSlot_some h
    simp
  | detachEvent =>
    obtain ⟨u, -, rfl⟩ := detachEvent_some h
    simp
  | _ =>
    cases h
    simp [State.put]

theorem performLd_timer : s.performLd op = some t →
    match op with
    | .nextSlot => Timer.next s.timer (.call ldSlot) = some (.call ldSlot, t.timer)
    | .detachEvent => Timer.next s.timer (.detach ldSlot) = some (.detach ldSlot, t.timer)
    | _ => t.timer = s.timer := by
  intro h
  cases op with
  | nextSlot =>
    obtain ⟨u, hu, rfl⟩ := callNextSlot_some h
    exact hu
  | detachEvent =>
    obtain ⟨u, hu, rfl⟩ := detachEvent_some h
    exact hu
  | _ =>
    cases h
    rfl

end

-- ---------------------------------------------------------------------------
-- The timer inside the system
-- ---------------------------------------------------------------------------

def Label.timerEvent : Label cfg → Option (Timer.Event (cfg.numCpus + 1))
  | .timer e => some e
  | .cpu c .nextSlot => some (.call (cpuSlot c))
  | .cpu c .detachEvent => some (.detach (cpuSlot c))
  | .ld .nextSlot _ => some (.call ldSlot)
  | .ld .detachEvent _ => some (.detach ldSlot)
  | _ => none

/-- The system runs the slot timer: every step of it is a step of the timer with
its clients or leaves the timer alone. -/
theorem simulates_timer (mayMiss : Bool) (cfg : Config) :
    Simulates (system mayMiss cfg) (Timer.system (cfg.numCpus + 1)) State.timer
      Label.timerEvent where
  init s h := by
    rw [show s = State.start cfg from h]
    rfl
  step s e t h := by
    obtain ⟨a, h⟩ := h
    cases next_step h with
    | timer _ hn => exact ⟨_, hn⟩
    | @cpu _ op _ _ c _ _ hp =>
      have ht := perform_timer hp
      cases op with
      | nextSlot => exact ⟨_, ht⟩
      | detachEvent => exact ⟨_, ht⟩
      | _ => exact ht
    | @ld op _ _ _ _ hp =>
      have ht := performLd_timer hp
      cases op with
      | nextSlot => exact ⟨_, ht⟩
      | detachEvent => exact ⟨_, ht⟩
      | _ => exact ht

theorem reachable_timer (h : Reachable (system mayMiss cfg) s) :
    ∃ T, Timer.Lockstep T s.timer :=
  Timer.reachable_lockstep ((simulates_timer mayMiss cfg).reachable h)

end AssignmentOS.Os
