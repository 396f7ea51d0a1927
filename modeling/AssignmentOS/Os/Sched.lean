import Mathlib.Data.List.Basic
import Mathlib.Logic.Function.Basic

/-!
# The scheduler's queues

`queue.c`, and `sched.c` with a queue for each priority. `enqueue` and `dequeue`
are still to be written. `queue_empty` answers -1 at the first priority queue
that holds a process, which C takes for true, and 0 for a process in one of the
other two queues: the answer depends on the queue (`queue_empty_iff`).
-/

namespace AssignmentOS.Os

def maxPrio : Nat := 140

variable {P : Type}

-- ---------------------------------------------------------------------------
-- queue.c
-- ---------------------------------------------------------------------------

/-- `size`, an `int` that counts the processes in the queue. -/
structure QueueT where
  size : Nat
  deriving DecidableEq, Repr

def empty : Option QueueT → Int
  | none => 1
  | some q => if q.size = 0 then 1 else 0

/-- `enqueue`; its body is to be written. -/
def enqueue (q : QueueT) (_proc : P) : QueueT := q

/-- `dequeue`; its body is to be written. -/
def dequeue (_q : QueueT) : Option P := none

-- ---------------------------------------------------------------------------
-- sched.c
-- ---------------------------------------------------------------------------

structure Sched where
  readyQueue : QueueT
  runQueue : QueueT
  mlqReadyQueue : Vector QueueT maxPrio
  deriving DecidableEq, Repr

/-- The loop of `queue_empty` over the queues that are left, if it returns. -/
def queueEmptyLoop : List QueueT → Option Int
  | [] => none
  | q :: rest => if empty (some q) = 0 then some (-1) else queueEmptyLoop rest

def queueEmpty (s : Sched) : Int :=
  match queueEmptyLoop s.mlqReadyQueue.toList with
  | some ret => ret
  | none => if empty (some s.readyQueue) ≠ 0 ∧ empty (some s.runQueue) ≠ 0 then 1 else 0

/-- `get_mlq_proc` returns the `NULL` that `proc` starts with; the rest is to be written. -/
def getMlqProc : Option P := none

def getProc : Option P := getMlqProc

def initScheduler : Sched := ⟨⟨0⟩, ⟨0⟩, Vector.replicate maxPrio ⟨0⟩⟩

section
variable (prio : P → UInt32)

/-- `enqueue(&mlq_ready_queue[proc->prio], proc)`; undefined where the array has no such queue. -/
def enqueueMlq (s : Sched) (proc : P) : Option Sched :=
  if h : (prio proc).toNat < maxPrio then
    some { s with mlqReadyQueue :=
      s.mlqReadyQueue.set (prio proc).toNat (enqueue s.mlqReadyQueue[(prio proc).toNat] proc) }
  else none

def putMlqProc (s : Sched) (proc : P) : Option Sched := enqueueMlq prio s proc

def addMlqProc (s : Sched) (proc : P) : Option Sched := enqueueMlq prio s proc

def putProc (s : Sched) (proc : P) : Option Sched := putMlqProc prio s proc

def addProc (s : Sched) (proc : P) : Option Sched := addMlqProc prio s proc

end

-- ---------------------------------------------------------------------------
-- One size for each queue
-- ---------------------------------------------------------------------------

inductive QueueName
  | mlq (prio : Fin maxPrio)
  | ready
  | run
  deriving DecidableEq

def Sched.size (s : Sched) : QueueName → Nat
  | .mlq prio => s.mlqReadyQueue[prio].size
  | .ready => s.readyQueue.size
  | .run => s.runQueue.size

def Sched.ofSizes (f : QueueName → Nat) : Sched :=
  ⟨⟨f .ready⟩, ⟨f .run⟩, Vector.ofFn fun prio => ⟨f (.mlq prio)⟩⟩

@[simp] theorem size_ofSizes (f : QueueName → Nat) : (Sched.ofSizes f).size = f := by
  funext q
  cases q <;> simp [Sched.ofSizes, Sched.size]

def Sched.AllEmpty (s : Sched) : Prop := ∀ q, s.size q = 0

def Moved (s t : Sched) : Prop :=
  ∃ q r, q ≠ r ∧ 0 < s.size q ∧
    t.size = Function.update (Function.update s.size q (s.size q - 1)) r (s.size r + 1)

/-- With `enqueue` as it is, a defined call leaves the queues as they are. -/
theorem enqueueMlq_eq_some (prio : P → UInt32) :
    enqueueMlq prio s proc = some t ↔ (prio proc).toNat < maxPrio ∧ t = s := by
  unfold enqueueMlq
  split
  · rename_i hlt
    simp only [enqueue, Vector.set_getElem_self, Option.some.injEq, hlt, true_and]
    exact eq_comm
  · rename_i hge
    simp [hge]

-- ---------------------------------------------------------------------------
-- The answer of `queue_empty`
-- ---------------------------------------------------------------------------

@[simp] theorem empty_eq_zero (q : QueueT) : empty (some q) = 0 ↔ q.size ≠ 0 := by
  simp [empty]

theorem queueEmptyLoop_eq_none (qs : List QueueT) :
    queueEmptyLoop qs = none ↔ ∀ q ∈ qs, q.size = 0 := by
  induction qs with
  | nil => simp [queueEmptyLoop]
  | cons q rest ih =>
    simp only [queueEmptyLoop, empty_eq_zero, List.forall_mem_cons]
    split
    · rename_i hne
      simp [hne]
    · rename_i hz
      rw [ih, and_iff_right (not_not.mp hz)]

theorem queueEmptyLoop_eq_some (h : queueEmptyLoop qs = some ret) : ret = -1 := by
  induction qs with
  | nil => cases h
  | cons q rest ih =>
    rw [queueEmptyLoop] at h
    split at h
    · cases h
      rfl
    · exact ih h

theorem mlqEmpty_iff (s : Sched) :
    (∀ q ∈ s.mlqReadyQueue.toList, q.size = 0) ↔ ∀ prio, s.size (.mlq prio) = 0 := by
  simp only [Vector.mem_toList_iff, Vector.mem_iff_getElem, Sched.size]
  constructor
  · intro h prio
    exact h _ ⟨prio, prio.isLt, rfl⟩
  · rintro h q ⟨prio, hlt, rfl⟩
    exact h ⟨prio, hlt⟩

theorem queueEmpty_mlq {s : Sched} (h : ∀ prio, s.size (.mlq prio) = 0) :
    queueEmpty s ≠ 0 ↔ s.size .ready = 0 ∧ s.size .run = 0 := by
  rw [queueEmpty, (queueEmptyLoop_eq_none _).mpr ((mlqEmpty_iff s).mpr h)]
  simp only [ne_eq, empty_eq_zero, not_not, Sched.size]
  split <;> simp_all

theorem queueEmpty_not_mlq {s : Sched} (prio : Fin maxPrio) (h : s.size (.mlq prio) ≠ 0) :
    queueEmpty s = -1 := by
  rw [queueEmpty]
  cases hloop : queueEmptyLoop s.mlqReadyQueue.toList with
  | none => exact absurd ((mlqEmpty_iff s).mp ((queueEmptyLoop_eq_none _).mp hloop) prio) h
  | some ret => exact queueEmptyLoop_eq_some hloop

theorem allEmpty_iff (s : Sched) :
    s.AllEmpty ↔ (∀ prio, s.size (.mlq prio) = 0) ∧ s.size .ready = 0 ∧ s.size .run = 0 := by
  constructor
  · intro h
    exact ⟨fun prio => h _, h _, h _⟩
  · rintro ⟨hmlq, hready, hrun⟩ q
    cases q with
    | mlq prio => exact hmlq prio
    | ready => exact hready
    | run => exact hrun

/-- The answer is right as long as no priority queue holds a process. -/
theorem queueEmpty_right_iff (s : Sched) :
    (queueEmpty s ≠ 0 ↔ s.AllEmpty) ↔ ∀ prio, s.size (.mlq prio) = 0 := by
  constructor
  · intro h prio
    by_contra hne
    have hall : s.AllEmpty := by
      rw [← h, queueEmpty_not_mlq prio hne]
      decide
    exact hne (hall _)
  · intro h
    rw [queueEmpty_mlq h, allEmpty_iff, and_iff_right h]

theorem initScheduler_allEmpty : initScheduler.AllEmpty := by
  intro q
  cases q with
  | mlq prio => simp [Sched.size, initScheduler]
  | ready | run => rfl

theorem enqueues_eq (prio : P → UInt32) (procs : List P)
    (h : procs.foldlM (enqueueMlq prio) s = some t) :
    t = s := by
  induction procs with
  | nil =>
    cases h
    rfl
  | cons proc procs ih =>
    rw [List.foldlM_cons] at h
    obtain ⟨u, hu, hrest⟩ := Option.bind_eq_some_iff.mp h
    obtain ⟨-, rfl⟩ := (enqueueMlq_eq_some prio).mp hu
    exact ih hrest

/-- As long as `enqueue` does nothing, the answer is right after any calls of `add_proc` and
`put_proc`. -/
theorem queueEmpty_of_calls (prio : P → UInt32) (procs : List P)
    (h : procs.foldlM (enqueueMlq prio) initScheduler = some s) : queueEmpty s ≠ 0 ∧
      s.AllEmpty := by
  obtain rfl := enqueues_eq prio procs h
  have hright := (queueEmpty_right_iff initScheduler).mpr fun _ => initScheduler_allEmpty _
  exact ⟨hright.mpr initScheduler_allEmpty, initScheduler_allEmpty⟩

/-- With a process in one of the other queues, the answer changes when it moves to a priority
queue. -/
theorem queueEmpty_moved {s : Sched} (h : ∀ prio, s.size (.mlq prio) = 0) (hq : s.size q ≠ 0) :
    ∃ t, Moved s t ∧ queueEmpty t ≠ 0 ∧ queueEmpty s = 0 := by
  have hprio : 0 < maxPrio := by decide
  have hne : q ≠ .mlq ⟨0, hprio⟩ := by
    rintro rfl
    exact hq (h _)
  refine ⟨.ofSizes _, ⟨q, .mlq ⟨0, hprio⟩, hne, Nat.pos_of_ne_zero hq, size_ofSizes _⟩, ?_, ?_⟩
  · rw [queueEmpty_not_mlq ⟨0, hprio⟩]
    · decide
    · simp
  · by_contra hnz
    have hall := (allEmpty_iff s).mpr ⟨h, (queueEmpty_mlq h).mp hnz⟩
    exact hq (hall q)

theorem queue_empty_iff (s : Sched) :
    ((queueEmpty s ≠ 0 ↔ s.AllEmpty) ↔ ∀ prio, s.size (.mlq prio) = 0) ∧
    ((queueEmpty s ≠ 0 ↔ s.AllEmpty) ∧ (∀ t, Moved s t → (queueEmpty t ≠ 0 ↔ queueEmpty s ≠ 0)) ↔
      s.AllEmpty) := by
  refine ⟨queueEmpty_right_iff s, ?_, ?_⟩
  · rintro ⟨hright, hmoved⟩ q
    have hmlq := (queueEmpty_right_iff s).mp hright
    by_contra hq
    obtain ⟨t, ht, htrue, hfalse⟩ := queueEmpty_moved hmlq hq
    exact (hmoved t ht).mp htrue hfalse
  · intro hall
    refine ⟨(queueEmpty_right_iff s).mpr fun prio => hall _, ?_⟩
    rintro t ⟨q, r, -, hpos, -⟩
    exact absurd (hall q) (Nat.ne_of_gt hpos)

def Sched.oneIn (q : QueueName) : Sched := .ofSizes fun r => if r = q then 1 else 0

def QueueName.highest : QueueName := .mlq ⟨0, by decide⟩

/-- The queues count as empty with the process in a priority queue, and not with it in
`ready_queue`. -/
theorem queue_empty_iff_oneProcess :
    queueEmpty (.oneIn .highest) = -1 ∧ queueEmpty (.oneIn .ready) = 0 ∧
      Moved (.oneIn .ready) (.oneIn .highest) ∧
      ¬ (queueEmpty (.oneIn .highest) ≠ 0 ↔ (Sched.oneIn .highest).AllEmpty) := by
  have hmlq : queueEmpty (.oneIn .highest) = -1 :=
    queueEmpty_not_mlq ⟨0, by decide⟩ (by simp [Sched.oneIn, QueueName.highest])
  have hready : queueEmpty (.oneIn .ready) = 0 := by
    rw [← not_ne_iff, queueEmpty_mlq (by simp [Sched.oneIn])]
    simp [Sched.oneIn]
  refine ⟨hmlq, hready, ⟨.ready, .highest, by decide, by simp [Sched.oneIn], ?_⟩, ?_⟩
  · funext r
    cases r with
    | mlq prio => by_cases hp : prio = ⟨0, by decide⟩ <;> simp [Sched.oneIn, QueueName.highest, hp]
    | ready | run => simp [Sched.oneIn, QueueName.highest]
  · rw [hmlq]
    intro h
    have hall := h.mp (by decide) .highest
    simp [Sched.oneIn] at hall

end AssignmentOS.Os
