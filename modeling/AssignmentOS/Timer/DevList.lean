import AssignmentOS.Lib.Fallible
import AssignmentOS.Lib.Memory
import AssignmentOS.Timer.Model

/-!
# The list of devices in memory

`timer.c` with its pointers: the containers that `attach_event` links, `temp` in
`timer_routine` and the record that each client was given. Whatever the schedule, this
system and the one of records by position move in lockstep, so none of its threads
follows a pointer to nothing, and what `stop_timer` frees is what was attached
(`dev_list_lockstep`).
-/

namespace AssignmentOS.Timer.DevList

open Memory Fallible Transition

/-- `timer_id_container_t`. The record comes first, so a pointer to one is a pointer to both. -/
structure Container where
  id : TimerId
  next : Slot Ptr

abbrev ContainerHeap := Heap Container

/-- The allocator for containers; memory that is not written yet reads as two flags and a
pointer. -/
abbrev ContainerMalloc := Malloc Container (TimerId × Ptr)

inductive Fault
  -- a pointer to no container is followed
  | pointer
  deriving DecidableEq, Repr

def deref (h : ContainerHeap) (a : Addr) : Except Fault Container := need .pointer (h.cell a)

def store (h : ContainerHeap) (a : Addr) (f : Container → Container) : Except Fault ContainerHeap :=
  need .pointer (h.modify a f)

def storeId (h : ContainerHeap) (a : Addr) (f : TimerId → TimerId) : Except Fault ContainerHeap :=
  store h a fun c => { c with id := f c.id }

-- ---------------------------------------------------------------------------
-- Attaching and freeing
-- ---------------------------------------------------------------------------

/-- `attach_event`: the record, `dev_list` and the memory. -/
def attachEvent (M : ContainerMalloc) (timerStarted : Bool) (devList : Ptr) (h : ContainerHeap) :
    Except Fault (Ptr × Ptr × ContainerHeap) :=
  if timerStarted then .ok (none, devList, h)
  else do
    let (container, h) := h.malloc M fun v => ⟨v.1, .prior v.2⟩
    let h ← storeId h container fun id => { id with done := false }
    let h ← storeId h container fun id => { id with fsh := false }
    match devList with
    | none =>
      let h ← store h container fun c => { c with next := .written none }
      .ok (some container, some container, h)
    | some head =>
      let h ← store h container fun c => { c with next := .written (some head) }
      .ok (some container, some container, h)

/-- The records that `main` attaches, by their positions in `dev_list`: the last one is at its
head. -/
def attachAll (M : ContainerMalloc) : (n : Nat) → ContainerHeap →
    Except Fault ((Fin n → Addr) × Ptr × ContainerHeap)
  | 0, h => .ok (Fin.elim0, none, h)
  | n + 1, h => do
    let (id, devList, h) ← attachAll M n h
    let (event, devList, h) ← attachEvent M false devList h
    let a ← need .pointer event
    .ok (Fin.cons a id, devList, h)

/-- The loop of `stop_timer`, with at most `fuel` turns. -/
def freeAll : (fuel : Nat) → (devList : Ptr) → ContainerHeap → Except Fault ContainerHeap
  | _, none, h => .ok h
  | 0, some _, _ => .error .pointer
  | fuel + 1, some temp, h => do
    let c ← deref h temp
    freeAll fuel c.next.get (h.free temp)

-- ---------------------------------------------------------------------------
-- Threads
-- ---------------------------------------------------------------------------

inductive TempPc
  | loop
  | scan (temp : Ptr) (fsh event : Nat)
  | asleep (temp : Addr) (fsh event : Nat)
  | release (temp : Ptr) (fsh event : Nat)
  | exited
  deriving DecidableEq, Repr

/-- Client `i` has been given the record `id i`. -/
structure HeapState (n : Nat) where
  heap : ContainerHeap
  devList : Ptr
  id : Fin n → Addr
  time : UInt64
  timerStop : Bool
  timer : TempPc
  client : Fin n → Client

def startTimer (id : Fin n → Addr) (devList : Ptr) (h : ContainerHeap) : HeapState n where
  heap := h
  devList := devList
  id := id
  time := 0
  timerStop := false
  timer := .loop
  client _ := ⟨.outside, 0⟩

variable {n : Nat}

def signalEvent (a : Addr) : TempPc → TempPc
  | .asleep temp fsh event => if temp = a then .scan (some temp) fsh event
      else .asleep temp fsh event
  | pc => pc

def HeapState.signalTimer (s : HeapState n) (a : Addr) (i : Fin n) : Client :=
  if s.id i = a then (s.client i).signalTimer else s.client i

def timerRoutine (s : HeapState n) : Option (Except Fault (HeapState n)) :=
  match s.timer with
  | .loop => some (.ok { s with timer := if s.timerStop then .exited else .scan s.devList 0 0 })
  | .scan none fsh event => some (.ok
      { s with time := s.time + 1, timer := .release s.devList fsh event })
  | .scan (some temp) fsh event => some do
    let c ← deref s.heap temp
    if !c.id.done && !c.id.fsh then .ok { s with timer := .asleep temp fsh event }
    else .ok { s with timer := .scan c.next.get (if c.id.fsh then fsh + 1 else fsh) (event + 1) }
  | .asleep .. => none
  | .release none fsh event => some (.ok { s with timer := if fsh = event then .exited else .loop })
  | .release (some temp) fsh event => some do
    let heap ← storeId s.heap temp fun id => { id with done := false }
    let c ← deref heap temp
    .ok { s with
      heap := heap, client := s.signalTimer temp, timer := .release c.next.get fsh event }
  | .exited => none

def nextSlot (s : HeapState n) (i : Fin n) : Option (Except Fault (HeapState n)) :=
  match (s.client i).pc with
  | .entered => some do
    let heap ← storeId s.heap (s.id i) fun id => { id with done := true }
    .ok
      { s with
        heap := heap
        client := Function.update s.client i { s.client i with pc := .checking }
        timer := signalEvent (s.id i) s.timer }
  | .checking => some do
    let c ← deref s.heap (s.id i)
    if c.id.done then
      .ok { s with client := Function.update s.client i { s.client i with pc := .waiting } }
    else .ok { s with client := Function.update s.client i ⟨.outside, (s.client i).calls + 1⟩ }
  | _ => none

def callNextSlot (s : HeapState n) (i : Fin n) : Option (Except Fault (HeapState n)) :=
  if (s.client i).pc = .outside then
    some (.ok { s with client := Function.update s.client i { s.client i with pc := .entered } })
  else none

def detachEvent (s : HeapState n) (i : Fin n) : Option (Except Fault (HeapState n)) :=
  if (s.client i).pc = .outside then
    some do
      let heap ← storeId s.heap (s.id i) fun id => { id with fsh := true }
      .ok
        { s with
          heap := heap
          client := Function.update s.client i { s.client i with pc := .detached }
          timer := signalEvent (s.id i) s.timer }
  else none

/-- `stop_timer` up to `pthread_join`. -/
def stopTimer (s : HeapState n) : Option (Except Fault (HeapState n)) :=
  if ∀ i, (s.client i).pc = .detached then some (.ok { s with timerStop := true }) else none

def wakeTimer (s : HeapState n) : Option (Except Fault (HeapState n)) :=
  match s.timer with
  | .asleep temp fsh event => some (.ok { s with timer := .scan (some temp) fsh event })
  | _ => none

def wakeClient (s : HeapState n) (i : Fin n) : Option (Except Fault (HeapState n)) :=
  if (s.client i).pc = .waiting then
    some (.ok { s with client := Function.update s.client i { s.client i with pc := .checking } })
  else none

def move (s : HeapState n) : Act n → Option (Except Fault (HeapState n))
  | .timer => timerRoutine s
  | .client i => nextSlot s i
  | .call i => callNextSlot s i
  | .detach i => detachEvent s i
  | .stop => stopTimer s
  | .wakeTimer => wakeTimer s
  | .wakeClient i => wakeClient s i

/-- After a fault nothing is said any more. -/
def next : Except Fault (HeapState n) → Act n → Option (Act n × Except Fault (HeapState n))
  | .error _, _ => none
  | .ok s, a => (move s a).map (a, ·)

-- ---------------------------------------------------------------------------
-- The layout
-- ---------------------------------------------------------------------------

def nodeAt (id : Fin n → Addr) (k : Nat) : Ptr := if h : k < n then some (id ⟨k, h⟩) else none

@[simp] theorem nodeAt_fin (id : Fin n → Addr) (i : Fin n) :
    nodeAt id i = some (id i) := dif_pos i.isLt

@[simp] theorem nodeAt_last (id : Fin n → Addr) : nodeAt id n = none := dif_neg (Nat.lt_irrefl n)

theorem nodeAt_cons (a : Addr) (id : Fin n → Addr) (k : Nat) :
    nodeAt (Fin.cons a id) (k + 1) = nodeAt id k := by
  unfold nodeAt
  by_cases hk : k < n
  · rw [dif_pos hk, dif_pos (Nat.succ_lt_succ hk)]
    rfl
  · rw [dif_neg hk, dif_neg (fun h => hk (Nat.lt_of_succ_lt_succ h))]

theorem nodeAt_cases (id : Fin n → Addr) (hk : k ≤ n) :
    (∃ i : Fin n, k = i ∧ nodeAt id k = some (id i)) ∨ (k = n ∧ nodeAt id k = none) := by
  rcases Nat.lt_or_eq_of_le hk with hlt | rfl
  · exact .inl ⟨⟨k, hlt⟩, rfl, dif_pos hlt⟩
  · exact .inr ⟨rfl, nodeAt_last id⟩

/-- The containers of the records `dev` and their links, in memory that was `h₀` without them. -/
structure Laid (h₀ h : ContainerHeap) (devList : Ptr) (id : Fin n → Addr) (dev : Fin n → TimerId) :
    Prop where
  head : devList = nodeAt id 0
  cell : ∀ i, h.cell (id i) = some ⟨dev i, .written (nodeAt id (i + 1))⟩
  inj : Function.Injective id
  fresh : ∀ i, h₀.cell (id i) = none
  frame : ∀ a, (∀ i, id i ≠ a) → h.cell a = h₀.cell a

variable {h₀ h : ContainerHeap} {devList : Ptr} {id : Fin n → Addr} {dev : Fin n → TimerId}

theorem Laid.deref (hl : Laid h₀ h devList id dev) (i : Fin n) :
    deref h (id i) = .ok ⟨dev i, .written (nodeAt id (i + 1))⟩ := by
  rw [DevList.deref, hl.cell i, need_some]

theorem Laid.storeId (hl : Laid h₀ h devList id dev) (i : Fin n) (f : TimerId → TimerId) :
    ∃ h', storeId h (id i) f = .ok h' ∧
      Laid h₀ h' devList id (Function.update dev i (f (dev i))) := by
  refine ⟨h.set (id i) ⟨f (dev i), .written (nodeAt id (i + 1))⟩, ?_, hl.head, fun j => ?_, hl.inj,
    hl.fresh, ?_⟩
  · rw [DevList.storeId, store, modify_some (hl.cell i), need_some]
  · by_cases hj : j = i
    · subst hj
      rw [set_cell_self, Function.update_self]
    · rw [set_cell_of_ne h _ (fun he => hj (hl.inj he)), Function.update_of_ne hj, hl.cell j]
  · intro a ha
    rw [set_cell_of_ne h _ (Ne.symm (ha i)), hl.frame a ha]

theorem attachEvent_eq (M : ContainerMalloc) (devList : Ptr) (h : ContainerHeap) :
    attachEvent M false devList h = .ok (some (M.addr h), some (M.addr h),
      h.set (M.addr h) ⟨⟨false, false⟩, .written devList⟩) := by
  cases devList <;> simp [attachEvent, Heap.malloc, DevList.storeId, store]

theorem Laid.push (hl : Laid h₀ h devList id dev) (ha : h.cell a = none) (flags : TimerId) :
    Laid h₀ (h.set a ⟨flags, .written devList⟩) (some a) (Fin.cons a id : Fin (n + 1) → Addr)
      (Fin.cons flags dev) := by
  have hne : ∀ i, id i ≠ a := fun i he => by
    rw [← he, hl.cell i] at ha
    cases ha
  refine ⟨rfl, fun i => ?_, ?_, fun i => ?_, fun b hb => ?_⟩
  · cases i using Fin.cases with
    | zero => rw [Fin.cons_zero, Fin.cons_zero, set_cell_self, Fin.val_zero, nodeAt_cons, hl.head]
    | succ i => rw [Fin.cons_succ, Fin.cons_succ, set_cell_of_ne h _ (hne i),
        hl.cell i, Fin.val_succ, nodeAt_cons]
  · refine Fin.cons_injective_iff.mpr ⟨?_, hl.inj⟩
    rintro ⟨i, hi⟩
    exact hne i hi
  · cases i using Fin.cases with
    | zero => rw [Fin.cons_zero, ← hl.frame a hne, ha]
    | succ i => exact hl.fresh i
  · have hba : b ≠ a := fun he => hb 0 he.symm
    rw [set_cell_of_ne h _ hba, hl.frame b fun i => hb i.succ]

theorem attachAll_laid (M : ContainerMalloc) (n : Nat) (h₀ : ContainerHeap) :
    ∃ id devList h, attachAll M n h₀ = .ok (id, devList, h) ∧
      Laid h₀ h devList (id : Fin n → Addr) fun _ => ⟨false, false⟩ := by
  induction n with
  | zero => exact ⟨_, _, h₀, rfl, rfl, fun i => i.elim0, fun i => i.elim0, fun i => i.elim0,
      fun _ _ => rfl⟩
  | succ n ih =>
    obtain ⟨id, devList, h, hall, hl⟩ := ih
    have hpush := hl.push (M.fresh h) ⟨false, false⟩
    rw [show (Fin.cons ⟨false, false⟩ fun _ => ⟨false, false⟩ : Fin (n + 1) → TimerId) =
        fun _ => ⟨false, false⟩ from
      funext fun i => by cases i using Fin.cases <;> rfl] at hpush
    refine ⟨_, _, _, ?_, hpush⟩
    simp only [attachAll, hall, ok_bind, attachEvent_eq, need_some]

theorem freeAll_from (hinj : Function.Injective id) (hk : k ≤ n)
    (hcell : ∀ i : Fin n, k ≤ i.val → h.cell (id i) = some ⟨dev i, .written (nodeAt id (i + 1))⟩)
    (fuel : Nat) (hfuel : n ≤ k + fuel) :
    ∃ h', freeAll fuel (nodeAt id k) h = .ok h' ∧ (∀ i : Fin n, k ≤ i.val → h'.cell (id i) = none) ∧
      ∀ a, (∀ i : Fin n, k ≤ i.val → id i ≠ a) → h'.cell a = h.cell a := by
  induction fuel generalizing k h with
  | zero =>
    obtain rfl : k = n := Nat.le_antisymm hk hfuel
    rw [nodeAt_last]
    exact ⟨h, rfl, fun i hi => absurd i.isLt (Nat.not_lt.mpr hi), fun _ _ => rfl⟩
  | succ fuel ih =>
    rcases nodeAt_cases id hk with ⟨i, rfl, hnode⟩ | ⟨rfl, hnode⟩
    · have hrest : ∀ j : Fin n, i.val + 1 ≤ j.val →
          (h.free (id i)).cell (id j) = some ⟨dev j, .written (nodeAt id (j + 1))⟩ := by
        intro j hj
        have hne : id j ≠ id i := fun he => absurd (congrArg Fin.val (hinj he)) (by omega)
        rw [free_cell_of_ne h hne, hcell j (Nat.le_of_succ_le hj)]
      obtain ⟨h', hfree, hgone, hframe⟩ := ih i.isLt hrest (by omega)
      refine ⟨h', ?_, fun j hj => ?_, fun a ha => ?_⟩
      · rw [hnode, freeAll, DevList.deref, hcell i (Nat.le_refl _)]
        exact hfree
      · rcases Nat.eq_or_lt_of_le hj with heq | hlt
        · obtain rfl : i = j := Fin.ext heq
          have hself : (h.free (id i)).cell (id i) = none := Function.update_self ..
          rw [hframe (id i) fun j hj he => absurd (congrArg Fin.val (hinj he)) (by omega), hself]
        · exact hgone j hlt
      · rw [hframe a fun j hj => ha j (Nat.le_of_succ_le hj),
          free_cell_of_ne h (Ne.symm (ha i (Nat.le_refl _)))]
    · rw [hnode]
      exact ⟨h, rfl, fun i hi => absurd i.isLt (Nat.not_lt.mpr hi), fun _ _ => rfl⟩

theorem Laid.freeAll (hl : Laid h₀ h devList id dev) (fuel : Nat) (hfuel : n ≤ fuel) :
    ∃ h', freeAll fuel devList h = .ok h' ∧ h'.cell = h₀.cell := by
  obtain ⟨h', hfree, hgone, hframe⟩ :=
    freeAll_from hl.inj (Nat.zero_le n) (fun i _ => hl.cell i) fuel (by omega)
  refine ⟨h', by rw [hl.head]; exact hfree, funext fun a => ?_⟩
  by_cases ha : ∃ i, id i = a
  · obtain ⟨i, rfl⟩ := ha
    rw [hgone i (Nat.zero_le _), hl.fresh i]
  · have hother : ∀ i, id i ≠ a := fun i he => ha ⟨i, he⟩
    rw [hframe a fun i _ => hother i, hl.frame a hother]

-- ---------------------------------------------------------------------------
-- Lockstep
-- ---------------------------------------------------------------------------

/-- `temp` points to the record at the position where the timer is. -/
inductive At (id : Fin n → Addr) : TimerPc → TempPc → Prop
  | loop : At id .loop .loop
  | scan : k ≤ n → At id (.scan k fsh event) (.scan (nodeAt id k) fsh event)
  | asleep (i : Fin n) : At id (.asleep i fsh event) (.asleep (id i) fsh event)
  | release : k ≤ n → At id (.release k fsh event) (.release (nodeAt id k) fsh event)
  | exited : At id .exited .exited

structure Refines (h₀ : ContainerHeap) (s : State n) (c : HeapState n) : Prop where
  laid : Laid h₀ c.heap c.devList c.id s.dev
  time : c.time = s.time
  timerStop : c.timerStop = s.timerStop
  timer : At c.id s.timer c.timer
  client : c.client = s.client

/-- Both threads make a step, the one in memory without a fault, or neither does. -/
def Follows (h₀ : ContainerHeap) :
    Option (Event n × State n) → Option (Except Fault (HeapState n)) → Prop :=
  Option.Rel fun p r => ∃ c, r = .ok c ∧ Refines h₀ p.2 c

theorem Follows.ok (h : Refines h₀ t c) (e : Event n) : Follows h₀ (some (e, t)) (some (.ok c)) :=
  .some ⟨c, rfl, h⟩

theorem signalEvent_at (hinj : Function.Injective id) (h : At id pc temp) (i : Fin n) :
    At id (Timer.signalEvent i pc) (signalEvent (id i) temp) := by
  cases h with
  | asleep j =>
    by_cases hj : j = i
    · subst hj
      simpa [Timer.signalEvent, signalEvent] using At.scan (Nat.le_of_lt j.isLt)
    · have hval : j.val ≠ i.val := fun he => hj (Fin.ext he)
      have hid : id j ≠ id i := fun he => hj (hinj he)
      simpa [Timer.signalEvent, signalEvent, hval, hid] using At.asleep j
  | loop => exact .loop
  | scan hk => exact .scan hk
  | release hk => exact .release hk
  | exited => exact .exited

section
variable {s : State n} {c : HeapState n}

theorem signalTimer_eq (hinj : Function.Injective c.id) (i : Fin n) :
    c.signalTimer (c.id i) = Function.update c.client i (c.client i).signalTimer := by
  funext j
  by_cases hj : j = i
  · subst hj
    simp [HeapState.signalTimer]
  · have hid : c.id j ≠ c.id i := fun he => hj (hinj he)
    simp [HeapState.signalTimer, hid, Function.update_of_ne hj]

theorem timerRoutine_follows (h : Refines h₀ s c) :
    Follows h₀ (Timer.timerRoutine s) (timerRoutine c) := by
  obtain ⟨dev, time, timerStop, timer, client⟩ := s
  obtain ⟨heap, devList, id, time', timerStop', temp, client'⟩ := c
  obtain ⟨hl, rfl, rfl, hat, rfl⟩ := h
  replace hl : Laid h₀ heap devList id dev := hl
  replace hat : At id timer temp := hat
  have hstart : devList = nodeAt id 0 := hl.head
  cases hat with
  | loop =>
    cases timerStop'
    · exact .ok ⟨hl, rfl, rfl, hstart ▸ .scan (Nat.zero_le n), rfl⟩ _
    · exact .ok ⟨hl, rfl, rfl, .exited, rfl⟩ _
  | @scan k fsh event hk =>
    rcases nodeAt_cases id hk with ⟨i, rfl, hnode⟩ | ⟨rfl, hnode⟩
    · simp only [Timer.timerRoutine, timerRoutine, hnode, i.isLt, dif_pos, hl.deref i,
        ok_bind, Fin.eta]
      by_cases hidle : (!(dev i).done && !(dev i).fsh) = true
      · rw [if_pos hidle, if_pos hidle]
        exact .ok ⟨hl, rfl, rfl, .asleep i, rfl⟩ _
      · rw [if_neg hidle, if_neg hidle]
        exact .ok ⟨hl, rfl, rfl, .scan i.isLt, rfl⟩ _
    · simp only [Timer.timerRoutine, timerRoutine, hnode, Nat.lt_irrefl, dif_neg, not_false_eq_true]
      exact .ok ⟨hl, rfl, rfl, hstart ▸ .release (Nat.zero_le _), rfl⟩ _
  | asleep i => exact .none
  | @release k fsh event hk =>
    rcases nodeAt_cases id hk with ⟨i, rfl, hnode⟩ | ⟨rfl, hnode⟩
    · obtain ⟨heap', hstore, hl'⟩ := hl.storeId i fun id => { id with done := false }
      simp only [Timer.timerRoutine, timerRoutine, hnode, i.isLt, dif_pos, hstore,
        hl'.deref i, ok_bind, Fin.eta]
      exact .ok ⟨hl', rfl, rfl, .release i.isLt, signalTimer_eq hl.inj i⟩ _
    · simp only [Timer.timerRoutine, timerRoutine, hnode, Nat.lt_irrefl, dif_neg, not_false_eq_true]
      by_cases hall : fsh = event
      · rw [if_pos hall, if_pos hall]
        exact .ok ⟨hl, rfl, rfl, .exited, rfl⟩ _
      · rw [if_neg hall, if_neg hall]
        exact .ok ⟨hl, rfl, rfl, .loop, rfl⟩ _
  | exited => exact .none

theorem nextSlot_follows (h : Refines h₀ s c) (i : Fin n) :
    Follows h₀ (Timer.nextSlot s i) (nextSlot c i) := by
  unfold Timer.nextSlot nextSlot
  rw [h.client]
  cases hpc : (s.client i).pc with
  | entered =>
    obtain ⟨heap', hstore, hl'⟩ := h.laid.storeId i fun id => { id with done := true }
    simp only [hstore, ok_bind]
    refine .ok ?_ _
    exact ⟨hl', h.time, h.timerStop, signalEvent_at h.laid.inj h.timer i, rfl⟩
  | checking =>
    simp only [h.laid.deref i, ok_bind]
    by_cases hdone : (s.dev i).done = true
    · rw [if_pos hdone, if_pos hdone]
      refine .ok ?_ _
      exact ⟨h.laid, h.time, h.timerStop, h.timer, rfl⟩
    · rw [if_neg hdone, if_neg hdone]
      refine .ok ?_ _
      exact ⟨h.laid, h.time, h.timerStop, h.timer, rfl⟩
  | outside | waiting | detached => exact .none

theorem detachEvent_follows (h : Refines h₀ s c) (i : Fin n) :
    Follows h₀ (Timer.detachEvent s i) (detachEvent c i) := by
  unfold Timer.detachEvent detachEvent
  rw [h.client]
  by_cases hpc : (s.client i).pc = .outside
  · obtain ⟨heap', hstore, hl'⟩ := h.laid.storeId i fun id => { id with fsh := true }
    rw [if_pos hpc, if_pos hpc]
    simp only [hstore, ok_bind]
    refine .ok ?_ _
    exact ⟨hl', h.time, h.timerStop, signalEvent_at h.laid.inj h.timer i, rfl⟩
  · rw [if_neg hpc, if_neg hpc]
    exact .none

theorem wakeTimer_follows (h : Refines h₀ s c) : Follows h₀ (Timer.wakeTimer s) (wakeTimer c) := by
  obtain ⟨dev, time, timerStop, timer, client⟩ := s
  obtain ⟨heap, devList, id, time', timerStop', temp, client'⟩ := c
  obtain ⟨hl, rfl, rfl, hat, rfl⟩ := h
  replace hat : At id timer temp := hat
  cases hat with
  | @asleep fsh event i =>
    have hscan : At id (.scan i fsh event) (.scan (some (id i)) fsh event) :=
      nodeAt_fin id i ▸ .scan (Nat.le_of_lt i.isLt)
    refine .ok ?_ _
    exact ⟨hl, rfl, rfl, hscan, rfl⟩
  | loop | scan | release | exited => exact .none

theorem move_follows (h : Refines h₀ s c) (a : Act n) : Follows h₀ (Timer.next s a) (move c a) := by
  cases a with
  | timer => exact timerRoutine_follows h
  | client i => exact nextSlot_follows h i
  | detach i => exact detachEvent_follows h i
  | wakeTimer => exact wakeTimer_follows h
  | call i =>
    show Follows h₀ (Timer.callNextSlot s i) (callNextSlot c i)
    unfold Timer.callNextSlot callNextSlot
    rw [h.client]
    split
    · refine .ok ?_ _
      exact ⟨h.laid, h.time, h.timerStop, h.timer, rfl⟩
    · exact .none
  | stop =>
    show Follows h₀ (Timer.stopTimer s) (stopTimer c)
    unfold Timer.stopTimer stopTimer
    rw [h.client]
    split
    · refine .ok ?_ _
      exact ⟨h.laid, h.time, rfl, h.timer, rfl⟩
    · exact .none
  | wakeClient i =>
    show Follows h₀ (Timer.wakeClient s i) (wakeClient c i)
    unfold Timer.wakeClient wakeClient
    rw [h.client]
    split
    · refine .ok ?_ _
      exact ⟨h.laid, h.time, h.timerStop, h.timer, rfl⟩
    · exact .none

end

theorem next_follows (s : State n) (r : Except Fault (HeapState n)) (a : Act n)
    (h : ∃ c, r = .ok c ∧ Refines h₀ s c) :
    Option.Rel (fun x y => ∃ c, y.2 = .ok c ∧ Refines h₀ x.2 c) (Timer.next s a) (next r a) := by
  obtain ⟨c, rfl, hc⟩ := h
  have hfollows := move_follows hc a
  show Option.Rel _ _ ((move c a).map (a, ·))
  generalize Timer.next s a = x at hfollows ⊢
  generalize move c a = y at hfollows ⊢
  cases hfollows with
  | none => exact .none
  | some hr => exact .some hr

theorem startTimer_refines (hl : Laid h₀ h devList id fun _ => ⟨false, false⟩) :
    Refines h₀ (Timer.startTimer n) (startTimer id devList h) := ⟨hl, rfl, rfl, .loop, rfl⟩

/-- `main` attaches `n` records and starts the timer. Under any schedule the threads in memory then
do what those of `Timer.Model` do: they never follow a pointer that is not valid and are never held
up where the others are not. Whenever `stop_timer` frees the list, it frees each container once and
leaves the memory as it was before. -/
theorem dev_list_lockstep (M : ContainerMalloc) (n : Nat) (h₀ : ContainerHeap) :
    ∃ id devList h, attachAll M n h₀ = .ok (id, devList, h) ∧
      ∀ l : List (Act n), Option.Rel
        (fun x y => ∃ c, y.2 = .ok c ∧ Refines h₀ x.2 c ∧
          ∀ fuel, n ≤ fuel → ∃ h', freeAll fuel c.devList c.heap = .ok h' ∧ h'.cell = h₀.cell)
        (exec Timer.next l (Timer.startTimer n)) (exec next l (.ok (startTimer id devList h))) := by
  obtain ⟨id, devList, h, hall, hl⟩ := attachAll_laid M n h₀
  refine ⟨id, devList, h, hall, fun l => ?_⟩
  have hrel := exec_lockstep next_follows ⟨_, rfl, startTimer_refines hl⟩ l
  generalize exec Timer.next l (Timer.startTimer n) = x at hrel ⊢
  generalize exec next l (.ok (startTimer id devList h)) = y at hrel ⊢
  cases hrel with
  | none => exact .none
  | some hlast =>
    obtain ⟨c, hc, hr⟩ := hlast
    exact .some ⟨c, hc, hr, fun fuel hfuel => hr.laid.freeAll fuel hfuel⟩

end AssignmentOS.Timer.DevList
