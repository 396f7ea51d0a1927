import Mathlib.Algebra.BigOperators.Group.Finset.Piecewise
import AssignmentOS.Os.Slot
import AssignmentOS.Os.Stopping

/-!
# How long a process takes

List scheduling on the CPUs: in a slot in which a process waits, either all CPUs
run others or the loader has just added one. So the slots from the arrival of a
process to its `free` are bounded by its own length, the arrivals and the work of
the others shared among the CPUs (`response_time`). The order in which `get_proc`
takes the processes out of the queue does not matter.
-/

namespace AssignmentOS.Os

open Transition

variable {cfg : Config} {mayMiss : Bool}

-- ---------------------------------------------------------------------------
-- The work of a process
-- ---------------------------------------------------------------------------

/-- The calls of `run` that a process needs. One without instructions gets one too. -/
def cost (cfg : Config) (p : cfg.Pid) : Nat := max 1 (cfg.desc p).code.size

def runsOf (p : cfg.Pid) (tr : List (Label cfg)) : Nat := (runs tr).countP (·.2 = p)

def runsOfOthers (p : cfg.Pid) (tr : List (Label cfg)) : Nat := (runs tr).countP (·.2 ≠ p)

def State.Waits (s : State cfg) (p : cfg.Pid) : Prop :=
  s.ld.added ≤ p.val ∨ p ∈ s.queued ∨ ∃ c, (s.cpu c).pc = .recheck ∧ (s.cpu c).proc = some p

/-- The runs of `p` are its instructions, but for the one run of an empty process. -/
structure Worked (runs : Nat) (p : cfg.Pid) (s : State cfg) : Prop where
  count : runs = (s.pcb p).pc ∨ (s.pcb p).pc = (s.pcb p).code.size ∧ (s.pcb p).pc = 0 ∧ runs = 1
  waits : s.Waits p → s.finished p = false ∨ runs = 0

section
variable {s t : State cfg}

theorem runsOf_append (p : cfg.Pid) (tr : List (Label cfg)) (e : Label cfg) :
    runsOf p (tr ++ [e]) = runsOf p tr + e.runs.toList.countP (·.2 = p) := by
  rw [runsOf, runs_append, List.countP_append, runsOf]

theorem Worked.keep (h : Worked r p s) (hpcb : t.pcb p = s.pcb p)
    (hwaits : t.Waits p → s.Waits p ∨ s.finished p = false) : Worked r p t := by
  have hfin : t.finished p = s.finished p := by rw [State.finished, State.finished, hpcb]
  refine ⟨hpcb ▸ h.count, fun hw => ?_⟩
  rw [hfin]
  exact (hwaits hw).elim h.waits .inl

theorem Worked.run (h : Worked r p s) (hw : s.Waits p) (hpcb : t.pcb p = (s.pcb p).advance)
    (hle : (s.pcb p).pc ≤ (s.pcb p).code.size) (hgone : ¬ t.Waits p) : Worked (r + 1) p t := by
  refine ⟨?_, fun hw => absurd hw hgone⟩
  rw [hpcb]
  unfold Pcb.advance Pcb.fetch
  split
  · rename_i hlt
    obtain hr | ⟨heq, -⟩ := h.count
    · exact .inl (congrArg (· + 1) hr)
    · exact absurd heq (Nat.ne_of_lt hlt)
  · rename_i hge
    have hend : (s.pcb p).pc = (s.pcb p).code.size := Nat.le_antisymm hle (Nat.le_of_not_lt hge)
    have hfin : s.finished p = true := by simp [State.finished, hend]
    have hr : r = 0 := (h.waits hw).resolve_left (by simp [hfin])
    obtain hr' | ⟨-, -, hr'⟩ := h.count
    · exact .inr ⟨hend, hr'.symm.trans hr, by rw [hr]⟩
    · omega

theorem not_waits_of_held (h : Owned s) (hc : (s.cpu c).held = some p)
    (hpc : (s.cpu c).pc ≠ .recheck) :
    ¬ s.Waits p := by
  have hplace := h p
  have hle := holds_le_holders s c p
  rw [holds_of_held hc, if_pos rfl] at hle
  rintro (hadded | hq | ⟨d, hd, hproc⟩)
  · simp only [State.pending, hadded, if_true] at hplace
    omega
  · have hcount := Multiset.count_pos.mpr hq
    omega
  · have hheld : (s.cpu d).held = some p := by simp [Cpu.held, hd, hproc]
    obtain rfl := holder_unique h hc hheld
    exact hpc hd

theorem cpuRoutine_recheck {c c' : Cpu P}
    (h : cpuRoutine timeSlot finished c ans done = some (op, c')) (hpc : c'.pc = .recheck)
    (hproc : c'.proc = some p) : op = .getProc (some p) ∨ finished p = false := by
  cases cpuRoutine_step h with
  | first | reload | refetch => exact .inl (congrArg CpuOp.getProc hproc)
  | inspect _ hheld hfin =>
    obtain rfl := Option.some.inj (hheld.symm.trans hproc)
    exact .inr hfin
  | free | putProc | run | nextSlot | detachEvent => cases hpc
  | readDone => cases done <;> cases hpc

theorem waits_cpu (hop : cpuRoutine cfg.timeSlot s.finished (s.cpu c) ans s.done = some (op, x))
    (hp : s.perform mayMiss c op = some t)
    (h : State.Waits { t with cpu := Function.update t.cpu c x } p) :
    s.Waits p ∨ s.finished p = false := by
  obtain ⟨hcpu, hld, -⟩ := perform_frame hp
  have hq := perform_requeues hp
  rcases h with hadded | hmem | ⟨d, hd, hproc⟩
  · exact .inl (.inl (by simpa [hld] using hadded))
  · cases op with
    | getProc a => exact .inl (.inr (.inl (by rw [hq.1]; exact Multiset.mem_add.mpr (.inr hmem))))
    | putProc r =>
      rw [show t.queued = _ from hq] at hmem
      rcases Multiset.mem_cons.mp hmem with rfl | hmem
      · exact .inr (cpuRoutine_held hop).1
      · exact .inl (.inr (.inl hmem))
    | _ =>
      rw [show t.queued = _ from hq] at hmem
      exact .inl (.inr (.inl hmem))
  · by_cases hdc : d = c
    · subst hdc
      simp only [Function.update_self] at hd hproc
      rcases cpuRoutine_recheck hop hd hproc with rfl | hfin
      · exact .inl (.inr (.inl (by rw [hq.1]; exact Multiset.mem_add.mpr (.inl (by simp)))))
      · exact .inr hfin
    · simp only [Function.update_of_ne hdc, hcpu] at hd hproc
      exact .inl (.inr (.inr ⟨d, hd, hproc⟩))

theorem waits_ld (hop : ldRoutine startTime now s.ld = some (op, l)) (hp : s.performLd op = some t)
    (h : State.Waits { t with ld := l } p) : s.Waits p := by
  have hadded := ldRoutine_added hop
  obtain ⟨hcpu, -, -, -, -, hq⟩ := performLd_frame hp
  rcases h with hle | hmem | hheld
  · left
    cases op with
    | addProc i =>
      simp only [hadded.2] at hle
      rw [hadded.1]
      omega
    | load i => rwa [hadded.1, ← hadded.2]
    | _ => rwa [← hadded]
  · simp only [hq] at hmem
    cases op with
    | addProc i =>
      rcases Multiset.mem_cons.mp hmem with rfl | hmem
      · exact .inl hadded.1.le
      · exact .inr (.inl hmem)
    | _ => exact .inr (.inl hmem)
  · simp only [hcpu] at hheld
    exact .inr (.inr hheld)

theorem worked_step (h : Worked (runsOf p tr) p s) (ht : Owned t) (htr : Traced tr s)
    (hs : Step mayMiss s e t) : Worked (runsOf p (tr ++ [e])) p t := by
  rw [runsOf_append]
  cases hs with
  | timer => exact h.keep rfl .inl
  | ld _ hop hp =>
    obtain ⟨-, -, hpcb, -⟩ := performLd_frame hp
    exact h.keep (congrFun hpcb p) fun hw => .inl (waits_ld hop hp hw)
  | @cpu _ op x u c _ hop hp =>
    by_cases hrun : op = .run p
    · subst hrun
      cases hp
      obtain ⟨hheld, hheld'⟩ := cpuRoutine_held hop
      have hw : s.Waits p := by
        cases cpuRoutine_step hop with
        | run hpc hproc => exact .inr (.inr ⟨c, hpc, hproc⟩)
      have hslot := cpuRoutine_control hop
      have hone : (s.label c (.run p)).runs.toList.countP (·.2 = p) = 1 := by simp [label_runs]
      rw [hone]
      refine h.run hw (by simp) (htr.pc_le p) (not_waits_of_held (c := c) ht ?_ ?_)
      · simpa using hheld'
      · simp only [Function.update_self, hslot]
        exact fun h => nomatch h
    · have hzero : (s.label c op).runs.toList.countP (·.2 = p) = 0 := by
        rw [label_runs]
        cases op with
        | run r =>
          have hr : r ≠ p := fun h => hrun (congrArg CpuOp.run h)
          simp [hr]
        | _ => rfl
      rw [hzero]
      have hpcb : u.pcb p = s.pcb p := by
        rw [perform_pcb hp]
        cases op with
        | run r => exact Function.update_of_ne (fun h => hrun (congrArg CpuOp.run h.symm)) ..
        | _ => rfl
      exact h.keep hpcb (waits_cpu hop hp)

theorem run_worked (h : Run (system mayMiss cfg) tr s) (p : cfg.Pid) :
    Worked (runsOf p tr) p s := by
  refine h.invariant (P := fun tr s => Worked (runsOf p tr) p s) ?_ ?_
  · rintro _ rfl
    exact ⟨.inl rfl, fun _ => .inr rfl⟩
  · rintro tr s e t hr ih ⟨a, ha⟩
    exact worked_step ih (reachable_owned (hr.reachable.step ⟨a, ha⟩))
      (run_traced hr) (next_step ha)

theorem runsOf_le_cost (h : Run (system mayMiss cfg) tr s) (p : cfg.Pid) :
    runsOf p tr ≤ cost cfg p := by
  have htr := run_traced h
  have hle := htr.pc_le p
  rw [htr.code p] at hle
  unfold cost
  obtain hr | ⟨-, -, hr⟩ := (run_worked h p).count <;> omega

-- ---------------------------------------------------------------------------
-- The slots since a process was added
-- ---------------------------------------------------------------------------

def since (p : cfg.Pid) (tr : List (Label cfg)) : List (Label cfg) := tr.dropWhile (·.adds ≠ some p)

theorem since_append (p : cfg.Pid) (tr : List (Label cfg)) (e : Label cfg) :
    since p (tr ++ [e]) =
      if since p tr = [] then (if e.adds = some p then [e] else []) else since p tr ++ [e] := by
  unfold since
  rw [List.dropWhile_append]
  simp only [List.isEmpty_iff, List.dropWhile_cons, List.dropWhile_nil]
  split <;> (try split) <;> (try split) <;> simp_all

theorem step_added (hs : Step mayMiss s e t) :
    t.ld.added = s.ld.added + e.adds.toList.length ∧ ∀ p, e.adds = some p → s.ld.added = p.val := by
  cases hs with
  | timer => exact ⟨rfl, by rintro p ⟨⟩⟩
  | @cpu _ op _ u c _ _ hp =>
    obtain ⟨-, hld, -⟩ := perform_frame hp
    rw [label_adds]
    exact ⟨by simp [hld], by rintro p ⟨⟩⟩
  | @ld op _ _ _ hop =>
    have hadded := ldRoutine_added hop
    cases op with
    | addProc i =>
      refine ⟨by simp [hadded.1, hadded.2, Label.adds], fun p hp => ?_⟩
      obtain rfl : i = p := Option.some.inj hp
      exact hadded.1
    | load i =>
      exact ⟨hadded.2.trans hadded.1.symm, by rintro p ⟨⟩⟩
    | leaveLoop | readTime | setDone | nextSlot | detachEvent => exact ⟨hadded, by rintro p ⟨⟩⟩

theorem run_since (h : Run (system mayMiss cfg) tr s) (p : cfg.Pid) :
    (since p tr = [] → s.ld.added ≤ p.val) ∧
      (since p tr ≠ [] → p.val < s.ld.added ∧ (adds (since p tr)).length + p.val = s.ld.added) := by
  refine h.invariant (P := fun tr s => (since p tr = [] → s.ld.added ≤ p.val) ∧
    (since p tr ≠ [] → p.val < s.ld.added ∧ (adds (since p tr)).length + p.val = s.ld.added)) ?_ ?_
  · rintro _ rfl
    exact ⟨fun _ => Nat.zero_le _, fun hne => absurd rfl hne⟩
  · rintro tr s e t - ⟨hnil, hcons⟩ ⟨a, ha⟩
    obtain ⟨hadded, hp⟩ := step_added (next_step ha)
    rw [since_append]
    split
    · rename_i hs
      have hle := hnil hs
      split
      · rename_i he
        have heq := hp p he
        refine ⟨(nomatch ·), fun _ => ?_⟩
        simp only [he, Option.toList_some, List.length_singleton] at hadded
        simp only [adds, List.filterMap_cons, he, List.filterMap_nil, List.length_singleton]
        omega
      · rename_i he
        refine ⟨fun _ => ?_, fun hne => absurd rfl hne⟩
        cases hadds : e.adds with
        | none => simpa [hadded, hadds] using hle
        | some q =>
          have hq := hp q hadds
          have hne : q.val ≠ p.val := fun h => he (by rw [hadds, Fin.ext h])
          simp only [hadded, hadds, Option.toList_some, List.length_singleton]
          omega
    · rename_i hs
      obtain ⟨hlt, heq⟩ := hcons hs
      refine ⟨fun h => absurd h (by simp), fun _ => ?_⟩
      rw [adds_append, List.length_append, hadded]
      omega

-- ---------------------------------------------------------------------------
-- What a slot has earned
-- ---------------------------------------------------------------------------

def Turn.runs : Turn P → Nat
  | .ran _ => 1
  | _ => 0

def State.busy (T : Nat) (s : State cfg) : Nat := ∑ c, (s.turn T c).runs

/-- What slot `T` has got the CPUs done so far while `p` is on its way: all of it as soon as
`p` has run, or has an excuse in the process that was just added. -/
def State.earned (T : Nat) (p : cfg.Pid) (s : State cfg) : Nat :=
  if s.justAdded T = 1 ∨ ∃ c, s.turn T c = .ran p then cfg.numCpus else s.busy T

theorem Turn.runs_le (turn : Turn P) : turn.runs ≤ 1 := by
  cases turn <;> simp [runs]

theorem busy_le (T : Nat) (s : State cfg) : s.busy T ≤ cfg.numCpus := by
  have hsum := Finset.sum_le_card_nsmul Finset.univ (fun c => (s.turn T c).runs) 1
    fun c _ => Turn.runs_le _
  simpa [State.busy] using hsum

theorem earned_le (T : Nat) (p : cfg.Pid) (s : State cfg) : s.earned T p ≤ cfg.numCpus := by
  unfold State.earned
  split
  · exact Nat.le_refl _
  · exact busy_le T s

theorem earned_congr (hturn : ∀ c q, t.turn T c = .ran q ↔ s.turn T c = .ran q)
    (hadded : t.justAdded T = s.justAdded T) (p : cfg.Pid) : t.earned T p = s.earned T p := by
  have hruns : ∀ c, (t.turn T c).runs = (s.turn T c).runs := by
    intro c
    have hc := hturn c
    generalize t.turn T c = a at hc
    generalize s.turn T c = b at hc
    cases a with
    | ran q => rw [(hc q).mp rfl]
    | _ =>
      cases b with
      | ran q => exact absurd ((hc q).mpr rfl) (by simp)
      | _ => rfl
  have hbusy : t.busy T = s.busy T := Finset.sum_congr rfl fun c _ => hruns c
  simp only [State.earned, hadded, hturn, hbusy]

theorem earned_run (hfresh : s.turn T c = .fresh) (hran : t.turn T c = .ran q)
    (hother : ∀ d, d ≠ c → t.turn T d = s.turn T d) (hadded : t.justAdded T = s.justAdded T)
    (hq : q ≠ p) : t.earned T p ≤ s.earned T p + 1 := by
  have hsum := sum_change (f := fun c => (s.turn T c).runs)
    (g := fun c => (t.turn T c).runs) c fun d hd =>
    congrArg Turn.runs (hother d hd)
  simp only [hfresh, hran, Turn.runs, Nat.add_zero] at hsum
  have hiff : (∃ d, t.turn T d = .ran p) ↔ ∃ d, s.turn T d = .ran p := by
    refine exists_congr fun d => ?_
    by_cases hd : d = c
    · subst hd
      simp [hfresh, hran, hq]
    · rw [hother d hd]
  simp only [State.earned, hadded, hiff]
  split
  · exact Nat.le_succ _
  · exact Nat.le_of_eq hsum

theorem held_of_idle {done : Bool} (h : CpuControl client c done) (hidle : c.turn called = .idle) :
    c.held = none := by
  have hleft := h.left
  unfold Cpu.turn at hidle
  unfold Cpu.held
  cases hpc : c.pc <;> cases hproc : c.proc <;> cases called <;> simp_all [Cpu.Left]

/-- At the end of a slot a process on its way has run, or all CPUs have run another one, or
one was just added. -/
theorem earned_tick (hr : Reachable (system false cfg) s) (hcov : Covered T s)
    (hturn : ∀ c, s.turn T c = .idle ∨ ∃ p, s.turn T c = .ran p) (hadded : p.val < s.ld.added)
    (hfreed : s.freed p = 0) : s.earned T p = cfg.numCpus := by
  unfold State.earned
  split
  · rfl
  rename_i hnone
  have hplace := reachable_owned hr p
  have hpend : s.pending p = 0 := if_neg (Nat.not_le.mpr hadded)
  by_cases hidle : ∃ c, s.turn T c = .idle
  · have hcard := hcov hidle
    rw [asking_tick hturn] at hcard
    have hle := justAdded_le T s
    have hzero : s.justAdded T = 0 := by
      by_contra hne
      exact hnone (.inl (by omega))
    have hempty : s.queued = 0 := Multiset.card_eq_zero.mp (by omega)
    have hcount : s.queued.count p = 0 := by rw [hempty, Multiset.count_zero]
    have hholders : s.holders p ≠ 0 := by omega
    obtain ⟨c, -, hc⟩ := Finset.exists_ne_zero_of_sum_ne_zero hholders
    have hheld : (s.cpu c).held = some p := by
      by_contra hne
      exact hc (if_neg hne)
    obtain hidle | ⟨q, hq⟩ := hturn c
    · rw [held_of_idle ((reachable_control hr).cpu c) hidle] at hheld
      cases hheld
    · obtain rfl : q = p := Option.some.inj ((held_of_ran hq).symm.trans hheld)
      exact absurd (.inr ⟨c, hq⟩) hnone
  · have hall : ∀ c, (s.turn T c).runs = 1 := by
      intro c
      obtain ⟨q, hq⟩ := (hturn c).resolve_left fun h => hidle ⟨c, h⟩
      rw [hq]
      rfl
    simp [State.busy, hall]

-- ---------------------------------------------------------------------------
-- The slots charged
-- ---------------------------------------------------------------------------

/-- Each slot of each CPU since `add_proc` of `p` is charged to a run of `p`, to an arrival,
or to a run of another process. -/
def Charged (T : Nat) (p : cfg.Pid) (tr : List (Label cfg)) (s : State cfg) : Prop :=
  cfg.numCpus * ticks tr + s.earned T p ≤
    cfg.numCpus * runsOf p tr + cfg.numCpus * (adds tr).length + runsOfOthers p tr

theorem runsOfOthers_append (p : cfg.Pid) (tr : List (Label cfg)) (e : Label cfg) :
    runsOfOthers p (tr ++ [e]) = runsOfOthers p tr + e.runs.toList.countP (·.2 ≠ p) := by
  rw [runsOfOthers, runs_append, List.countP_append, runsOfOthers]

theorem Charged.step (h : Charged T p tr s) (he : e ≠ .timer .tick)
    (hs : SlotStep mayMiss T s t e) :
    Charged T p (tr ++ [e]) t := by
  unfold Charged at h ⊢
  rw [ticks_append he, runsOf_append, runsOfOthers_append, adds_append,
    List.length_append, Nat.mul_add, Nat.mul_add]
  have hle := earned_le T p t
  rcases slotStep_runs hs he with ⟨hruns, hturn, hadded⟩ |
    ⟨c, q, hruns, hfresh, hran, hother, hadds, hadded⟩
  · cases hadds : e.adds with
    | none =>
      rw [hadds] at hadded
      have hsame := earned_congr hturn hadded p
      simp only [hruns, Option.toList_none, List.countP_nil, List.length_nil]
      omega
    | some q =>
      simp only [hruns, Option.toList_none, Option.toList_some, List.countP_nil,
        List.length_singleton]
      omega
  · by_cases hq : q = p
    · subst hq
      have hone : [(c, q)].countP (·.2 = q) = 1 := by simp
      simp only [hruns, hadds, Option.toList_none, Option.toList_some, hone, List.length_nil]
      omega
    · have hmore := earned_run hfresh hran hother hadded hq
      have hone : [(c, q)].countP (·.2 ≠ p) = 1 := by simp [hq]
      simp only [hruns, hadds, Option.toList_none, Option.toList_some, hone, List.length_nil]
      omega

theorem Charged.tick (h : Charged T p tr s) (hearned : s.earned T p = cfg.numCpus)
    (hs : SlotStep false T s t (.timer .tick)) : Charged (T + 1) p (tr ++ [.timer .tick]) t := by
  obtain ⟨-, hturn, hadded, -⟩ := slotStep_tick hs
  have hzero : t.earned (T + 1) p = 0 := by
    have hnone : ∀ c q, t.turn (T + 1) c ≠ .ran q := by
      intro c q
      rcases hturn c with hc | ⟨-, hc, -⟩ <;> simp [hc]
    have hbusy : t.busy (T + 1) = 0 :=
      Finset.sum_eq_zero fun c _ => by rcases hturn c with hc | ⟨-, hc, -⟩ <;> rw [hc] <;> rfl
    simp [State.earned, hadded, hnone, hbusy]
  unfold Charged at h ⊢
  rw [ticks_tick, runsOf_append, runsOfOthers_append, adds_append, hzero, Nat.mul_succ]
  rw [hearned] at h
  simpa [Label.runs, Label.adds] using h

theorem run_charged (h : Run (system false cfg) tr s) (p : cfg.Pid) (hfreed : s.freed p = 0)
    (hsince : since p tr ≠ []) : Charged (ticks tr) p (since p tr) s := by
  refine h.invariant (P := fun tr s => s.freed p = 0 → since p tr ≠ [] →
    Charged (ticks tr) p (since p tr) s) ?_ ?_ hfreed hsince
  · rintro _ rfl - hne
    exact absurd rfl hne
  · rintro tr s e t hr ih ⟨a, ha⟩ hfreed hne
    have hs := slot_step hr.reachable (run_lockstep hr) (next_step ha)
    have hfreed' : s.freed p = 0 := Nat.le_zero.mp (hfreed ▸ freed_step (next_step ha) p)
    rw [since_append] at hne ⊢
    by_cases hnil : since p tr = []
    · -- `p` is being added.
      rw [if_pos hnil] at hne ⊢
      have hadds : e.adds = some p := by
        by_contra hno
        exact hne (if_neg hno)
      rw [if_pos hadds]
      have hticks : ticks [e] = 0 := by
        cases e with
        | ld op => cases op <;> rfl
        | _ => cases hadds
      have hone : (adds [e]).length = 1 := by simp [adds, hadds]
      have hle := earned_le (ticks (tr ++ [e])) p t
      simp only [Charged, hticks, hone]
      omega
    · rw [if_neg hnil]
      have hc := ih hfreed' hnil
      by_cases he : e = .timer .tick
      · subst he
        rw [ticks_tick]
        exact hc.tick (earned_tick hr.reachable (run_covered hr) (slotStep_tick hs).1
          ((run_since hr p).2 hnil).1 hfreed') hs
      · rw [ticks_append he]
        exact hc.step he hs

end

-- ---------------------------------------------------------------------------
-- The bound
-- ---------------------------------------------------------------------------

theorem countP_others [Fintype Q] [DecidableEq Q] (p : Q) (l : List (β × Q)) :
    l.countP (·.2 ≠ p) = ∑ q ∈ Finset.univ.erase p, l.countP (·.2 = q) := by
  induction l with
  | nil => simp
  | cons x l ih =>
    simp only [List.countP_cons, decide_eq_true_eq, Finset.sum_add_distrib, ih, Finset.sum_ite_eq,
      Finset.mem_erase, Finset.mem_univ, and_true]

theorem runsOf_since_le (p q : cfg.Pid) (tr : List (Label cfg)) :
    runsOf q (since p tr) ≤ runsOf q tr :=
  ((List.dropWhile_sublist _).filterMap _).countP_le

theorem Ld.added_le (l : Ld m) : l.added ≤ m := by
  cases l with
  | loop i => exact i.is_le
  | wait i | waitSlot i | add i => exact i.isLt.le
  | slot i => exact i.isLt
  | fin | detach | exited => exact Nat.le_refl m

theorem others_le_cost (h : Run (system mayMiss cfg) tr s) (p : cfg.Pid) :
    runsOfOthers p (since p tr) ≤ ∑ q ∈ Finset.univ.erase p, cost cfg q := by
  have hsum : runsOfOthers p (since p tr) = ∑ q ∈ Finset.univ.erase p, runsOf q (since p tr) :=
    countP_others p _
  rw [hsum]
  exact Finset.sum_le_sum fun q _ => Nat.le_trans (runsOf_since_le p q tr) (runsOf_le_cost h q)

theorem slots_le (h : Run (system false cfg) tr s) (p : cfg.Pid) (hfreed : s.freed p = 0) :
    cfg.numCpus * ticks (since p tr) ≤
      cfg.numCpus * (cost cfg p + (cfg.numProcesses - p.val)) +
        ∑ q ∈ Finset.univ.erase p, cost cfg q := by
  by_cases hnil : since p tr = []
  · rw [hnil]
    exact Nat.zero_le _
  · have hcharged := run_charged h p hfreed hnil
    have hadds := ((run_since h p).2 hnil).2
    have hadded := s.ld.added_le
    have hruns : cfg.numCpus * runsOf p (since p tr) ≤ cfg.numCpus * cost cfg p :=
      Nat.mul_le_mul_left _ (Nat.le_trans (runsOf_since_le p p tr) (runsOf_le_cost h p))
    have harrivals : cfg.numCpus * (adds (since p tr)).length ≤
        cfg.numCpus * (cfg.numProcesses - p.val) :=
      Nat.mul_le_mul_left _ (by omega)
    have hothers := others_le_cost h p
    unfold Charged at hcharged
    rw [Nat.mul_add]
    omega

theorem through_of_freed (h : Run (system mayMiss cfg) tr s) (hne : s.freed p ≠ 0) :
    s.freed p = 1 ∧ (s.pcb p).pc = (cfg.desc p).code.size := by
  have htr := run_traced h
  have hplace := reachable_owned h.reachable p
  refine ⟨by omega, ?_⟩
  rw [htr.freed p (Nat.pos_of_ne_zero hne), htr.code p]

/-- A process is through, or it has not had more slots than its own runs, the arrivals and its
share of the others' work. -/
theorem response_time (h : Run (system false cfg) tr s) (p : cfg.Pid) :
    (s.freed p = 1 ∧ (s.pcb p).pc = (cfg.desc p).code.size) ∨
      cfg.numCpus * ticks (since p tr) ≤
        cfg.numCpus * (cost cfg p + (cfg.numProcesses - p.val)) +
          ∑ q ∈ Finset.univ.erase p, cost cfg q := by
  by_cases hfreed : s.freed p = 0
  · exact .inr (slots_le h p hfreed)
  · exact .inl (through_of_freed h hfreed)

/-- In the second slot process 1 has just arrived, and has been run once. -/
theorem response_time_twoProcesses :
    let cfg := twoProcesses ⟨.alloc, 16, 3, 0, 0⟩ ⟨.read, 3, 0, 0, 0⟩ ⟨.calc, 0, 0, 0, 0⟩
    ∃ tr s, exec (next false) twoSlots (.start cfg) = some (tr, s) ∧ s.freed 1 = 0 ∧
      2 * ticks (since (1 : cfg.Pid) tr) ≤
        2 * (cost cfg 1 + 1) + ∑ q ∈ Finset.univ.erase (1 : cfg.Pid), cost cfg q := by
  intro cfg
  obtain ⟨tr, s, hexec, hfreed⟩ : ∃ tr s, exec (next false) twoSlots (.start cfg) = some (tr, s) ∧
      s.freed 1 = 0 := ⟨_, _, rfl, rfl⟩
  have hr : Run (system false cfg) tr s := run_exec hexec
  rcases response_time hr 1 with ⟨hthrough, -⟩ | hslots
  · exact absurd (hfreed.symm.trans hthrough) Nat.zero_ne_one
  · exact ⟨tr, s, hexec, hfreed, hslots⟩

end AssignmentOS.Os
