import AssignmentOS.Os.Ownership
import AssignmentOS.Os.Control

/-!
# The exit test

`cpu_routine` tests `done` after the recheck only. A CPU that had a process in
hand at the top of the loop and finds no other goes through that test and leaves
(`Leaving`). A CPU without one takes the `continue` of the first load past the
test, so it calls `next_slot` again whatever `done` is.
-/

namespace AssignmentOS.Os

open Transition

variable {cfg : Config} {mayMiss : Bool}

-- ---------------------------------------------------------------------------
-- One CPU's part of a trace
-- ---------------------------------------------------------------------------

def Label.cpuOp (c : Fin cfg.numCpus) : Label cfg → Option (CpuOp cfg.Pid)
  | .cpu d op => if d = c then some op else none
  | .exec d p _ => if d = c then some (.run p) else none
  | _ => none

def cpuOps (c : Fin cfg.numCpus) (tr : List (Label cfg)) : List (CpuOp cfg.Pid) :=
  tr.filterMap (Label.cpuOp c)

theorem cpuOps_append (c : Fin cfg.numCpus) (tr : List (Label cfg)) (e : Label cfg) :
    cpuOps c (tr ++ [e]) = cpuOps c tr ++ (e.cpuOp c).toList := by
  simp only [cpuOps, List.filterMap_append]
  cases h : e.cpuOp c <;> simp [h]

theorem label_cpuOp (s : State cfg) (c d : Fin cfg.numCpus) (op : CpuOp cfg.Pid) :
    (s.label d op).cpuOp c = if d = c then some op else none := by
  cases op <;> rfl

theorem step_cpu {s t : State cfg} (hs : Step mayMiss s e t) (c : Fin cfg.numCpus) :
    (e.cpuOp c = none ∧ t.cpu c = s.cpu c) ∨
    ∃ ans op, e.cpuOp c = some op ∧
      cpuRoutine cfg.timeSlot s.finished (s.cpu c) ans s.done = some (op, t.cpu c) := by
  cases hs with
  | timer => exact .inl ⟨rfl, rfl⟩
  | ld _ _ hp =>
    obtain ⟨hcpu, -⟩ := performLd_frame hp
    exact .inl ⟨rfl, by simp [hcpu]⟩
  | @cpu ans op x u d _ hop hp =>
    obtain ⟨hcpu, -⟩ := perform_frame hp
    by_cases hd : d = c
    · subst hd
      exact .inr ⟨ans, op, by simp [label_cpuOp], by simpa using hop⟩
    · exact .inl ⟨by simp [label_cpuOp, hd], by simp [hcpu, Ne.symm hd]⟩

theorem label_cpu {s : State cfg} (h : s.label d op = .cpu c op') : d = c ∧ op = op' := by
  cases op <;> cases h <;> exact ⟨rfl, rfl⟩

theorem next_getProc {s t : State cfg} (h : next mayMiss s a = some (.cpu c (.getProc ans), t)) :
    a = .cpu c ans ∧ (s.cpuClient c).pc = .outside ∧ t.timer = s.timer ∧ t.done = s.done ∧
      cpuRoutine cfg.timeSlot s.finished (s.cpu c) ans s.done = some (.getProc ans, t.cpu c) := by
  generalize hl : Label.cpu c (.getProc ans) = l at h
  cases a with
  | timer b =>
    simp only [next, Option.ite_none_right_eq_some, Option.map_eq_some_iff] at h
    obtain ⟨-, ⟨e, u⟩, -, h⟩ := h
    cases h
    cases hl
  | ld =>
    simp only [next, Option.ite_none_right_eq_some, Option.bind_eq_bind,
      Option.bind_eq_some_iff, Prod.exists] at h
    obtain ⟨-, op, ld, -, u, -, h⟩ := h
    cases h
    cases hl
  | cpu d ans' =>
    simp only [next, Option.ite_none_right_eq_some, Option.bind_eq_bind,
      Option.bind_eq_some_iff, Prod.exists] at h
    obtain ⟨hout, op, x, hop, u, hu, h⟩ := h
    cases h
    obtain ⟨rfl, rfl⟩ := label_cpu hl.symm
    obtain ⟨rfl, -⟩ := cpuRoutine_held hop
    obtain ⟨-, -, hdone⟩ := perform_frame hu
    exact ⟨rfl, hout, perform_timer hu, hdone, by simpa using hop⟩

-- ---------------------------------------------------------------------------
-- Leaving
-- ---------------------------------------------------------------------------

/-- The operations of a CPU that finds nothing to do and `done` set. -/
def exitOps : List (CpuOp P) := [.readDone true, .detachEvent]

inductive Leaving : List (CpuOp P) → Cpu P → Prop
  | recheck : c.pc = .recheck → c.proc = none → Leaving [] c
  | stopped : c.pc = .stopped → Leaving [.readDone true] c
  | exited : c.pc = .exited → Leaving exitOps c

theorem Leaving.isPrefix {c : Cpu P} (h : Leaving ops c) : ops <+: exitOps := by
  cases h with
  | recheck => exact List.nil_prefix
  | stopped => exact ⟨[.detachEvent], rfl⟩
  | exited => exact List.prefix_rfl

theorem Leaving.step {c c' : Cpu P} (h : Leaving ops c)
    (hop : cpuRoutine timeSlot finished c ans true = some (op, c')) : Leaving (ops ++ [op]) c' := by
  cases h with
  | recheck hpc hproc =>
    simp only [cpuRoutine, hpc, hproc] at hop
    cases hop
    exact .stopped rfl
  | stopped hpc =>
    simp only [cpuRoutine, hpc] at hop
    cases hop
    exact .exited rfl
  | exited hpc =>
    simp only [cpuRoutine, hpc] at hop
    cases hop

theorem done_step {s t : State cfg} (hs : Step mayMiss s e t) (hd : s.done = true) :
    t.done = true := by
  cases hs with
  | timer => exact hd
  | cpu _ _ _ hp =>
    obtain ⟨-, -, hdone⟩ := perform_frame hp
    simpa [hdone] using hd
  | ld _ _ hp =>
    obtain ⟨-, -, -, -, hdone, -⟩ := performLd_frame hp
    simp [hdone, hd]

theorem run_leaving {a : State cfg} (ha : Reachable (system mayMiss cfg) a) (hd : a.done = true)
    (h0 : Leaving [] (a.cpu c)) (h : Run ((system mayMiss cfg).after a) tr s) :
    Leaving (cpuOps c tr) (s.cpu c) := by
  have h0' : a.done = true ∧ Leaving (cpuOps c []) (a.cpu c) := ⟨hd, h0⟩
  refine (Run.after_invariant (P := fun tr s => s.done = true ∧ Leaving (cpuOps c tr) (s.cpu c))
    ha h0' ?_ h).2
  rintro tr s e t - ⟨hdone, ih⟩ ⟨b, hb⟩
  refine ⟨done_step (next_step hb) hdone, ?_⟩
  rw [cpuOps_append]
  rcases step_cpu (next_step hb) c with ⟨he, hc⟩ | ⟨ans, op, he, hop⟩
  · rw [he, hc]
    simpa using ih
  · rw [he]
    rw [hdone] at hop
    exact ih.step hop

def DoneSet (tr : List (Label cfg)) : Prop := ∃ now, .ld .setDone now ∈ tr

theorem run_done (h : Run (system mayMiss cfg) tr s) : DoneSet tr → s.done = true := by
  refine h.invariant (P := fun tr s => DoneSet tr → s.done = true) ?_ ?_
  · rintro _ _ ⟨now, hmem⟩
    cases hmem
  · rintro tr s e t - ih ⟨a, ha⟩ ⟨now, hmem⟩
    rcases List.mem_append.mp hmem with hmem | hmem
    · exact done_step (next_step ha) (ih ⟨now, hmem⟩)
    · obtain rfl := List.mem_singleton.mp hmem
      generalize hl : Label.ld .setDone now = l at ha
      cases next_step ha with
      | timer => cases hl
      | @cpu _ op => cases op <;> cases hl
      | ld _ _ hp =>
        cases hl
        cases hp
        rfl

-- ---------------------------------------------------------------------------
-- Idle CPUs
-- ---------------------------------------------------------------------------

/-- The action makes a CPU without a process find none at the top of its loop
although `done` is set. -/
def State.idles (s : State cfg) : Act cfg → Bool
  | .cpu c none => s.done && (s.cpu c).pc == .top && (s.cpu c).proc.isNone
  | _ => false

def busyNext (s : State cfg) (a : Act cfg) : Option (Label cfg × State cfg) :=
  if s.idles a then none else next true s a

def busySystem (cfg : Config) : System (State cfg) (Label cfg) := .ofNext (.start cfg) busyNext

theorem busy_simulates : Simulates (busySystem cfg) (system true cfg) id some where
  init _ h := h
  step s e t h := by
    obtain ⟨a, h⟩ := h
    unfold busyNext at h
    split at h
    · cases h
    · exact ⟨a, h⟩

theorem idles_iff {s : State cfg} (hd : s.done = true)
    (hop : cpuRoutine timeSlot finished (s.cpu c) ans done = some (.getProc none, x)) :
    s.idles (.cpu c none) = true ↔ (s.cpu c).pc = .top := by
  have hproc : (s.cpu c).pc = .top → (s.cpu c).proc = none := by
    intro hpc
    have hheld := (cpuRoutine_held hop).2.1
    simpa [Cpu.held, hpc] using hheld
  simp only [State.idles, hd, Bool.true_and, Bool.and_eq_true, beq_iff_eq,
    Option.isNone_iff_eq_none]
  exact ⟨fun h => h.1, fun h => ⟨h, hproc h⟩⟩

theorem leaving_of_null {c c' : Cpu P} (hpc : c.pc ≠ .top)
    (hop : cpuRoutine timeSlot finished c ans done = some (.getProc none, c')) : Leaving [] c' := by
  obtain ⟨hpc', hproc⟩ := cpuRoutine_control hop
  exact .recheck (hpc'.resolve_right fun h => hpc h.1) hproc

theorem leaving_enabled {s : State cfg} (hr : Reachable (system mayMiss cfg) s)
    (h : Leaving ops (s.cpu c)) :
    ops = exitOps ∨ (s.idles (.cpu c none) = false ∧ (next mayMiss s (.cpu c none)).isSome) := by
  have hctl := (reachable_control hr).cpu c
  have hout : (s.cpu c).pc ≠ .top → (s.cpu c).pc ≠ .exited →
      (s.timer.client (cpuSlot c)).pc = .outside := by
    intro htop hexit
    cases hpc : (s.timer.client (cpuSlot c)).pc with
    | outside => rfl
    | detached => exact absurd (hctl.detached.mp hpc) hexit
    | entered => exact absurd (hctl.inside (.inl hpc)) htop
    | checking => exact absurd (hctl.inside (.inr (.inl hpc))) htop
    | waiting => exact absurd (hctl.inside (.inr (.inr hpc))) htop
  cases h with
  | recheck hpc hproc =>
    refine .inr ⟨by simp [State.idles, hpc], ?_⟩
    simp [next, hout (by simp [hpc]) (by simp [hpc]), cpuRoutine, hpc, hproc, State.perform]
  | stopped hpc =>
    refine .inr ⟨by simp [State.idles, hpc], ?_⟩
    simp [next, hout (by simp [hpc]) (by simp [hpc]), cpuRoutine, hpc, State.perform,
      State.detachEvent, Timer.detachEvent]
  | exited => exact .inl rfl

theorem busy_after {a : State cfg} (h : Run ((busySystem cfg).after a) tr s) :
    Run ((system true cfg).after a) tr s := by
  simpa using (busy_simulates.after a).run h

theorem busy_leaving {a b : State cfg} (hr : Reachable (system true cfg) a) (hd : a.done = true)
    (hs : (busySystem cfg).step a (.cpu c (.getProc none)) b)
    (h : Run ((busySystem cfg).after b) tr s) : Leaving (cpuOps c tr) (s.cpu c) := by
  obtain ⟨act, hact⟩ := hs
  unfold busyNext at hact
  split at hact
  · cases hact
  · rename_i hidle
    obtain ⟨rfl, -, -, hdone, hop⟩ := next_getProc hact
    have hpc : (a.cpu c).pc ≠ .top := fun hpc => hidle ((idles_iff hd hop).mpr hpc)
    exact run_leaving (hr.step ⟨_, hact⟩) (hdone.trans hd) (leaving_of_null hpc hop) (busy_after h)

theorem freed_step {s t : State cfg} (hs : Step mayMiss s e t) (p : cfg.Pid) :
    s.freed p ≤ t.freed p := by
  cases hs with
  | timer => exact Nat.le_refl _
  | ld _ _ hp =>
    obtain ⟨-, -, -, hfreed, -⟩ := performLd_frame hp
    simp [hfreed]
  | @cpu _ op _ u _ _ _ hp =>
    have hplaces := perform_places p hp
    cases op with
    | free r => exact Nat.le.intro hplaces.2.symm
    | _ => exact Nat.le_of_eq hplaces.2.symm

theorem run_keeps {a : State cfg} (h : Run ((system mayMiss cfg).after a) tr s) :
    (a.done = true → s.done = true) ∧ ∀ p, a.freed p ≤ s.freed p := by
  refine h.invariant (P := fun _ s => (a.done = true → s.done = true) ∧
    ∀ p, a.freed p ≤ s.freed p) ?_ ?_
  · rintro _ rfl
    exact ⟨id, fun p => Nat.le_refl _⟩
  · rintro tr s e t - ⟨hdone, hfreed⟩ ⟨b, hb⟩
    exact ⟨fun hd => done_step (next_step hb) (hdone hd),
      fun p => Nat.le_trans (hfreed p) (freed_step (next_step hb) p)⟩

theorem null_of_freed {s t : State cfg} (hr : Reachable (system mayMiss cfg) s)
    (hf : ∀ p, 1 ≤ s.freed p) (h : next mayMiss s a = some (.cpu c (.getProc ans), t)) :
    ans = none := by
  have ho := reachable_owned hr
  cases ans with
  | none => rfl
  | some p =>
    have hnot := mentioned_not_freed ho (next_step h)
      (show (Label.cpu c (.getProc (some p))).Mentions p from rfl)
    have hp := hf p
    omega

/-- Whenever a CPU gets no process although `done` is set, what it does next is
the exit test and `detach_event`, and no more. -/
def StopsOnNull (tr : List (Label cfg)) : Prop :=
  ∀ c tr₁ tr₂, tr = tr₁ ++ .cpu c (.getProc none) :: tr₂ → DoneSet tr₁ → cpuOps c tr₂ <+: exitOps

theorem idle_nextSlot {s t : State cfg}
    (hs : next true s (.cpu c none) = some (.cpu c (.getProc none), t))
    (hpc : (s.cpu c).pc = .top) : ∃ u, next true t (.cpu c none) = some (.cpu c .nextSlot, u) := by
  obtain ⟨-, hout, htimer, -, hop⟩ := next_getProc hs
  have hslot : (t.cpu c).pc = .slot := by
    have hproc : (s.cpu c).proc = none := by simpa [Cpu.held, hpc] using (cpuRoutine_held hop).2.1
    simp only [cpuRoutine, hpc, hproc, Option.some.injEq, Prod.mk.injEq, true_and] at hop
    rw [← hop]
    rfl
  have hout' : (t.timer.client (cpuSlot c)).pc = .outside := by rw [htimer]; exact hout
  simp [next, hout', cpuRoutine, hslot, State.perform, State.callNextSlot,
    Timer.callNextSlot, State.label]

theorem stops_unless_idle (cfg : Config) :
    (∀ tr s, Run (busySystem cfg) tr s → StopsOnNull tr) ∧
    (∀ tr₁ c tr₂ s, Run (busySystem cfg) (tr₁ ++ .cpu c (.getProc none) :: tr₂) s → DoneSet tr₁ →
      cpuOps c tr₂ = exitOps ∨ (busyNext s (.cpu c none)).isSome) ∧
    (∀ s tr t, Reachable (busySystem cfg) s → s.done = true → (∀ p, s.freed p = 1) →
      Run ((busySystem cfg).after s) tr t →
      ∀ c tr₁ ans tr₂, tr = tr₁ ++ .cpu c (.getProc ans) :: tr₂ → ans = none ∧
        cpuOps c tr₂ <+: exitOps) ∧
    (∀ s c t, Reachable (system true cfg) s → s.done = true →
      next true s (.cpu c none) = some (.cpu c (.getProc none), t) →
      ((∀ tr u, Run ((system true cfg).after t) tr u → cpuOps c tr <+: exitOps) ↔
        s.idles (.cpu c none) = false)) := by
  have hleave : ∀ tr₁ c tr₂ s, Run (busySystem cfg) (tr₁ ++ .cpu c (.getProc none) :: tr₂) s →
      DoneSet tr₁ → Leaving (cpuOps c tr₂) (s.cpu c) := by
    intro tr₁ c tr₂ s h hd
    obtain ⟨a, b, hra, hab, hb⟩ := h.split
    have hra' : Run (system true cfg) tr₁ a := by simpa using busy_simulates.run hra
    exact busy_leaving hra'.reachable (run_done hra' hd) hab hb
  refine ⟨?_, ?_, ?_, ?_⟩
  · rintro tr s h c tr₁ tr₂ rfl hd
    exact (hleave tr₁ c tr₂ s h hd).isPrefix
  · intro tr₁ c tr₂ s h hd
    have hr : Reachable (system true cfg) s := busy_simulates.reachable h.reachable
    refine (leaving_enabled hr (hleave tr₁ c tr₂ s h hd)).imp id ?_
    rintro ⟨hidle, hsome⟩
    simpa [busyNext, hidle] using hsome
  · rintro s tr t ⟨tr₀, hs⟩ hd hf h c tr₁ ans tr₂ rfl
    obtain ⟨a, b, hra, hab, hb⟩ := h.split
    have hs' : Run (system true cfg) tr₀ s := by simpa using busy_simulates.run hs
    have hra' := (hs'.trans (busy_after hra)).reachable
    obtain ⟨hdone, hfreed⟩ := run_keeps (busy_after hra)
    obtain ⟨act, hact⟩ := busy_simulates.step _ _ _ hab
    obtain rfl := null_of_freed hra' (fun p => (hf p).symm.le.trans (hfreed p)) hact
    exact ⟨rfl, (busy_leaving hra' (hdone hd) hab hb).isPrefix⟩
  · intro s c t hr hd hs
    have hop := (next_getProc hs).2.2.2.2
    rw [← Bool.not_eq_true, idles_iff hd hop]
    constructor
    · intro hall hpc
      obtain ⟨u, hu⟩ := idle_nextSlot hs hpc
      have hrun : Run ((system true cfg).after t) [.cpu c .nextSlot] u := .step (.init rfl) ⟨_, hu⟩
      have hprefix := hall _ _ hrun
      simp [cpuOps, Label.cpuOp, exitOps] at hprefix
    · intro hpc tr u hrun
      have hdone := (next_getProc hs).2.2.2.1
      exact (run_leaving (hr.step ⟨_, hs⟩) (hdone.trans hd) (leaving_of_null hpc hop) hrun).isPrefix

/-- The loader adds the process, CPU 0 runs it, and both reach the next slot. -/
def firstSlot : List (Act (oneProcess 1)) :=
  [.ld, .ld, .ld, .ld, .cpu 0 (some 0), .cpu 0 none, .cpu 0 none]
    ++ [.timer (.client 0), .timer (.client 1)] ++ List.replicate 7 (.timer .timer)
    ++ [.timer (.client 0), .timer (.client 1)]

/-- The loader sets `done`; CPU 0 frees the process, finds no other and leaves. -/
def secondSlot : List (Act (oneProcess 1)) :=
  [.ld, .ld, .cpu 0 none, .cpu 0 none, .cpu 0 none]

/-- CPU 0 had the process in hand, so the schedule idles no CPU. -/
theorem stops_unless_idle_oneProcess :
    ∃ tr s, exec busyNext (firstSlot ++ secondSlot) (.start (oneProcess 1)) = some (tr, s) ∧
      (s.cpu 0).pc = .stopped ∧ StopsOnNull tr := by
  have hexec : ∃ tr s, exec busyNext (firstSlot ++ secondSlot)
      (.start (oneProcess 1)) = some (tr, s) ∧
      (s.cpu 0).pc = .stopped := ⟨_, _, rfl, rfl⟩
  obtain ⟨tr, s, hexec, hpc⟩ := hexec
  have hr : Run (busySystem (oneProcess 1)) tr s := run_exec hexec
  exact ⟨tr, s, hexec, hpc, (stops_unless_idle (oneProcess 1)).1 _ _ hr⟩

/-- The CPU `idle` never gets the process `p`. In slot 1 the loader sets `done`, the
CPU `busy` frees `p` and stops; `idle` finds nothing and calls `next_slot`. -/
def idleRun (busy idle : Fin 2) (p : (oneProcess 2).Pid) : List (Act (oneProcess 2)) :=
  [.ld, .ld, .ld, .ld, .cpu busy (some p), .cpu busy none, .cpu busy none, .cpu idle none,
    .cpu idle none]
    ++ (List.finRange 3).map (fun i => .timer (.client i)) ++ List.replicate 9 (.timer .timer)
    ++ (List.finRange 3).map (fun i => .timer (.client i))
    ++ [.ld, .ld, .ld, .cpu busy none, .cpu busy none, .cpu busy none, .cpu busy none,
      .cpu idle none, .cpu idle none]

def idleTrace (busy idle : Fin 2) (p : (oneProcess 2).Pid) : List (Label (oneProcess 2)) :=
  ((exec (next false) (idleRun busy idle p) (.start (oneProcess 2))).map Prod.fst).getD []

theorem idle_cpu_misses_done :
    ∃ s, exec (next false) (idleRun 0 1 0) (.start (oneProcess 2)) = some (idleTrace 0 1 0, s) ∧
      s.done = true ∧ s.freed 0 = 1 ∧ (s.cpu 0).pc = .exited ∧ ¬ StopsOnNull (idleTrace 0 1 0) := by
  refine ⟨_, rfl, rfl, rfl, rfl, ?_⟩
  intro h
  have hprefix := h 1 ((idleTrace 0 1 0).take 31) ((idleTrace 0 1 0).drop 32) rfl ⟨1, by decide⟩
  exact absurd hprefix (by decide)

end AssignmentOS.Os
