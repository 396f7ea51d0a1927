import AssignmentOS.Os.Slot
import AssignmentOS.Timer.Bound
import AssignmentOS.Timer.Progress

/-!
# The threads neither block nor run away

A thread makes at most four operations between two calls of `next_slot`, so a slot
of the whole system is over after boundedly many steps (`run_length_le`). As long
as a thread or the timer has not ended, one of them can take a step, whatever
`get_proc` answers (`never_stuck`).
-/

namespace AssignmentOS.Os

open Transition

variable {cfg : Config} {mayMiss : Bool}

-- ---------------------------------------------------------------------------
-- Operations left
-- ---------------------------------------------------------------------------

/-- The operations of a CPU up to its next call of `next_slot` or `detach_event`. -/
def CpuPc.left : CpuPc → Nat
  | .top => 4
  | .reload | .refetch => 3
  | .recheck => 2
  | .slot | .stopped => 1
  | .exited => 0

def Ld.left : Ld m → Nat
  | .loop _ => 4
  | .wait _ => 3
  | .add _ | .fin => 2
  | .waitSlot _ | .slot _ | .detach => 1
  | .exited => 0

def State.left (s : State cfg) : cfg.Slot → Nat :=
  Fin.cases s.ld.left fun i => (s.cpu i.rev).pc.left

section
variable {s t : State cfg}

theorem left_ldSlot (s : State cfg) : s.left ldSlot = s.ld.left := rfl

theorem left_cpuSlot (s : State cfg) (c : Fin cfg.numCpus) :
    s.left (cpuSlot c) = (s.cpu c).pc.left := by
  simp [State.left, cpuSlot]

theorem CpuPc.left_le (pc : CpuPc) : pc.left ≤ 4 := by
  cases pc <;> decide

theorem Ld.left_le (l : Ld m) : l.left ≤ 4 := by
  cases l <;> simp [left]

theorem left_le (s : State cfg) (i : cfg.Slot) : s.left i ≤ 4 := by
  cases i using Fin.cases with
  | zero => exact s.ld.left_le
  | succ i => exact CpuPc.left_le _

theorem slot_cases (i : cfg.Slot) : i = ldSlot ∨ ∃ c, i = cpuSlot c := by
  cases i using Fin.cases with
  | zero => exact .inl rfl
  | succ i => exact .inr ⟨i.rev, by simp [cpuSlot]⟩

theorem cpuRoutine_left {c c' : Cpu P}
    (h : cpuRoutine timeSlot finished c ans done = some (op, c')) :
    match op with
    | .nextSlot | .detachEvent => c.pc.left = 1
    | _ => c'.pc.left < c.pc.left := by
  cases cpuRoutine_step h with
  | first hpc => cases ans <;> simp [hpc, CpuPc.left]
  | readDone hpc => cases done <;> simp [hpc, CpuPc.left]
  | free hpc | putProc hpc | inspect hpc | reload hpc | refetch hpc | run hpc | nextSlot hpc
  | detachEvent hpc =>
    simp [hpc, CpuPc.left]

theorem ldRoutine_left {l l' : Ld m} (h : ldRoutine startTime now l = some (op, l')) :
    match op with
    | .nextSlot | .detachEvent => l.left = 1
    | _ => l'.left < l.left := by
  cases ldRoutine_step h <;> simp [Ld.left]

theorem left_withCpu (hcpu : t.cpu = s.cpu) (hld : t.ld = s.ld) (c : Fin cfg.numCpus)
    (x : Cpu cfg.Pid) :
    ∀ j, j ≠ cpuSlot c → State.left { t with cpu := Function.update t.cpu c x } j = s.left j := by
  intro j hj
  rcases slot_cases j with rfl | ⟨d, rfl⟩
  · simp only [left_ldSlot, hld]
  · have hd : d ≠ c := fun he => hj (congrArg cpuSlot he)
    simp only [left_cpuSlot, Function.update_of_ne hd, hcpu]

theorem left_withLd (hcpu : t.cpu = s.cpu) (l : Ld cfg.numProcesses) :
    ∀ j, j ≠ ldSlot → State.left { t with ld := l } j = s.left j := by
  intro j hj
  rcases slot_cases j with rfl | ⟨d, rfl⟩
  · exact absurd rfl hj
  · simp only [left_cpuSlot, hcpu]

-- ---------------------------------------------------------------------------
-- The length of a run
-- ---------------------------------------------------------------------------

def State.rank (s : State cfg) : Nat := s.timer.rank 4 s.left

def Label.gain (e : Label cfg) : Nat := (e.timerEvent.map (Timer.Event.gain 4)).getD 0

theorem rank_cpu (hpc : (s.timer.client (cpuSlot c)).pc = .outside)
    (hop : cpuRoutine cfg.timeSlot s.finished (s.cpu c) ans s.done = some (op, x))
    (hp : s.perform mayMiss c op = some t) :
    State.rank { t with cpu := Function.update t.cpu c x } + 1 ≤ s.rank := by
  obtain ⟨hcpu, hld, -⟩ := perform_frame hp
  have hother := left_withCpu hcpu hld c x
  have hleft := cpuRoutine_left hop
  have hself : State.left { t with cpu := Function.update t.cpu c x } (cpuSlot c) = x.pc.left := by
    simp [left_cpuSlot]
  have htimer := perform_timer hp
  have hlocal (ht : t.timer = s.timer) (hlt : x.pc.left < (s.cpu c).pc.left) :
      State.rank { t with cpu := Function.update t.cpu c x } + 1 ≤ s.rank := by
    have hrank := Timer.rank_outside 4 hpc hother ?_
    · simpa only [State.rank, ht] using hrank
    · rwa [hself, left_cpuSlot]
  cases op with
  | nextSlot =>
    refine Timer.rank_call (Timer.next_step htimer) hother ?_
    rw [left_cpuSlot, hleft]
    exact Nat.one_pos
  | detachEvent => exact Timer.rank_detach (Timer.next_step htimer) hother
  | getProc | inspect | free | putProc | readDone | run => exact hlocal htimer hleft

theorem rank_ld (hpc : (s.timer.client ldSlot).pc = .outside)
    (hop : ldRoutine startTime now s.ld = some (op, l)) (hp : s.performLd op = some t) :
    State.rank { t with ld := l } + 1 ≤ s.rank := by
  obtain ⟨hcpu, -⟩ := performLd_frame hp
  have hother := left_withLd hcpu l
  have hleft := ldRoutine_left hop
  have htimer := performLd_timer hp
  have hlocal (ht : t.timer = s.timer) (hlt : l.left < s.ld.left) :
      State.rank { t with ld := l } + 1 ≤ s.rank := by
    have hrank := Timer.rank_outside 4 hpc hother hlt
    simpa only [State.rank, ht] using hrank
  cases op with
  | nextSlot =>
    refine Timer.rank_call (Timer.next_step htimer) hother ?_
    rw [left_ldSlot, hleft]
    exact Nat.one_pos
  | detachEvent => exact Timer.rank_detach (Timer.next_step htimer) hother
  | load | leaveLoop | readTime | addProc | setDone => exact hlocal htimer hleft

theorem rank_step (h : Reachable (system mayMiss cfg) s) (hs : Step mayMiss s e t) :
    t.rank + 1 ≤ s.rank + e.gain := by
  obtain ⟨T, hL⟩ := reachable_timer h
  cases hs with
  | timer hi hn =>
    exact Timer.rank_internal hL (Timer.next_step hn) (Timer.internal_event hi hn) (left_le s)
  | cpu c hpc hop hp => exact Nat.le_add_right_of_le (rank_cpu hpc hop hp)
  | ld hpc hop hp => exact Nat.le_add_right_of_le (rank_ld hpc hop hp)

end

def Label.unpaid (e : Label cfg) : Nat := (e.timerEvent.map Timer.Event.unpaid).getD 0

def unpaid (tr : List (Label cfg)) : Nat := (tr.map Label.unpaid).sum

theorem sum_gain (tr : List (Label cfg)) :
    (tr.map Label.gain).sum = Timer.slotSteps (cfg.numCpus + 1) 4 * ticks tr + 2 * unpaid tr := by
  have hgain : (tr.map Label.gain).sum =
      ((tr.filterMap Label.timerEvent).map (Timer.Event.gain 4)).sum :=
    (sum_filterMap _ _ tr).symm
  have hunpaid : unpaid tr = Timer.unpaid (tr.filterMap Label.timerEvent) :=
    (sum_filterMap _ _ tr).symm
  rw [hgain, Timer.sum_gain, ticks, hunpaid]

theorem run_length_le (h : Run (system mayMiss cfg) tr s) :
    tr.length ≤ Timer.slotSteps (cfg.numCpus + 1) 4 * (ticks tr + 1) + 2 * unpaid tr := by
  have hlen : tr.length + s.rank ≤ Timer.slotSteps (cfg.numCpus + 1) 4 +
      (tr.map Label.gain).sum := by
    refine h.length_add_le ?_ ?_
    · rintro _ rfl
      exact Timer.rank_start (left_le _)
    · rintro s e t hr ⟨a, ha⟩
      exact rank_step hr (next_step ha)
  rw [sum_gain] at hlen
  rw [Nat.mul_succ]
  omega

-- ---------------------------------------------------------------------------
-- Never stuck
-- ---------------------------------------------------------------------------

def State.Ended (s : State cfg) : Prop :=
  (∀ c, (s.cpu c).pc = .exited) ∧ s.ld = .exited ∧ s.timer.timer = .exited

section
variable {s : State cfg}

theorem cpuRoutine_enabled {c : Cpu P} (timeSlot : Int) (finished : P → Bool) (hc : c.pc ≠ .exited)
    (ans : Option P) (done : Bool) :
    ∃ op x, cpuRoutine timeSlot finished c ans done = some (op, x) := by
  obtain ⟨pc, proc, timeLeft⟩ := c
  cases pc with
  | exited => exact absurd rfl hc
  | top =>
    cases proc with
    | none => exact ⟨_, _, rfl⟩
    | some p =>
      simp only [cpuRoutine]
      split
      · exact ⟨_, _, rfl⟩
      · split <;> exact ⟨_, _, rfl⟩
  | recheck => cases proc <;> exact ⟨_, _, rfl⟩
  | reload | refetch | slot | stopped => exact ⟨_, _, rfl⟩

theorem ldRoutine_enabled {l : Ld m} (hl : l ≠ .exited) (startTime : Fin m → UInt64)
    (now : UInt64) :
    ∃ op x, ldRoutine startTime now l = some (op, x) := by
  cases l with
  | exited => exact absurd rfl hl
  | loop i =>
    simp only [ldRoutine]
    split <;> exact ⟨_, _, rfl⟩
  | _ => exact ⟨_, _, rfl⟩

theorem getProc_enabled (mayMiss : Bool) (s : State cfg) :
    ∃ ans t, s.getProc mayMiss ans = some t := by
  by_cases hq : s.queued = 0
  · exact ⟨none, s, by simp [State.getProc, hq]⟩
  · obtain ⟨p, hp⟩ := Multiset.exists_mem_of_ne_zero hq
    exact ⟨some p, _, if_pos hp⟩

theorem callNextSlot_enabled {i : cfg.Slot} (hpc : (s.timer.client i).pc = .outside) :
    ∃ t, s.callNextSlot i = some t := by
  simp [State.callNextSlot, Timer.callNextSlot, hpc]

theorem detachEvent_enabled {i : cfg.Slot} (hpc : (s.timer.client i).pc = .outside) :
    ∃ t, s.detachEvent i = some t := by
  simp [State.detachEvent, Timer.detachEvent, hpc]

def State.Enabled (mayMiss : Bool) (s : State cfg) (ans : Option cfg.Pid) : Prop :=
  ∃ a e t, next mayMiss s a = some (e, t) ∧ e.unpaid = 0 ∧ ∀ c b, a = .cpu c b → b = ans

theorem cpu_enabled (hctl : Control s) (hans : s.getProc mayMiss ans = some u)
    (hpc : (s.cpuClient c).pc = .outside) : s.Enabled mayMiss ans := by
  have hne : (s.cpu c).pc ≠ .exited := fun he => by
    rw [(hctl.cpu c).detached.mpr he] at hpc
    cases hpc
  obtain ⟨op, x, hop⟩ := cpuRoutine_enabled cfg.timeSlot s.finished hne ans s.done
  have hperform : ∃ t, s.perform mayMiss c op = some t := by
    cases op with
    | getProc a =>
      obtain ⟨rfl, -⟩ := cpuRoutine_held hop
      exact ⟨u, hans⟩
    | nextSlot => exact callNextSlot_enabled hpc
    | detachEvent => exact detachEvent_enabled hpc
    | inspect | free | putProc | readDone | run => exact ⟨_, rfl⟩
  obtain ⟨t, ht⟩ := hperform
  have hpc' : (s.timer.client (cpuSlot c)).pc = .outside := hpc
  refine ⟨.cpu c ans, s.label c op, { t with cpu := Function.update t.cpu c x }, ?_, ?_, ?_⟩
  · simp [next, hpc', hop, ht]
  · cases op <;> rfl
  · rintro d b hb
    cases hb
    rfl

theorem ld_enabled (hctl : Control s) (hpc : s.ldClient.pc = .outside) (ans : Option cfg.Pid) :
    s.Enabled mayMiss ans := by
  have hne : s.ld ≠ .exited := fun he => by
    rw [hctl.ld.detached.mpr he] at hpc
    cases hpc
  obtain ⟨op, l, hop⟩ := ldRoutine_enabled hne (fun p => (cfg.desc p).startTime) s.timer.currentTime
  have hperform : ∃ t, s.performLd op = some t := by
    cases op with
    | nextSlot => exact callNextSlot_enabled hpc
    | detachEvent => exact detachEvent_enabled hpc
    | load | leaveLoop | readTime | addProc | setDone => exact ⟨_, rfl⟩
  obtain ⟨t, ht⟩ := hperform
  have hpc' : (s.timer.client ldSlot).pc = .outside := hpc
  refine ⟨.ld, .ld op s.timer.currentTime, { t with ld := l }, ?_, ?_, fun c b hb => nomatch hb⟩
  · simp [next, hpc', hop, ht]
  · cases op <;> rfl

theorem timer_enabled (hr : Reachable (system mayMiss cfg) s)
    (hout : ∀ i, (s.timer.client i).pc ≠ .outside) (hrun : s.timer.timer ≠ .exited)
    (ans : Option cfg.Pid) : s.Enabled mayMiss ans := by
  have hin : ∀ i, (s.timer.client i).Undetached → (s.timer.client i).Inside := by
    intro i hi
    have hi' := hout i
    unfold Timer.Client.Undetached at hi
    unfold Timer.Client.Inside
    cases hpc : (s.timer.client i).pc <;> simp_all
  have htimer : Reachable (Timer.system (cfg.numCpus + 1)) s.timer :=
    (simulates_timer mayMiss cfg).reachable hr
  rcases Timer.timerRoutine_enabled s.timer with he | ⟨k, fsh, event, hpc⟩ | hpc
  · obtain ⟨⟨e, u⟩, he⟩ := Option.isSome_iff_exists.mp he
    exact ⟨.timer .timer, .timer e, { s with timer := u },
      by simp [next, Timer.next, he, Timer.Act.Internal],
        Timer.timerRoutine_unpaid he, by rintro c b ⟨⟩⟩
  · obtain ⟨i, hi⟩ := Timer.sleeper_enabled htimer hpc hin
    obtain ⟨⟨e, u⟩, he⟩ := Option.isSome_iff_exists.mp hi
    exact ⟨.timer (.client i), .timer e, { s with timer := u },
      by simp [next, Timer.next, he, Timer.Act.Internal],
      Timer.nextSlot_unpaid he, by rintro c b ⟨⟩⟩
  · exact absurd hpc hrun

end

theorem never_stuck (h : Reachable (system mayMiss cfg) s) (hans : s.getProc mayMiss ans = some u) :
    s.Ended ∨ s.Enabled mayMiss ans := by
  have hctl := reachable_control h
  by_cases hout : ∃ i, (s.timer.client i).pc = .outside
  · obtain ⟨i, hi⟩ := hout
    rcases slot_cases i with rfl | ⟨c, rfl⟩
    · exact .inr (ld_enabled hctl hi ans)
    · exact .inr (cpu_enabled hctl hans hi)
  have hout' : ∀ i, (s.timer.client i).pc ≠ .outside := fun i hi => hout ⟨i, hi⟩
  by_cases hrun : s.timer.timer = .exited
  · have hprogress := Timer.reachable_progress ((simulates_timer mayMiss cfg).reachable h)
    have hpass := hprogress.pass
    rw [hrun] at hpass
    have hdet : ∀ i, (s.timer.client i).pc = .detached := fun i => (hprogress.fsh i).mp (hpass i)
    exact .inl ⟨fun c => (hctl.cpu c).detached.mp (hdet _), hctl.ld.detached.mp (hdet _), hrun⟩
  · exact .inr (timer_enabled h hout' hrun ans)

/-- No deadlock, and no run that goes on without the clock: steps beyond the bound are ticks,
spurious wake-ups or calls of `stop_timer`. -/
theorem keeps_ticking (h : Run (system mayMiss cfg) tr s) :
    (∀ ans, (s.getProc mayMiss ans).isSome → s.Ended ∨ s.Enabled mayMiss ans) ∧
    (∃ ans, (s.getProc mayMiss ans).isSome) ∧
    tr.length ≤ Timer.slotSteps (cfg.numCpus + 1) 4 * (ticks tr + 1) + 2 * unpaid tr := by
  refine ⟨fun ans hans => ?_, ?_, run_length_le h⟩
  · obtain ⟨u, hu⟩ := Option.isSome_iff_exists.mp hans
    exact never_stuck h.reachable hu
  · obtain ⟨ans, u, hu⟩ := getProc_enabled mayMiss s
    exact ⟨ans, by rw [hu]; rfl⟩

theorem keeps_ticking_twoProcesses :
    let cfg := twoProcesses ⟨.alloc, 16, 3, 0, 0⟩ ⟨.read, 3, 0, 0, 0⟩ ⟨.calc, 0, 0, 0, 0⟩
    ∃ tr s, exec (next false) twoSlots (.start cfg) = some (tr, s) ∧ ¬ s.Ended ∧
      ∃ ans, (s.getProc false ans).isSome ∧ s.Enabled false ans := by
  intro cfg
  obtain ⟨tr, s, hexec, hcpu⟩ : ∃ tr s, exec (next false) twoSlots (.start cfg) = some (tr, s) ∧
      (s.cpu 0).pc = .top := ⟨_, _, rfl, rfl⟩
  have hr : Run (system false cfg) tr s := run_exec hexec
  obtain ⟨hmoves, ⟨ans, hans⟩, -⟩ := keeps_ticking hr
  have hended : ¬ s.Ended := fun hended => by
    have hexit := hended.1 0
    rw [hcpu] at hexit
    cases hexit
  exact ⟨tr, s, hexec, hended, ans, hans, (hmoves ans hans).resolve_left hended⟩

end AssignmentOS.Os
