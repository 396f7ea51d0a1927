import AssignmentOS.Os.Ownership
import AssignmentOS.Os.Control

/-!
# What the CPUs leave behind

Between the loader's last `add_proc` and `done = 1` lies a tick, at which every
CPU is at the top of its loop. From then on a queued process is asked for by
some CPU before that CPU can leave (`Loaded`), so when all have left the queue
is empty.
-/

namespace AssignmentOS.Os

open Transition

variable {cfg : Config} {mayMiss : Bool}

/-- Nothing will be added any more, and the slot of the last arrival is over. -/
def Loaded (s : State cfg) : Prop :=
  match s.ld with
  | .loop i => i.val = cfg.numProcesses ∧ s.timer.currentTime = .ofNat s.ldClient.slot
  | .fin | .detach | .exited => True
  | _ => False

def Wanted (s : State cfg) : Prop := s.queued = 0 ∨ ∃ c, (s.cpu c).Asks

theorem wanted_cpu {s t : State cfg} (h : Wanted s)
    (hop : cpuRoutine cfg.timeSlot s.finished (s.cpu c) ans s.done = some (op, x))
    (hp : s.perform false c op = some t) :
    Wanted { t with cpu := Function.update t.cpu c x } := by
  have hcontrol := cpuRoutine_control hop
  have hheld := cpuRoutine_held hop
  obtain ⟨hcpu, -, -⟩ := perform_frame hp
  have hself : x.Asks → Wanted { t with cpu := Function.update t.cpu c x } := fun hx =>
    .inr ⟨c, by simpa using hx⟩
  -- A CPU that does not ask leaves the queue and the other CPUs alone.
  have hother : t.queued = s.queued → ¬ (s.cpu c).Asks →
      Wanted { t with cpu := Function.update t.cpu c x } := by
    intro hq hc
    rcases h with h | ⟨d, hd⟩
    · exact .inl (hq.trans h)
    · have hdc : d ≠ c := fun he => hc (he ▸ hd)
      exact .inr ⟨d, by simpa [hdc, hcpu] using hd⟩
  cases op with
  | getProc a =>
    obtain ⟨q, rfl, hq, hnone⟩ := getProc_some hp
    cases a with
    | none =>
      refine .inl ?_
      have hempty : s.queued = 0 := by simpa using hnone rfl
      simpa [hempty, eq_comm] using hq
    | some p =>
      refine hself ?_
      have hpc : x.pc = .recheck := by simpa using hcontrol.1
      simp [Cpu.Asks, hpc, hcontrol.2]
  | inspect p =>
    refine hself ?_
    have hproc : x.proc = some p := by simpa [Cpu.held, hcontrol] using hheld.2
    simp [Cpu.Asks, hcontrol, hproc]
  | nextSlot =>
    obtain ⟨-, rfl⟩ := hcontrol
    exact hself (by simp [Cpu.Asks])
  | free | putProc | run => exact hself (by simp [Cpu.Asks, hcontrol])
  | readDone d =>
    cases hp
    exact hother rfl (by simp [Cpu.Asks, hcontrol.1, hcontrol.2.1])
  | detachEvent =>
    obtain ⟨u, -, rfl⟩ := detachEvent_some hp
    exact hother rfl (by simp [Cpu.Asks, hcontrol.1])

theorem ofNat_succ_ne (k : Nat) : UInt64.ofNat k ≠ .ofNat (k + 1) := by
  rw [UInt64.ofNat_add]
  generalize UInt64.ofNat k = x
  grind

theorem loaded_ld {s t : State cfg} (hL : Timer.Lockstep T s.timer) (hpc : s.ldClient.pc = .outside)
    (hop : ldRoutine startTime now s.ld = some (op, l)) (hp : s.performLd op = some t)
    (h : Loaded { t with ld := l }) : Loaded s ∧ t.queued = s.queued := by
  obtain ⟨-, -, -, -, -, hq⟩ := performLd_frame hp
  obtain ⟨htime, -, hclient⟩ := performLd_client hp
  have hnow := currentTime_of_outside hL hpc
  unfold Loaded at h ⊢
  generalize s.ld = ld at hop ⊢
  cases ldRoutine_step hop with
  | leaveLoop => exact ⟨⟨rfl, hnow⟩, hq⟩
  | slot i =>
    have hslot : t.ldClient.slot = s.ldClient.slot + 1 := by
      rw [hclient]
      simp [Timer.Client.slot, Timer.Client.Inside, hpc]
    have htick : t.timer.currentTime = .ofNat t.ldClient.slot := h.2
    rw [hslot, show t.timer.currentTime = s.timer.currentTime from htime, hnow] at htick
    exact absurd htick (ofNat_succ_ne _)
  | setDone | detachEvent => exact ⟨trivial, hq⟩
  | load | early | due | waitSlot | addProc => cases h

theorem wanted_tick {s t : State cfg} (hcpus : 0 < cfg.numCpus)
    (hr : Reachable (system mayMiss cfg) s) (ht : next mayMiss s a = some (.timer .tick, t))
    (hdone : s.done = false) : Wanted t := by
  have hctl := (reachable_control hr).cpu ⟨0, hcpus⟩
  have hnot : ¬ (s.cpu ⟨0, hcpus⟩).Left := fun hl => by
    rw [(hctl.left hl).1] at hdone
    cases hdone
  have hatt : (s.cpuClient ⟨0, hcpus⟩).Undetached := fun hd => hnot (.inr (hctl.detached.mp hd))
  have htop := hctl.inside (tick_inside hr ht _ hatt).1
  obtain ⟨b, u, -, -, rfl⟩ := next_timer ht
  exact .inr ⟨⟨0, hcpus⟩, by simp [Cpu.Asks, htop]⟩

theorem added_of_done {s : State cfg} (h : Control s) (hd : s.done = true) :
    s.ld.added = cfg.numProcesses ∧ Loaded s := by
  unfold Loaded
  rcases h.ld.done.mp hd with hl | hl <;> rw [hl] <;> exact ⟨rfl, trivial⟩

theorem loaded_timer {s : State cfg} (hb : b.Internal = true)
    (hn : Timer.next s.timer b = some (e, u)) (he : e ≠ .tick)
    (h : Loaded { s with timer := u }) : Loaded s := by
  have htime := Timer.time_step (Timer.next_step hn) he
  have hslot := (Timer.internal_client hb hn ldSlot).1
  simp only [Loaded, State.ldClient, Timer.State.currentTime, htime, hslot] at h ⊢
  exact h

theorem wanted_timer {s t : State cfg} (hcpus : 0 < cfg.numCpus)
    (hr : Reachable (system false cfg) s) (h : Loaded s → Wanted s)
    (ht : next false s a = some (.timer e, t)) (hl : Loaded t) : Wanted t := by
  obtain ⟨b, u, hb, hn, rfl⟩ := next_timer ht
  by_cases hs : Loaded s
  · exact h hs
  · by_cases he : e = .tick
    · subst he
      refine wanted_tick hcpus hr ht (Bool.eq_false_iff.mpr fun hd => ?_)
      exact hs (added_of_done (reachable_control hr) hd).2
    · exact absurd (loaded_timer hb hn he hl) hs

theorem reachable_wanted (hcpus : 0 < cfg.numCpus) (h : Reachable (system false cfg) s) :
    Loaded s → Wanted s := by
  refine h.invariant (P := fun s => Loaded s → Wanted s) ?_ ?_
  · rintro _ rfl -
    exact .inl rfl
  · rintro s e t hr ih ⟨a, ha⟩ hl
    obtain ⟨T, hL⟩ := reachable_timer hr
    cases next_step ha with
    | timer => exact wanted_timer hcpus hr ih ha hl
    | @cpu _ op _ u c hpc hop hp =>
      obtain ⟨-, hld, -⟩ := perform_frame hp
      obtain ⟨htime, hother, -⟩ := perform_client hp
      have hclient : u.ldClient = s.ldClient := hother _ (cpuSlot_ne_ldSlot c).symm
      refine wanted_cpu (ih ?_) hop hp
      have hl' : Loaded u := hl
      simpa only [Loaded, hld, hclient, Timer.State.currentTime, htime] using hl'
    | ld hpc hop hp =>
      obtain ⟨hls, hq⟩ := loaded_ld hL hpc hop hp hl
      obtain ⟨hcpu, -⟩ := performLd_frame hp
      refine (ih hls).imp (fun h => hq.trans h) ?_
      rintro ⟨c, hc⟩
      exact ⟨c, by simpa [hcpu] using hc⟩

theorem no_process_abandoned (hcpus : 0 < cfg.numCpus) (h : Reachable (system false cfg) s) :
    (∀ c, (s.cpu c).Left → s.ld.added = cfg.numProcesses) ∧
    ((∀ c, (s.cpu c).Left) →
      s.queued = 0 ∧ ∀ p, s.freed p = 1 ∧ (s.pcb p).pc = (cfg.desc p).code.size) := by
  have hctl := reachable_control h
  refine ⟨fun c hc => (added_of_done hctl ((hctl.cpu c).left hc).1).1, fun hall => ?_⟩
  obtain ⟨hadded, hloaded⟩ := added_of_done hctl ((hctl.cpu ⟨0, hcpus⟩).left (hall _)).1
  have hq : s.queued = 0 := by
    refine (reachable_wanted hcpus h hloaded).resolve_right ?_
    rintro ⟨c, hstop, hexit, -⟩
    exact (hall c).elim hstop hexit
  have hfreed : ∀ p, s.freed p = 1 := by
    intro p
    have hplace := reachable_owned h p
    have hpend : s.pending p = 0 := by simp [State.pending, hadded]
    have hhold : s.holders p = 0 := by
      refine Finset.sum_eq_zero fun c _ => ?_
      have hproc := ((hctl.cpu c).left (hall c)).2
      rcases hall c with hpc | hpc <;> simp [Cpu.holds, Cpu.held, hpc, hproc]
    rw [hpend, hhold, hq] at hplace
    simpa using hplace
  refine ⟨hq, fun p => ⟨hfreed p, ?_⟩⟩
  obtain ⟨tr, hrun⟩ := h
  have htraced := run_traced hrun
  rw [htraced.freed p (by rw [hfreed p]; exact Nat.one_pos), htraced.code p]

theorem no_process_abandoned_twoProcesses :
    let cfg := twoProcesses ⟨.alloc, 16, 3, 0, 0⟩ ⟨.read, 3, 0, 0, 0⟩ ⟨.calc, 0, 0, 0, 0⟩
    ∃ tr s, exec (next false) toTheEnd (.start cfg) = some (tr, s) ∧
      (∀ c, (s.cpu c).Left) ∧ s.ld.added = 2 ∧ s.queued = 0 := by
  intro cfg
  obtain ⟨tr, s, hexec, hleft, -⟩ := twoProcesses_exec ⟨.alloc, 16, 3, 0, 0⟩ ⟨.read, 3, 0, 0, 0⟩
    ⟨.calc, 0, 0, 0, 0⟩
  have hr : Run (system false cfg) tr s := run_exec hexec
  have hall := no_process_abandoned (show 0 < cfg.numCpus from Nat.two_pos) hr.reachable
  exact ⟨tr, s, hexec, hleft, hall.1 0 (hleft 0), (hall.2 hleft).1⟩

end AssignmentOS.Os
