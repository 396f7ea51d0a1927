import AssignmentOS.Os.System

/-!
# Threads and their timer clients

Each thread is the client of one record. `Control` relates the place of a
thread in its program to the place of its client in the timer: inside
`next_slot` a CPU stands at the top of its loop, and a thread has detached
exactly when it has ended. The clock can tick only when every thread that has
not ended is inside `next_slot` (`Control.tick`).
-/

namespace AssignmentOS.Os

open Transition

variable {cfg : Config} {mayMiss : Bool}

def State.cpuClient (s : State cfg) (c : Fin cfg.numCpus) : Timer.Client :=
  s.timer.client (cpuSlot c)

def State.ldClient (s : State cfg) : Timer.Client := s.timer.client ldSlot

-- ---------------------------------------------------------------------------
-- What an operation does to the clients
-- ---------------------------------------------------------------------------

@[simp] def CpuOp.onClient (client : Timer.Client) : CpuOp P → Timer.Client
  | .nextSlot => { client with pc := .entered }
  | .detachEvent => { client with pc := .detached }
  | _ => client

@[simp] def LdOp.onClient (client : Timer.Client) : LdOp m → Timer.Client
  | .nextSlot => { client with pc := .entered }
  | .detachEvent => { client with pc := .detached }
  | _ => client

section
variable {s t : State cfg} {c : Fin cfg.numCpus}

theorem perform_client (h : s.perform mayMiss c op = some t) :
    t.timer.time = s.timer.time ∧ (∀ i ≠ cpuSlot c, t.timer.client i = s.timer.client i) ∧
      t.cpuClient c = op.onClient (s.cpuClient c) := by
  have ht := perform_timer h
  simp only [State.cpuClient, CpuOp.onClient]
  cases op with
  | nextSlot =>
    obtain ⟨-, hu⟩ := Timer.next_call ht
    rw [hu]
    exact ⟨rfl, fun i hi => by simp [hi], by simp⟩
  | detachEvent =>
    obtain ⟨-, hu, htime⟩ := Timer.next_detach ht
    rw [hu]
    exact ⟨htime, fun i hi => by simp [hi], by simp⟩
  | _ =>
    simp only at ht
    rw [ht]
    exact ⟨rfl, fun _ _ => rfl, rfl⟩

theorem performLd_client (h : s.performLd op = some t) :
    t.timer.time = s.timer.time ∧ (∀ i ≠ ldSlot, t.timer.client i = s.timer.client i) ∧
      t.ldClient = op.onClient s.ldClient := by
  have ht := performLd_timer h
  simp only [State.ldClient, LdOp.onClient]
  cases op with
  | nextSlot =>
    obtain ⟨-, hu⟩ := Timer.next_call ht
    rw [hu]
    exact ⟨rfl, fun i hi => by simp [hi], by simp⟩
  | detachEvent =>
    obtain ⟨-, hu, htime⟩ := Timer.next_detach ht
    rw [hu]
    exact ⟨htime, fun i hi => by simp [hi], by simp⟩
  | _ =>
    simp only at ht
    rw [ht]
    exact ⟨rfl, fun _ _ => rfl, rfl⟩

end

-- ---------------------------------------------------------------------------
-- One thread and its client
-- ---------------------------------------------------------------------------

def Ld.Over (l : Ld m) : Prop := l = .detach ∨ l = .exited

structure CpuControl (client : Timer.Client) (c : Cpu P) (done : Bool) : Prop where
  inside : client.Inside → c.pc = .top
  detached : client.pc = .detached ↔ c.pc = .exited
  left : c.Left → done = true ∧ c.proc = none

structure LdControl (client : Timer.Client) (l : Ld m) (done : Bool) : Prop where
  inside : client.Inside → (∃ i, l = .wait i) ∨ ∃ i, l = .loop i
  detached : client.pc = .detached ↔ l = .exited
  done : done = true ↔ l.Over

theorem CpuControl.step {c c' : Cpu P} {done : Bool} (h : CpuControl client c done)
    (hpc : client.pc = .outside) (hop : cpuRoutine timeSlot finished c ans done = some (op, c')) :
    CpuControl (op.onClient client) c' done := by
  have hcontrol := cpuRoutine_control hop
  cases op with
  | nextSlot =>
    obtain ⟨-, rfl⟩ := hcontrol
    exact ⟨fun _ => rfl, by simp, by simp [Cpu.Left]⟩
  | detachEvent =>
    obtain ⟨hc, rfl⟩ := hcontrol
    exact ⟨by simp [Timer.Client.Inside], by simp, fun _ => h.left (.inl hc)⟩
  | readDone d =>
    obtain ⟨-, hproc, rfl⟩ := hcontrol
    obtain ⟨rfl, -⟩ := cpuRoutine_held hop
    refine ⟨by simp [Timer.Client.Inside, hpc], ?_, ?_⟩
    · cases d <;> simp [hpc]
    · cases d <;> simp [Cpu.Left, hproc]
  | getProc a =>
    have hc' : c'.pc = .recheck ∨ c'.pc = .slot := hcontrol.1.imp id fun h => h.2.2
    refine ⟨by simp [Timer.Client.Inside, hpc], ?_, ?_⟩
    · rcases hc' with hc' | hc' <;> simp [hpc, hc']
    · rcases hc' with hc' | hc' <;> simp [Cpu.Left, hc']
  | _ =>
    refine ⟨by simp [Timer.Client.Inside, hpc], by simp [hpc, hcontrol],
      by simp [Cpu.Left, hcontrol]⟩

theorem CpuControl.mono {c : Cpu P} {done done' : Bool} (h : CpuControl client c done)
    (hd : done = true → done' = true) :
    CpuControl client c done' :=
  ⟨h.inside, h.detached, fun hl => (h.left hl).imp hd id⟩

theorem CpuControl.internal {c : Cpu P} {done : Bool} (h : CpuControl client c done)
    (hin : client'.Inside → client.Inside) (hd : client'.pc = .detached ↔ client.pc = .detached) :
    CpuControl client' c done :=
  ⟨fun hi => h.inside (hin hi), hd.trans h.detached, h.left⟩

theorem LdControl.step {l l' : Ld m} {done : Bool} (h : LdControl client l done)
    (hpc : client.pc = .outside) (hop : ldRoutine startTime now l = some (op, l')) :
    LdControl (op.onClient client) l' (done || op == .setDone) := by
  have hdone := h.done
  have hnot : ¬ client.Inside := by simp [Timer.Client.Inside, hpc]
  cases ldRoutine_step hop with
  | load | leaveLoop | early | due | addProc =>
    exact ⟨fun hi => absurd hi hnot, by simp [hpc], by simpa [Ld.Over] using hdone⟩
  | waitSlot i => exact ⟨fun _ => .inl ⟨i, rfl⟩, by simp, by simpa [Ld.Over] using hdone⟩
  | slot i => exact ⟨fun _ => .inr ⟨i.succ, rfl⟩, by simp, by simpa [Ld.Over] using hdone⟩
  | setDone => exact ⟨fun hi => absurd hi hnot, by simp [hpc], by simp [Ld.Over]⟩
  | detachEvent => exact ⟨by simp [Timer.Client.Inside], by simp, by simpa [Ld.Over] using hdone⟩

-- ---------------------------------------------------------------------------
-- All threads
-- ---------------------------------------------------------------------------

structure Control (s : State cfg) : Prop where
  cpu : ∀ c, CpuControl (s.cpuClient c) (s.cpu c) s.done
  ld : LdControl s.ldClient s.ld s.done

theorem control_start : Control (State.start cfg) where
  cpu c :=
    { inside := by rintro (h | h | h) <;> cases h
      detached := ⟨(nomatch ·), (nomatch ·)⟩
      left := by rintro (h | h) <;> cases h }
  ld :=
    { inside := by rintro (h | h | h) <;> cases h
      detached := ⟨(nomatch ·), (nomatch ·)⟩
      done := ⟨(nomatch ·), by rintro (h | h) <;> cases h⟩ }

theorem Control.step {s t : State cfg} (h : Control s) (hs : Step mayMiss s e t) : Control t := by
  cases hs with
  | timer ha hn =>
    have hclient := Timer.internal_client ha hn
    exact ⟨fun c => (h.cpu c).internal (hclient _).2.1 (hclient _).2.2,
      ⟨fun hi => h.ld.inside ((hclient _).2.1 hi), (hclient _).2.2.trans h.ld.detached, h.ld.done⟩⟩
  | @cpu ans op x u c hpc hop hp =>
    obtain ⟨-, hother, hown⟩ := perform_client hp
    obtain ⟨hcpu, hld, hdone⟩ := perform_frame hp
    refine ⟨fun d => ?_, ?_⟩
    · by_cases hd : d = c
      · subst hd
        have hstep := (h.cpu d).step hpc hop
        rw [← hown, ← hdone] at hstep
        simpa [State.cpuClient] using hstep
      · have hkeep := h.cpu d
        rw [← hdone] at hkeep
        have hother' : u.cpuClient d = s.cpuClient d := hother _ (by simpa using hd)
        rw [← hother', ← hcpu] at hkeep
        simpa [State.cpuClient, hd] using hkeep
    · have hkeep := h.ld
      rw [← hdone, ← hld] at hkeep
      have hother' : u.ldClient = s.ldClient := hother _ (cpuSlot_ne_ldSlot c).symm
      rw [← hother'] at hkeep
      exact hkeep
  | @ld op l u hpc hop hp =>
    obtain ⟨-, hother, hown⟩ := performLd_client hp
    obtain ⟨hcpu, -, -, -, hdone, -⟩ := performLd_frame hp
    refine ⟨fun d => ?_, ?_⟩
    · have hother' : u.cpuClient d = s.cpuClient d := hother _ (cpuSlot_ne_ldSlot d)
      have hkeep := (h.cpu d).mono (show s.done = true → u.done = true by simp +contextual [hdone])
      rw [← hother', ← hcpu] at hkeep
      exact hkeep
    · have hstep := h.ld.step hpc hop
      rw [← hown, ← hdone] at hstep
      exact hstep

theorem reachable_control (h : Reachable (system mayMiss cfg) s) : Control s := by
  refine h.invariant (P := Control) ?_ ?_
  · rintro _ rfl
    exact control_start
  · rintro s e t _ ih ⟨a, ha⟩
    exact ih.step (next_step ha)

theorem currentTime_of_outside {s : State cfg} (h : Timer.Lockstep T s.timer)
    (hpc : s.ldClient.pc = .outside) : s.timer.currentTime = .ofNat s.ldClient.slot := by
  have hslot : s.ldClient.slot = s.ldClient.calls := by
    simp [Timer.Client.slot, Timer.Client.Inside, hpc]
  rw [hslot]
  exact ((Timer.client_sees_time h ldSlot).1 hpc).2

/-- At a tick every thread that has not ended is inside `next_slot`, and the
clock moves to the slot it waits for. -/
theorem tick_inside {s t : State cfg} (h : Reachable (system mayMiss cfg) s)
    (ht : next mayMiss s a = some (.timer .tick, t)) (i : cfg.Slot)
    (hi : (s.timer.client i).Undetached) :
    (s.timer.client i).Inside ∧ t.timer.currentTime = .ofNat (s.timer.client i).slot := by
  obtain ⟨T, hL⟩ := reachable_timer h
  obtain ⟨b, u, -, hn, rfl⟩ := next_timer ht
  have hag := hL.agrees i
  rw [Timer.next_tick hn i] at hag
  obtain ⟨hin, -, hcalls⟩ := hag.counted hi
  refine ⟨hin, ?_⟩
  simp only [Timer.Client.slot, hin, if_true, hcalls]
  exact (hL.step (Timer.next_step hn)).time

end AssignmentOS.Os
