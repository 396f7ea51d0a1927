import AssignmentOS.Os.Progress
import AssignmentOS.Os.Sched

/-!
# The system as it is shipped

With the bodies in `queue.c` and `sched.c` still to be written, `get_proc` returns
`NULL`. Then no CPU ever executes an instruction or leaves its loop, so the clock
runs on for ever with every process where the loader has put it (`shipped_idles`).
-/

namespace AssignmentOS.Os

open Transition

variable {cfg : Config}

/-- The system with the `get_proc` of `sched.c`. -/
def shippedNext (s : State cfg) : Act cfg → Option (Label cfg × State cfg)
  | .cpu c _ => next true s (.cpu c getProc)
  | a => next true s a

def shippedSystem (cfg : Config) :
    System (State cfg) (Label cfg) := .ofNext (.start cfg) shippedNext

theorem shipped_simulates : Simulates (shippedSystem cfg) (system true cfg) id some where
  init _ h := h
  step s e t h := by
    obtain ⟨a, h⟩ := h
    cases a with
    | cpu c => exact ⟨.cpu c getProc, h⟩
    | timer a => exact ⟨.timer a, h⟩
    | ld => exact ⟨.ld, h⟩

theorem shipped_run (h : Run (shippedSystem cfg) tr s) : Run (system true cfg) tr s := by
  simpa using shipped_simulates.run h

def Cpu.Idles (c : Cpu P) : Prop := c.proc = none ∧ (c.pc = .top ∨ c.pc = .slot)

theorem Cpu.Idles.step {c c' : Cpu P} (h : c.Idles)
    (hop : cpuRoutine timeSlot finished c getProc done = some (op, c')) :
    c'.Idles ∧ (op = .getProc none ∨ op = .nextSlot) := by
  obtain ⟨hproc, hpc | hpc⟩ := h
  · simp only [cpuRoutine, hpc, hproc] at hop
    cases hop
    exact ⟨⟨rfl, .inr rfl⟩, .inl rfl⟩
  · simp only [cpuRoutine, hpc] at hop
    cases hop
    exact ⟨⟨hproc, .inl rfl⟩, .inr rfl⟩

structure Idling (tr : List (Label cfg)) (s : State cfg) : Prop where
  cpu : ∀ c, (s.cpu c).Idles
  pcb : s.pcb = (State.start cfg).pcb
  freed : ∀ p, s.freed p = 0
  runs : runs tr = []

theorem Idling.step {s t : State cfg} (h : Idling tr s) (hs : shippedNext s a = some (e, t)) :
    Idling (tr ++ [e]) t := by
  cases a with
  | timer a =>
    simp only [shippedNext, next, Option.ite_none_right_eq_some, Option.map_eq_some_iff] at hs
    obtain ⟨-, ⟨ev, u⟩, -, hs⟩ := hs
    cases hs
    exact ⟨h.cpu, h.pcb, h.freed, by rw [runs_append, h.runs]; rfl⟩
  | ld =>
    simp only [shippedNext, next, Option.ite_none_right_eq_some, Option.bind_eq_bind,
      Option.bind_eq_some_iff, Prod.exists] at hs
    obtain ⟨-, op, l, -, u, hu, hs⟩ := hs
    cases hs
    obtain ⟨hcpu, -, hpcb, hfreed, -⟩ := performLd_frame hu
    exact ⟨fun c => hcpu ▸ h.cpu c, hpcb.trans h.pcb, fun p => hfreed ▸ h.freed p,
      by rw [runs_append, h.runs]; rfl⟩
  | cpu c ans =>
    simp only [shippedNext, next, Option.ite_none_right_eq_some, Option.bind_eq_bind,
      Option.bind_eq_some_iff, Prod.exists] at hs
    obtain ⟨-, op, x, hop, u, hu, hs⟩ := hs
    cases hs
    obtain ⟨hx, hop'⟩ := (h.cpu c).step hop
    obtain ⟨hcpu, -, -⟩ := perform_frame hu
    have hkeep : u.pcb = s.pcb ∧ u.freed = s.freed := by
      rcases hop' with rfl | rfl
      · have hg : s.getProc true none = some u := hu
        obtain ⟨q, rfl, -⟩ := getProc_some hg
        exact ⟨rfl, rfl⟩
      · obtain ⟨u', -, rfl⟩ := callNextSlot_some hu
        exact ⟨rfl, rfl⟩
    refine ⟨fun d => ?_, hkeep.1.trans h.pcb, fun p => hkeep.2 ▸ h.freed p, ?_⟩
    · by_cases hd : d = c
      · subst hd
        simpa using hx
      · simpa [hd, hcpu] using h.cpu d
    · rw [runs_append, h.runs]
      rcases hop' with rfl | rfl <;> rfl

theorem run_idling (h : Run (shippedSystem cfg) tr s) : Idling tr s := by
  refine h.invariant (P := Idling) ?_ ?_
  · rintro _ rfl
    exact ⟨fun c => ⟨rfl, .inl rfl⟩, rfl, fun p => rfl, rfl⟩
  · rintro tr s e t - ih ⟨a, ha⟩
    exact ih.step ha

/-- It can always go on without a spurious wake-up. -/
theorem shipped_enabled (hcpus : 0 < cfg.numCpus) (h : Run (shippedSystem cfg) tr s) :
    ∃ a e t, shippedNext s a = some (e, t) ∧ e.unpaid = 0 := by
  have hnull : s.getProc true none = some s := by simp [State.getProc]
  have hstuck := never_stuck (shipped_run h).reachable hnull
  obtain ⟨a, e, t, ha, hpaid, hans⟩ := hstuck.resolve_left fun hended => by
    have hpc := hended.1 ⟨0, hcpus⟩
    rcases ((run_idling h).cpu ⟨0, hcpus⟩).2 with htop | hslot
    · rw [htop] at hpc
      cases hpc
    · rw [hslot] at hpc
      cases hpc
  refine ⟨a, e, t, ?_, hpaid⟩
  cases a with
  | cpu c ans =>
    obtain rfl := hans c ans rfl
    exact ha
  | timer a => exact ha
  | ld => exact ha

theorem shipped_goes_on (hcpus : 0 < cfg.numCpus) (h : Run (shippedSystem cfg) tr s) (k : Nat) :
    ∃ tr' t, Run (shippedSystem cfg) (tr ++ tr') t ∧ tr'.length = k ∧ unpaid tr' = 0 := by
  induction k with
  | zero => exact ⟨[], s, by simpa using h, rfl, rfl⟩
  | succ k ih =>
    obtain ⟨tr', t, hrun, hlen, hpaid⟩ := ih
    obtain ⟨a, e, u, ha, he⟩ := shipped_enabled hcpus hrun
    refine ⟨tr' ++ [e], u, ?_, by simp [hlen], ?_⟩
    · simpa using hrun.step ⟨a, ha⟩
    · simpa [unpaid, he] using hpaid

theorem unpaid_append (tr tr' : List (Label cfg)) :
    unpaid (tr ++ tr') = unpaid tr + unpaid tr' := by
  simp [unpaid]

/-- Nothing is executed and nobody leaves, however long the clock ticks, and it ticks for ever. -/
theorem shipped_idles (hcpus : 0 < cfg.numCpus) (h : Run (shippedSystem cfg) tr s) :
    runs tr = [] ∧ (∀ c, ¬ (s.cpu c).Left) ∧ (∀ p, s.freed p = 0 ∧ (s.pcb p).pc = 0) ∧
    ∀ n, ∃ tr' t, Run (shippedSystem cfg) (tr ++ tr') t ∧ n ≤ ticks (tr ++ tr') := by
  have hidle := run_idling h
  refine ⟨hidle.runs, fun c hleft => ?_,
    fun p => ⟨hidle.freed p, by rw [hidle.pcb]; rfl⟩, fun n => ?_⟩
  · obtain ⟨-, hpc⟩ := hidle.cpu c
    rcases hleft with hl | hl <;> rw [hl] at hpc <;> simp at hpc
  · obtain ⟨tr', t, hrun, hlen, hpaid⟩ :=
      shipped_goes_on hcpus h (Timer.slotSteps (cfg.numCpus + 1) 4 * n + 2 * unpaid tr + 1)
    refine ⟨tr', t, hrun, ?_⟩
    have hbound := run_length_le (shipped_run hrun)
    rw [List.length_append, hlen, unpaid_append, hpaid] at hbound
    by_contra hlt
    have hmul := Nat.mul_le_mul_left (Timer.slotSteps (cfg.numCpus + 1) 4)
      (show ticks (tr ++ tr') + 1 ≤ n by omega)
    omega

theorem shipped_idles_oneProcess :
    ∃ tr t, Run (shippedSystem (oneProcess 1)) tr t ∧ 1000 ≤ ticks tr := by
  have hstart : Run (shippedSystem (oneProcess 1)) [] (.start (oneProcess 1)) := .init rfl
  obtain ⟨tr, t, hrun, hticks⟩ := (shipped_idles Nat.one_pos hstart).2.2.2 1000
  exact ⟨_, t, hrun, hticks⟩

end AssignmentOS.Os
