import AssignmentOS.Cpu.Machine
import AssignmentOS.Os.Slot

/-!
# Processes as they are scheduled

The calls of `run` in a run of the whole system, made on a machine. Which CPU
makes them and in which slot does not matter: a process finds its symbol table as
if it had been executed alone, and whether something undefined happens depends on
what has been executed.
-/

namespace AssignmentOS.Cpu

open Transition Mm Os

variable {cfg : Config} {mayMiss : Bool}

def called (tr : List (Label cfg)) : List cfg.Pid := (runs tr).map Prod.snd

theorem called_append (tr : List (Label cfg)) (e : Label cfg) :
    called (tr ++ [e]) = called tr ++ (e.runs.map Prod.snd).toList := by
  rw [called, runs_append, List.map_append]
  cases e.runs <;> rfl

theorem step_pcb {s t : State cfg} (h : Step mayMiss s e t) (p : cfg.Pid) :
    t.pcb p = Pcb.advance^[(e.runs.map Prod.snd).toList.count p] (s.pcb p) := by
  cases h with
  | timer => rfl
  | @cpu _ op _ _ c _ _ hp =>
    show State.pcb _ p = _
    rw [perform_pcb hp, label_runs]
    cases op with
    | run r =>
      by_cases hp : p = r
      · subst hp
        simp
      · simp [Function.update_of_ne hp, Ne.symm hp]
    | _ => rfl
  | ld _ _ hp => exact congrFun (performLd_frame hp).2.2.1 p

theorem run_pcb (h : Run (system mayMiss cfg) tr s) (p : cfg.Pid) :
    s.pcb p = Pcb.advance^[(called tr).count p] ((State.start cfg).pcb p) := by
  refine h.invariant
    (P := fun tr s => s.pcb p = Pcb.advance^[(called tr).count p] ((State.start cfg).pcb p)) ?_ ?_
  · rintro _ rfl
    rfl
  · rintro tr s e t - ih ⟨a, ha⟩
    rw [step_pcb (next_step ha) p, ih, ← Function.iterate_add_apply, called_append,
      List.count_append, Nat.add_comm]

section
variable {B : Board} {c : Account cfg.Pid} {m : Machine cfg.Pid} {s : State cfg}

theorem executed_eq (h : Run (system mayMiss cfg) tr s) (p : cfg.Pid) :
    (rest ((State.start cfg).pcb p)).take ((called tr).count p) = (s.pcb p).executed := by
  rw [run_pcb h p, iterate_executed]
  rfl

/-- Whatever the schedule: nothing undefined happens exactly if every instruction executed so far is
safe, and then each process has the program counter of the run and the symbol table that its own
instructions make. -/
theorem schedule_transparent (h : Run (system mayMiss cfg) tr s) (hd : c.Describes B m)
    (hstart : m.pcb = (State.start cfg).pcb) (order : List (cfg.Pid × Env))
    (horder : order.map Prod.fst = called tr) :
    ((∃ r, m.runs B.caller order = .ok r) ↔
        ∀ p, ∀ ins ∈ (s.pcb p).executed, Safe B (c.free B.mram) (m.mm p).mmap ins) ∧
      ∀ stats m', m.runs B.caller order = .ok (stats, m') →
        m'.pcb = s.pcb ∧ (c.runs B order).2.Describes B m' ∧
        ∀ p, { m'.mm p with fifoPgn := none } =
          (s.pcb p).executed.foldl (fun mm ins => onSymbols ins mm)
          { m.mm p with fifoPgn := none } := by
  have hallowed : Allowed B (c.free B.mram) (fun p => (m.mm p).mmap) m.pcb (order.map Prod.fst) ↔
      ∀ p, ∀ ins ∈ (s.pcb p).executed, Safe B (c.free B.mram) (m.mm p).mmap ins := by
    simp only [Allowed, hstart, horder, executed_eq h]
  refine ⟨⟨fun ⟨r, hr⟩ => hallowed.1 (allowed_of_runs hd order hr), fun hsafe => ?_⟩,
    fun stats m' hruns => ?_⟩
  · obtain ⟨m', hruns, -⟩ := runs_describes hd order (hallowed.2 hsafe)
    exact ⟨_, hruns⟩
  · obtain ⟨-, hd'⟩ := runs_account hd order hruns
    refine ⟨funext fun p => ?_, hd', fun p => ?_⟩
    · have hpcb := alone_pcb ((order.map Prod.fst).count p)
        { m.mm p with fifoPgn := none } (m.pcb p)
      rw [describes_alone hd order p hruns, horder, hstart] at hpcb
      exact hpcb.trans (run_pcb h p).symm
    · have hmm := alone_mm ((order.map Prod.fst).count p) { m.mm p with fifoPgn := none } (m.pcb p)
      rw [describes_alone hd order p hruns, horder, hstart, executed_eq h] at hmm
      exact hmm

end

/-- ALLOC and READ of one process on two CPUs, and between them the other writes 200 to the RAM. -/
theorem schedule_transparent_twoProcesses :
    let cfg := twoProcesses ⟨.alloc, 16, 3, 0, 0⟩ ⟨.read, 3, 0, 0, 0⟩ ⟨.syscall, 17, 5, 300, 200⟩
    ∃ devs frames tr s stats m', exec (Os.next false) twoSlots (.start cfg) = some (tr, s) ∧
      (started devs frames twoAreas Fin.val fun p => (cfg.desc p).code).runs ⟨some 0, some 1⟩
        [(0, .filled 0), (1, .filled 0), (0, .filled 0)] = .ok (stats, m') ∧
      m'.pcb = s.pcb ∧ byteAt m'.devs 0 300 = some (-56) := by
  intro cfg
  obtain ⟨devs, frames, -, hstored⟩ := two_stored
  obtain ⟨tr, s, hexec, hcalled, hfirst, hother⟩ : ∃ tr s,
      exec (Os.next false) twoSlots (.start cfg) = some (tr, s) ∧ called tr = [0, 1, 0] ∧
        (s.pcb 0).executed = (twoPrograms false).text ∧
          (s.pcb 1).executed = (twoPrograms true).text :=
    ⟨_, _, rfl, rfl, rfl, rfl⟩
  have hareas : ∀ p : cfg.Pid, twoAreas.cell p.val = some ⟨0, 0, 0, 0, some 0, none⟩ :=
    Fin.forall_fin_two.mpr ⟨rfl, rfl⟩
  have hd := started_describes hstored twoAreas Fin.val hareas fun p => (cfg.desc p).code
  have hr : Run (system false cfg) tr s := run_exec hexec
  obtain ⟨hiff, hout⟩ := schedule_transparent hr hd rfl
    [(0, .filled 0), (1, .filled 0), (0, .filled 0)]
    hcalled.symm
  obtain ⟨⟨stats, m'⟩, hruns⟩ := hiff.2 (Fin.forall_fin_two.mpr
    ⟨hfirst ▸ twoPrograms_safe _ (Option.some_ne_none _) false,
      hother ▸ twoPrograms_safe _ (Option.some_ne_none _) true⟩)
  obtain ⟨hpcb, hd', -⟩ := hout stats m' hruns
  refine ⟨devs, frames, tr, s, stats, m', hexec, hruns, hpcb, ?_⟩
  exact hd'.stored.holds.ramBytes 300 (by decide) (show (300 : Int) < 512 by decide)

end AssignmentOS.Cpu
