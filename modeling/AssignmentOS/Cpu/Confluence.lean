import Mathlib.Algebra.BigOperators.Ring.Finset
import AssignmentOS.Cpu.Machine

/-!
# Schedules with the same calls

How many frames of the swap a process takes is decided by its own instructions, and no call
puts one back. So schedules that call every process equally often leave the same
processes and the same free frames behind, and one returns if the other does
(`schedules_confluent`). What they may leave different is the storage.
-/

namespace AssignmentOS.Cpu

open Memory Fallible Mm

-- ---------------------------------------------------------------------------
-- What a process takes
-- ---------------------------------------------------------------------------

def takes (mm : MmStruct) (pcb : Pcb) : Nat := pcb.fetch.elim 0 fun r => misses mm r.1

def demand : (n : Nat) → MmStruct → Pcb → Nat
  | 0, _, _ => 0
  | n + 1, mm, pcb => takes mm pcb + demand n (turn mm pcb).2.1 (turn mm pcb).2.2

theorem takes_fifoPgn (mm : MmStruct) (pcb : Pcb) (head : Ptr) :
    takes { mm with fifoPgn := head } pcb = takes mm pcb := by
  unfold takes
  cases pcb.fetch with
  | none => rfl
  | some r => exact misses_fifoPgn mm head r.1

theorem demand_fifoPgn (n : Nat) (mm : MmStruct) (pcb : Pcb) (head : Ptr) :
    demand n { mm with fifoPgn := head } pcb = demand n mm pcb := by
  induction n generalizing mm pcb with
  | zero => rfl
  | succ n ih => simp only [demand, takes_fifoPgn, turn_fifoPgn, ih]

section
variable {P : Type} [DecidableEq P] {B : Board} {c : Account P}

theorem account_run_free (c : Account P) (p : P) (env : Env) :
    (c.run B p env).2.free = B.taken (takes (c.mm p) (c.pcb p)) c.free := by
  unfold Account.run outward takes
  cases (c.pcb p).fetch with
  | none => simp
  | some r => rfl

theorem account_run_own (c : Account P) (p : P) (env : Env) :
    (c.run B p env).2.mm p = (turn (c.mm p) (c.pcb p)).2.1 ∧
      (c.run B p env).2.pcb p = (turn (c.mm p) (c.pcb p)).2.2 := by
  simp [Account.run]

theorem account_run_other (c : Account P) (env : Env) (hq : q ≠ p) :
    (c.run B p env).2.mm q = c.mm q ∧ (c.run B p env).2.pcb q = c.pcb q := by
  simp [Account.run, Function.update_of_ne hq]

theorem account_runs_free [Fintype P] (c : Account P) (order : List (P × Env)) :
    (c.runs B order).2.free =
      B.taken (∑ p, demand ((order.map Prod.fst).count p) (c.mm p) (c.pcb p)) c.free := by
  induction order generalizing c with
  | nil => simp [Account.runs, demand]
  | cons x order ih =>
    obtain ⟨p, env⟩ := x
    have hsplit : ∀ q, demand (((p, env) :: order |>.map Prod.fst).count q) (c.mm q) (c.pcb q) =
        (if p = q then takes (c.mm q) (c.pcb q) else 0) +
          demand ((order.map Prod.fst).count q) ((c.run B p env).2.mm q)
            ((c.run B p env).2.pcb q) := by
      intro q
      by_cases hq : q = p
      · subst hq
        obtain ⟨hmm, hpcb⟩ := account_run_own (B := B) c q env
        rw [hmm, hpcb, if_pos rfl, List.map_cons, List.count_cons_self, demand]
      · obtain ⟨hmm, hpcb⟩ := account_run_other (B := B) c env hq
        rw [hmm, hpcb, if_neg (Ne.symm hq), List.map_cons,
          List.count_cons_of_ne (Ne.symm hq), Nat.zero_add]
    have hsum : ∑ q, demand (((p, env) :: order |>.map Prod.fst).count q) (c.mm q) (c.pcb q) =
        takes (c.mm p) (c.pcb p) +
          ∑ q, demand ((order.map Prod.fst).count q) ((c.run B p env).2.mm q)
            ((c.run B p env).2.pcb q) := by
      rw [Finset.sum_congr rfl fun q _ => hsplit q, Finset.sum_add_distrib, Finset.sum_ite_eq,
        if_pos (Finset.mem_univ p)]
    have hrest := ih (c.run B p env).2
    rw [account_run_free, B.taken_add, ← hsum] at hrest
    exact hrest

theorem allowed_perm {mmap : P → Ptr} {pcb : P → Pcb} (hperm : order.Perm order') :
    Allowed B ram mmap pcb order ↔ Allowed B ram mmap pcb order' := by
  simp only [Allowed, fun p => hperm.count_eq p]

/-- Schedules that call every process equally often: if one returns, so does the other, the
processes have got the same answers and are the same, and the same frames are free. Of the swap's
these are all but those that the processes have taken, each in its own instructions. -/
theorem schedules_confluent [Fintype P] {m : Machine P} (h : c.Describes B m)
    (hperm : (order.map Prod.fst).Perm (order'.map Prod.fst))
    (hruns : m.runs B.caller order = .ok (stats, t)) :
    ∃ stats' t', m.runs B.caller order' = .ok (stats', t') ∧
      (∀ p, answersTo p stats = answersTo p stats' ∧ t.pcb p = t'.pcb p ∧
        ({ t.mm p with fifoPgn := none } : MmStruct) = { t'.mm p with fifoPgn := none }) ∧
      ∃ free, Pools t.frames t.devs B.devices free ∧ Pools t'.frames t'.devs B.devices free ∧
        free = Function.update c.free B.activeMswp ((c.free B.activeMswp).drop
          (∑ p, demand ((order.map Prod.fst).count p) (m.mm p) (m.pcb p))) := by
  have hallowed := (allowed_perm hperm).1 (allowed_of_runs h order hruns)
  obtain ⟨t', hruns', ht'⟩ := runs_describes h order' hallowed
  obtain ⟨-, ht⟩ := runs_account h order hruns
  have hfree : (c.runs B order).2.free = (c.runs B order').2.free := by
    rw [account_runs_free, account_runs_free]
    simp only [fun p => hperm.count_eq p]
  refine ⟨_, t', hruns', fun p => ?_, (c.runs B order).2.free, ht.stored.pools, ?_, ?_⟩
  · have halone := describes_alone h order p hruns
    rw [hperm.count_eq p, describes_alone h order' p hruns'] at halone
    simp only [Prod.mk.injEq] at halone
    exact ⟨halone.1.symm, halone.2.2.symm, halone.2.1.symm⟩
  · rw [hfree]
    exact ht'.stored.pools
  · have hdemand : ∀ n p, demand n (m.mm p) (m.pcb p) = demand n (c.mm p) (c.pcb p) := fun n p => by
      rw [h.mm p, demand_fifoPgn, h.pcb]
    simp only [account_runs_free, hdemand]
    rfl

end

theorem schedules_confluent_two : ∃ devs frames stats t stats' t',
    (started devs frames twoAreas Bool.toNat twoPrograms).runs ⟨some 0, some 1⟩
      [(false, .filled 0), (true, .filled 0), (false, .filled 0)] = .ok (stats, t) ∧
    (started devs frames twoAreas Bool.toNat twoPrograms).runs ⟨some 0, some 1⟩
      [(true, .filled 7), (false, .filled 7), (false, .filled 7)] = .ok (stats', t') ∧
    ∀ p, answersTo p stats = answersTo p stats' ∧ t.pcb p = t'.pcb p := by
  obtain ⟨devs, frames, -, hstored⟩ := two_stored
  have hd := started_describes hstored twoAreas Bool.toNat (by decide) twoPrograms
  obtain ⟨t, hruns, -⟩ := runs_describes hd
    [(false, .filled 0), (true, .filled 0), (false, .filled 0)]
    fun b ins hins => twoPrograms_safe _ (Option.some_ne_none _) b ins (List.mem_of_mem_take hins)
  have hperm : ([(false, Env.filled 0), (true, .filled 0), (false, .filled 0)].map Prod.fst).Perm
      ([(true, Env.filled 7), (false, .filled 7), (false, .filled 7)].map Prod.fst) := .swap ..
  obtain ⟨stats', t', hruns', hsame, -⟩ := schedules_confluent hd hperm hruns
  exact ⟨devs, frames, _, t, stats', t', hruns, hruns', fun p => ⟨(hsame p).1, (hsame p).2.1⟩⟩

end AssignmentOS.Cpu
