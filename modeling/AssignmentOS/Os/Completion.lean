import Mathlib.Data.Finset.Lattice.Fold
import Mathlib.Order.Lattice.Nat
import AssignmentOS.Os.Arrival
import AssignmentOS.Os.Progress
import AssignmentOS.Os.Response

/-!
# Every process completes

The loader has added every process after `Config.arrivals` slots. With the response
times this bounds the slots until all processes are freed, and with the length of a
slot the steps (`completion`): no run of the system can put it off, whoever is
scheduled.
-/

namespace AssignmentOS.Os

open Transition

variable {cfg : Config} {mayMiss : Bool} {m : Nat}

-- ---------------------------------------------------------------------------
-- The loader
-- ---------------------------------------------------------------------------

/-- The slots the loader may need for the processes from `k` on: it waits for a start time
and for the slot after the arrival. -/
def slotsFrom (startTime : Fin m → UInt64) (k : Nat) : Nat :=
  (((List.finRange m).drop k).map fun i => (startTime i).toNat + 1).sum

def Ld.remaining (startTime : Fin m → UInt64) (now : UInt64) : Ld m → Nat
  | .loop i => slotsFrom startTime i
  | .wait i | .waitSlot i => (startTime i).toNat - now.toNat + 1 + slotsFrom startTime (i + 1)
  | .add i | .slot i => 1 + slotsFrom startTime (i + 1)
  | .fin | .detach | .exited => 0

theorem slotsFrom_eq (startTime : Fin m → UInt64) (i : Fin m) :
    slotsFrom startTime i = (startTime i).toNat + 1 + slotsFrom startTime (i + 1) := by
  have hdrop : (List.finRange m).drop i = i :: (List.finRange m).drop (i + 1) := by
    rw [List.drop_eq_getElem_cons (by simp)]
    simp
  rw [slotsFrom, hdrop]
  rfl

def LdOp.slots : LdOp m → Nat
  | .nextSlot => 1
  | _ => 0

theorem OnTime.remaining {l l' : Ld m} (h : OnTime startTime now l)
    (hop : ldRoutine startTime now l = some (op, l')) :
    l'.remaining startTime (op.slotAfter now) + op.slots ≤ l.remaining startTime now := by
  cases ldRoutine_step hop with
  | load i =>
    simp only [Ld.remaining, LdOp.slots, Fin.val_castSucc, slotsFrom_eq]
    omega
  | due i hge =>
    simp only [Ld.remaining, LdOp.slots]
    omega
  | waitSlot i =>
    have hlt : now.toNat < (startTime i).toNat := UInt64.lt_iff_toNat_lt.mp h.2
    have hnext : (now + 1).toNat = now.toNat + 1 := by
      have hbound := (startTime i).toNat_lt
      rw [UInt64.toNat_add]
      exact Nat.mod_eq_of_lt (by simp; omega)
    simp only [Ld.remaining, LdOp.slotAfter, LdOp.slots, hnext]
    omega
  | slot i =>
    simp only [Ld.remaining, LdOp.slots, Fin.val_succ]
    omega
  | leaveLoop | early | addProc | setDone | detachEvent =>
      simp [Ld.remaining, LdOp.slotAfter, LdOp.slots]

theorem LdOp.slot_add (op : LdOp m) {client : Timer.Client} (hpc : client.pc = .outside) :
    (op.onClient client).slot = client.slot + op.slots := by
  cases op <;> simp [Timer.Client.slot, Timer.Client.Inside, hpc, slots]

def Config.arrivals (cfg : Config) : Nat := slotsFrom cfg.startTime 0

theorem run_remaining (h : Run (system mayMiss cfg) tr s) :
    s.ldClient.slot + s.ld.remaining cfg.startTime (.ofNat s.ldClient.slot) ≤ cfg.arrivals := by
  refine h.invariant (P := fun _ s =>
    s.ldClient.slot + s.ld.remaining cfg.startTime (.ofNat s.ldClient.slot) ≤ cfg.arrivals) ?_ ?_
  · rintro _ rfl
    exact Nat.le_of_eq (Nat.zero_add _)
  · rintro tr s e t hr ih ⟨a, ha⟩
    cases next_step ha with
    | @timer b _ u hi hn =>
      have hslot : (u.client ldSlot).slot = s.ldClient.slot :=
        (Timer.internal_client hi hn ldSlot).1
      rw [← hslot] at ih
      exact ih
    | @cpu _ op _ u c hpc hop hp =>
      obtain ⟨-, hother, -⟩ := perform_client hp
      obtain ⟨-, hld, -⟩ := perform_frame hp
      have hclient : u.ldClient = s.ldClient := hother _ (cpuSlot_ne_ldSlot c).symm
      rw [← hclient, ← hld] at ih
      exact ih
    | @ld op l u hpc hop hp =>
      obtain ⟨-, -, hown⟩ := performLd_client hp
      have hout : s.ldClient.pc = .outside := hpc
      have hnow := currentTime_of_outside (run_lockstep hr) hout
      have hon := (run_arriving hr).onTime
      rw [← hnow] at hon ih
      have hrem := hon.remaining hop
      rw [← op.slot_onClient hout hnow, ← hown] at hrem
      have hslot := op.slot_add hout
      rw [← hown] at hslot
      have hgoal : u.ldClient.slot + l.remaining cfg.startTime (.ofNat u.ldClient.slot) ≤
          cfg.arrivals := by
        omega
      exact hgoal

theorem ld_exited (h : Run (system mayMiss cfg) tr s) (hlate : cfg.arrivals < ticks tr) :
    s.ld = .exited := by
  have hrem := run_remaining h
  by_contra hne
  have hatt : s.ldClient.Undetached :=
    fun hd => hne ((reachable_control h.reachable).ld.detached.mp hd)
  have hag := (run_lockstep h).agrees ldSlot
  have hslot : ticks tr ≤ s.ldClient.slot := by
    unfold Timer.Client.slot
    rcases hag.undetached hatt with hT | hT
    · have hT' : s.ldClient.calls = ticks tr := hT
      split <;> omega
    · have hT' : s.ldClient.calls + 1 = ticks tr := hT
      split
      · omega
      · rename_i hout
        have hpc : s.ldClient.pc = .outside := by
          unfold Timer.Client.Inside at hout
          unfold Timer.Client.Undetached at hatt
          cases hpc : s.ldClient.pc <;> simp_all
        have heq : s.ldClient.calls = ticks tr := (hag.outside hpc).2.2
        omega
  omega

theorem ticks_since (h : Run (system mayMiss cfg) tr s) (p : cfg.Pid) :
    ticks tr ≤ cfg.arrivals + ticks (since p tr) := by
  have hnot {tr : List (Label cfg)} {s : State cfg} (h : Run (system mayMiss cfg) tr s)
      (hnil : since p tr = []) : ticks tr ≤ cfg.arrivals := by
    by_contra hlate
    have hle := (run_since h p).1 hnil
    rw [ld_exited h (Nat.lt_of_not_le hlate)] at hle
    exact absurd hle (Nat.not_le.mpr p.isLt)
  cases hsince : since p tr with
  | nil => exact Nat.le_add_right_of_le (hnot h hsince)
  | cons e rest =>
    -- The run up to `add_proc` of `p` ends before the loader is late.
    have htr : tr = tr.takeWhile (·.adds ≠ some p) ++ e :: rest := by
      rw [← hsince]
      exact (List.takeWhile_append_dropWhile).symm
    rw [htr] at h
    obtain ⟨a, -, ha, -⟩ := h.split
    have hearly : since p (tr.takeWhile (·.adds ≠ some p)) = [] := by
      refine List.dropWhile_eq_nil_iff.mpr fun x hx => ?_
      exact List.mem_takeWhile_imp (p := fun e : Label cfg => decide (e.adds ≠ some p)) hx
    have hbefore := hnot ha hearly
    rw [htr]
    simp only [ticks, Timer.ticks, List.filterMap_append, List.count_append] at hbefore ⊢
    omega

-- ---------------------------------------------------------------------------
-- All processes
-- ---------------------------------------------------------------------------

def Config.work (cfg : Config) : Nat := ∑ p, cost cfg p

def Config.longest (cfg : Config) : Nat := Finset.univ.sup (cost cfg)

/-- The slots for the arrivals, one process at a time, and the work on all CPUs. -/
def Config.deadline (cfg : Config) : Nat :=
  cfg.arrivals + cfg.numProcesses + cfg.longest + cfg.work / cfg.numCpus

theorem freed_of_late (hcpus : 0 < cfg.numCpus) (h : Run (system false cfg) tr s)
    (hlate : cfg.deadline < ticks tr) (p : cfg.Pid) : s.freed p ≠ 0 := by
  intro hfreed
  have hslots := slots_le h p hfreed
  have hsince := ticks_since h p
  have hlongest : cost cfg p ≤ cfg.longest := Finset.le_sup (Finset.mem_univ p)
  have hwork : ∑ q ∈ Finset.univ.erase p, cost cfg q ≤ cfg.work :=
    Finset.sum_le_sum_of_subset (Finset.erase_subset p Finset.univ)
  have hshare : cfg.work < cfg.numCpus * (cfg.work / cfg.numCpus + 1) := Nat.lt_mul_div_succ _ hcpus
  have hticks : cost cfg p + (cfg.numProcesses - p.val) + (cfg.work / cfg.numCpus + 1) ≤
      ticks (since p tr) := by
    unfold Config.deadline at hlate
    omega
  have hmul := Nat.mul_le_mul_left cfg.numCpus hticks
  rw [Nat.mul_add] at hmul
  omega

/-- All processes have been executed to their ends and freed once, or the run is still within
the deadline, in slots and in steps. -/
theorem completion (hcpus : 0 < cfg.numCpus) (h : Run (system false cfg) tr s) :
    (∀ p, s.freed p = 1 ∧ (s.pcb p).pc = (cfg.desc p).code.size) ∨
      ticks tr ≤ cfg.deadline ∧
        tr.length ≤ Timer.slotSteps (cfg.numCpus + 1) 4 * (cfg.deadline + 1) + 2 * unpaid tr := by
  by_cases hlate : cfg.deadline < ticks tr
  · exact .inl fun p => through_of_freed h (freed_of_late hcpus h hlate p)
  · have hticks := Nat.le_of_not_lt hlate
    have hlen := run_length_le h
    have hmul := Nat.mul_le_mul_left (Timer.slotSteps (cfg.numCpus + 1) 4)
      (Nat.add_le_add_right hticks 1)
    exact .inr ⟨hticks, by omega⟩

theorem completion_twoProcesses :
    let cfg := twoProcesses ⟨.alloc, 16, 3, 0, 0⟩ ⟨.read, 3, 0, 0, 0⟩ ⟨.calc, 0, 0, 0, 0⟩
    ∃ tr s, exec (next false) toTheEnd (.start cfg) = some (tr, s) ∧
      ((∀ p, s.freed p = 1 ∧ (s.pcb p).pc = (cfg.desc p).code.size) ∨ ticks tr ≤ cfg.deadline) := by
  intro cfg
  obtain ⟨tr, s, hexec, -⟩ := twoProcesses_exec ⟨.alloc, 16, 3, 0, 0⟩ ⟨.read, 3, 0, 0, 0⟩
    ⟨.calc, 0, 0, 0, 0⟩
  have hr : Run (system false cfg) tr s := run_exec hexec
  exact ⟨tr, s, hexec, (completion Nat.two_pos hr).imp_right And.left⟩

end AssignmentOS.Os
