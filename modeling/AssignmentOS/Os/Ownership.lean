import Mathlib.Algebra.Order.BigOperators.Group.Finset
import AssignmentOS.Os.System

/-!
# Every process is in one place and runs once through its text

A process is not yet added, queued, held by a CPU, or freed. `Owned` counts the
places of each process and says that there is exactly one. What has been
executed is read off the trace.
-/

namespace AssignmentOS.Os

open Transition

variable {cfg : Config} {mayMiss : Bool}

-- ---------------------------------------------------------------------------
-- Places
-- ---------------------------------------------------------------------------

def State.pending (s : State cfg) (p : cfg.Pid) : Nat := if s.ld.added ≤ p.val then 1 else 0

def Cpu.holds [DecidableEq P] (p : P) (c : Cpu P) : Nat := if c.held = some p then 1 else 0

def State.holders (s : State cfg) (p : cfg.Pid) : Nat := ∑ c, (s.cpu c).holds p

def Owned (s : State cfg) : Prop :=
  ∀ p, s.pending p + s.queued.count p + s.holders p + s.freed p = 1

theorem holders_update (s : State cfg) (c : Fin cfg.numCpus) (x : Cpu cfg.Pid) (p : cfg.Pid) :
    (∑ d, (Function.update s.cpu c x d).holds p) + (s.cpu c).holds p =
      s.holders p + x.holds p :=
  sum_update (Cpu.holds p) s.cpu c x

theorem holds_le_holders (s : State cfg) (c : Fin cfg.numCpus) (p : cfg.Pid) :
    (s.cpu c).holds p ≤ s.holders p :=
  Finset.single_le_sum (f := fun d => (s.cpu d).holds p) (fun _ _ => Nat.zero_le _)
    (Finset.mem_univ c)

theorem owned_start : Owned (State.start cfg) := by
  intro p
  simp [State.pending, State.holders, State.start, Ld.added, Cpu.holds, Cpu.held, Cpu.start]

theorem holds_of_held [DecidableEq P] {c : Cpu P} (h : c.held = o) (p : P) :
    c.holds p = if o = some p then 1 else 0 := by
  rw [← h]
  rfl

theorem perform_places {s t : State cfg} (p : cfg.Pid) : s.perform mayMiss c op = some t →
    match op with
    | .getProc ans =>
      s.queued.count p = (if ans = some p then 1 else 0) + t.queued.count p ∧ t.freed p = s.freed p
    | .putProc r =>
      t.queued.count p = s.queued.count p + (if r = p then 1 else 0) ∧ t.freed p = s.freed p
    | .free r => t.queued = s.queued ∧ t.freed p = s.freed p + (if r = p then 1 else 0)
    | _ => t.queued = s.queued ∧ t.freed p = s.freed p := by
  intro h
  cases op with
  | getProc ans =>
    obtain ⟨q, rfl, hq, -⟩ := getProc_some h
    refine ⟨?_, rfl⟩
    rw [hq, Multiset.count_add]
    cases ans with
    | none => simp
    | some r => simp [Multiset.count_singleton, eq_comm]
  | putProc r =>
    cases h
    refine ⟨?_, rfl⟩
    simp [State.put, Multiset.count_cons, eq_comm]
  | free r =>
    cases h
    refine ⟨rfl, ?_⟩
    by_cases hr : r = p
    · subst hr
      simp
    · simp [Function.update_of_ne (Ne.symm hr), hr]
  | nextSlot =>
    obtain ⟨u, -, rfl⟩ := callNextSlot_some h
    exact ⟨rfl, rfl⟩
  | detachEvent =>
    obtain ⟨u, -, rfl⟩ := detachEvent_some h
    exact ⟨rfl, rfl⟩
  | _ =>
    cases h
    exact ⟨rfl, rfl⟩

theorem owned_cpu {s t : State cfg} (h : Owned s)
    (hc : cpuRoutine cfg.timeSlot s.finished (s.cpu c) ans s.done = some (op, x))
    (hp : s.perform mayMiss c op = some t) :
    Owned { t with cpu := Function.update t.cpu c x } := by
  intro p
  have hplace := h p
  have hsum := holders_update s c x p
  have hheld := cpuRoutine_held hc
  have hplaces := perform_places p hp
  obtain ⟨hcpu, hld, -⟩ := perform_frame hp
  have hpend : State.pending { t with cpu := Function.update t.cpu c x } p = s.pending p := by
    simp [State.pending, hld]
  have hhold : State.holders { t with cpu := Function.update t.cpu c x } p =
      ∑ d, (Function.update s.cpu c x d).holds p := by
    simp [State.holders, hcpu]
  rw [hpend, hhold]
  simp only
  cases op with
  | getProc a =>
    obtain ⟨rfl, hold, hnew⟩ := hheld
    rw [holds_of_held hold, holds_of_held hnew] at hsum
    simp only [reduceCtorEq, if_false] at hsum
    omega
  | free r | putProc r =>
    obtain ⟨-, hold, hnew⟩ := hheld
    rw [holds_of_held hold, holds_of_held hnew] at hsum
    simp only [Option.some.injEq, reduceCtorEq, if_false] at hsum
    rw [hplaces.1, hplaces.2]
    omega
  | inspect r | run r =>
    rw [holds_of_held hheld.1, holds_of_held hheld.2] at hsum
    rw [hplaces.1, hplaces.2]
    omega
  | readDone d =>
    rw [holds_of_held hheld.2, holds_of_held rfl] at hsum
    rw [hplaces.1, hplaces.2]
    omega
  | nextSlot | detachEvent =>
    rw [holds_of_held hheld, holds_of_held rfl] at hsum
    rw [hplaces.1, hplaces.2]
    omega

theorem owned_ld {s t : State cfg} (h : Owned s)
    (hl : ldRoutine startTime now s.ld = some (op, ld)) (hp : s.performLd op = some t) :
    Owned { t with ld := ld } := by
  intro p
  have hplace := h p
  have hadded := ldRoutine_added hl
  obtain ⟨hcpu, -, -, hfreed, -, hq⟩ := performLd_frame hp
  simp only [State.pending, State.holders, hcpu, hfreed, hq] at hplace ⊢
  cases op with
  | addProc i =>
    obtain ⟨hold, hnew⟩ := hadded
    simp only [hold, hnew, Multiset.count_cons] at hplace ⊢
    by_cases hpi : p = i
    · subst hpi
      simp only [Nat.le_refl, if_true, Nat.not_succ_le_self, if_false] at hplace ⊢
      omega
    · have : p.val ≠ i.val := fun he => hpi (Fin.ext he)
      simpa [hpi, show i.val + 1 ≤ p.val ↔ i.val ≤ p.val by omega] using hplace
  | load i => simpa [hadded.1, hadded.2] using hplace
  | _ => simpa only [hadded] using hplace

theorem owned_step {s t : State cfg} (h : Owned s) (hs : Step mayMiss s e t) : Owned t := by
  cases hs with
  | timer => exact h
  | cpu c _ hc hp => exact owned_cpu h hc hp
  | ld _ hl hp => exact owned_ld h hl hp

theorem reachable_owned (h : Reachable (system mayMiss cfg) s) : Owned s := by
  refine h.invariant ?_ ?_
  · rintro _ rfl
    exact owned_start
  · rintro s e t _ ih ⟨a, ha⟩
    exact owned_step ih (next_step ha)

-- ---------------------------------------------------------------------------
-- A freed process is left alone
-- ---------------------------------------------------------------------------

/-- The operation names `p`: it follows the pointer to it or passes it on. -/
def CpuOp.Mentions (p : P) : CpuOp P → Prop
  | .getProc a => a = some p
  | .inspect r | .free r | .putProc r | .run r => r = p
  | .readDone _ | .nextSlot | .detachEvent => False

def LdOp.Mentions (p : Fin m) : LdOp m → Prop
  | .load r | .addProc r => r = p
  | _ => False

def Label.Mentions (p : cfg.Pid) : Label cfg → Prop
  | .timer _ => False
  | .cpu _ op => op.Mentions p
  | .exec _ r _ => r = p
  | .ld op _ => op.Mentions p

theorem label_mentions (s : State cfg) (c : Fin cfg.numCpus) (op : CpuOp cfg.Pid) (p : cfg.Pid) :
    (s.label c op).Mentions p ↔ op.Mentions p := by
  cases op <;> rfl

theorem held_places {s : State cfg} (h : Owned s) (hc : (s.cpu c).held = some p) :
    s.pending p = 0 ∧ s.freed p = 0 := by
  have hplace := h p
  have hle := holds_le_holders s c p
  rw [holds_of_held hc, if_pos rfl] at hle
  omega

theorem held_not_freed {s : State cfg} (h : Owned s) (hc : (s.cpu c).held = some p) :
    s.freed p = 0 := (held_places h hc).2

theorem held_added {s : State cfg} (h : Owned s) (hc : (s.cpu c).held = some p) :
    p.val < s.ld.added := by
  by_contra hle
  have hpend := (held_places h hc).1
  rw [State.pending, if_pos (Nat.not_lt.mp hle)] at hpend
  cases hpend

theorem queued_not_freed {s : State cfg} (h : Owned s) (hp : p ∈ s.queued) : s.freed p = 0 := by
  have hplace := h p
  have hcount := Multiset.count_pos.mpr hp
  omega

theorem mentioned_not_freed {s t : State cfg} (h : Owned s) (hs : Step mayMiss s e t)
    (he : e.Mentions p) : s.freed p = 0 := by
  cases hs with
  | timer => cases he
  | @cpu ans op x u c _ hc hp =>
    have hheld := cpuRoutine_held hc
    rw [label_mentions] at he
    cases op with
    | getProc a =>
      cases he
      have hg : s.getProc mayMiss (some p) = some u := hp
      obtain ⟨q, rfl, hq, -⟩ := getProc_some hg
      exact queued_not_freed h (by simp [hq])
    | free r | putProc r =>
      cases he
      exact held_not_freed h hheld.2.1
    | inspect r | run r =>
      cases he
      exact held_not_freed h hheld.1
    | _ => cases he
  | @ld op l u _ hl hp =>
    have hadded := ldRoutine_added hl
    have hplace := h p
    cases op with
    | load r | addProc r =>
      cases he
      simp only [State.pending, hadded.1, Nat.le_refl, if_true] at hplace
      omega
    | _ => cases he

-- ---------------------------------------------------------------------------
-- What has been executed
-- ---------------------------------------------------------------------------

/-- The instructions the CPUs have executed on behalf of `p`, oldest first. -/
def execs (p : cfg.Pid) (tr : List (Label cfg)) : List Inst :=
  tr.filterMap fun
    | .exec _ r (some ins) => if r = p then some ins else none
    | _ => none

theorem execs_append (p : cfg.Pid) (tr : List (Label cfg)) (e : Label cfg) :
    execs p (tr ++ [e]) = execs p tr ++ execs p [e] :=
  List.filterMap_append

/-- The processes keep their code, do not run past its end, are freed only at
its end, and have executed what the trace says. -/
structure Traced (tr : List (Label cfg)) (s : State cfg) : Prop where
  code : ∀ p, (s.pcb p).code = (cfg.desc p).code
  pc_le : ∀ p, (s.pcb p).pc ≤ (s.pcb p).code.size
  freed : ∀ p, 0 < s.freed p → (s.pcb p).pc = (s.pcb p).code.size
  execs : ∀ p, execs p tr = (s.pcb p).executed

theorem Traced.keep {s t : State cfg} (h : Traced tr s) (hpcb : t.pcb = s.pcb)
    (hfreed : ∀ p, 0 < t.freed p → 0 < s.freed p ∨ s.finished p = true)
    (he : ∀ p, Os.execs p [e] = []) : Traced (tr ++ [e]) t where
  code p := by rw [hpcb]; exact h.code p
  pc_le p := by rw [hpcb]; exact h.pc_le p
  freed p hp := by
    rw [hpcb]
    rcases hfreed p hp with hs | hf
    · exact h.freed p hs
    · simpa [State.finished] using hf
  execs p := by rw [hpcb, execs_append, he, List.append_nil]; exact h.execs p

theorem Traced.run {s : State cfg} (h : Traced tr s) (hr : s.freed r = 0) :
    Traced (tr ++ [.exec c r ((s.pcb r).fetch.map Prod.fst)])
      { s with pcb := Function.update s.pcb r (s.pcb r).advance } where
  code p := by
    by_cases hp : p = r
    · subst hp
      simpa using h.code p
    · simpa [hp] using h.code p
  pc_le p := by
    by_cases hp : p = r
    · subst hp
      simpa using (s.pcb p).advance_pc_le (h.pc_le p)
    · simpa [hp] using h.pc_le p
  freed p hf := by
    by_cases hp : p = r
    · subst hp
      simp only at hf
      omega
    · simpa [hp] using h.freed p hf
  execs p := by
    rw [execs_append, h.execs]
    by_cases hp : p = r
    · subst hp
      simp only [Function.update_self, Pcb.advance_executed]
      cases (s.pcb p).fetch <;> simp [Os.execs]
    · simp only [Function.update_of_ne hp]
      cases (s.pcb r).fetch <;> simp [Os.execs, Ne.symm hp]

theorem Traced.withCpu {s : State cfg} (h : Traced tr s) (f : Fin cfg.numCpus → Cpu cfg.Pid) :
    Traced tr { s with cpu := f } :=
  ⟨h.code, h.pc_le, h.freed, h.execs⟩

theorem Traced.cpu {s t : State cfg} (h : Traced tr s) (ho : Owned s)
    (hc : cpuRoutine cfg.timeSlot s.finished (s.cpu c) ans s.done = some (op, x))
    (hp : s.perform mayMiss c op = some t) : Traced (tr ++ [s.label c op]) t := by
  have hheld := cpuRoutine_held hc
  cases op with
  | run r =>
    cases hp
    exact h.run (held_not_freed ho hheld.1)
  | free r =>
    cases hp
    refine h.keep rfl (fun p hp => ?_) fun p => rfl
    by_cases hr : p = r
    · subst hr
      exact .inr hheld.1
    · exact .inl (by simpa [hr] using hp)
  | getProc a =>
    obtain ⟨q, rfl, -⟩ := getProc_some hp
    exact h.keep rfl (fun p hp => .inl hp) fun p => rfl
  | nextSlot =>
    obtain ⟨u, -, rfl⟩ := callNextSlot_some hp
    exact h.keep rfl (fun p hp => .inl hp) fun p => rfl
  | detachEvent =>
    obtain ⟨u, -, rfl⟩ := detachEvent_some hp
    exact h.keep rfl (fun p hp => .inl hp) fun p => rfl
  | inspect r | putProc r | readDone d =>
    cases hp
    exact h.keep rfl (fun p hp => .inl hp) fun p => rfl

theorem run_traced (h : Run (system mayMiss cfg) tr s) : Traced tr s := by
  refine h.invariant (P := Traced) ?_ ?_
  · rintro _ rfl
    exact ⟨fun p => rfl, fun p => Nat.zero_le _,
      fun p hp => absurd hp (Nat.lt_irrefl 0), fun p => rfl⟩
  · rintro tr s e t hr ih ⟨a, ha⟩
    cases next_step ha with
    | timer => exact ih.keep rfl (fun p hp => .inl hp) fun p => rfl
    | cpu c _ hc hp => exact (ih.cpu (reachable_owned hr.reachable) hc hp).withCpu _
    | ld _ _ hp =>
      obtain ⟨-, -, hpcb, hfreed, -⟩ := performLd_frame hp
      exact ih.keep hpcb (fun p hp => .inl (by simpa [hfreed] using hp)) fun p => rfl

theorem exclusive_execution (h : Run (system mayMiss cfg) tr s) :
    (∀ p, s.pending p + s.queued.count p + s.holders p + s.freed p = 1) ∧
    (∀ p, 0 < s.freed p → ∀ e t, (system mayMiss cfg).step s e t → ¬ e.Mentions p) ∧
    (∀ p, (s.pcb p).pc ≤ (s.pcb p).code.size) ∧
    (∀ p, execs p tr = (cfg.desc p).code.text.take (s.pcb p).pc) ∧
    (∀ p, 0 < s.freed p → (s.pcb p).pc = (cfg.desc p).code.size) := by
  have ho := reachable_owned h.reachable
  have ht := run_traced h
  refine ⟨ho, fun p hp e t ⟨a, ha⟩ he => ?_, ht.pc_le, fun p => ?_, fun p hp => ?_⟩
  · rw [mentioned_not_freed ho (next_step ha) he] at hp
    exact Nat.lt_irrefl 0 hp
  · rw [ht.execs p, Pcb.executed, ht.code p]
  · rw [ht.freed p hp, ht.code p]

/-- One process of one instruction that arrives at time 0, on `n` CPUs. -/
abbrev oneProcess (n : Nat) : Config := ⟨1, n, [⟨0, ⟨[⟨.calc, 0, 0, 0, 0⟩], by decide⟩⟩]⟩

theorem oneInst_lt : 1 < UInt32.size := by decide

theorem twoInsts_lt : 2 < UInt32.size := by decide

/-- Two CPUs with a time slot of one, and two processes that arrive at time 0. The first one's
program has two instructions. -/
abbrev twoProcesses (ins ins' other : Inst) : Config :=
  ⟨1, 2, [⟨0, ⟨[ins, ins'], twoInsts_lt⟩⟩, ⟨0, ⟨[other], oneInst_lt⟩⟩]⟩

section
variable {ins ins' other : Inst}

/-- All threads wait for the end of the slot, and it comes. -/
def slotEnd : List (Act (twoProcesses ins ins' other)) :=
  (List.finRange 3).map (fun i => .timer (.client i)) ++ List.replicate 9 (.timer .timer)
    ++ (List.finRange 3).map (fun i => .timer (.client i))

/-- The loader adds process `p`, CPU `c` runs it, and CPU `d` finds nothing. -/
def slotZero (c d p : Fin 2) : List (Act (twoProcesses ins ins' other)) :=
  [.ld, .ld, .ld, .ld, .cpu c (some p), .cpu c none, .cpu c none, .cpu d none, .cpu d none]

/-- The loader adds process `q`, CPU `c` puts `p` back and runs `q`, and CPU `d` runs `p`. -/
def slotOne (c d p q : Fin 2) : List (Act (twoProcesses ins ins' other)) :=
  [.ld, .ld, .ld, .ld, .cpu c none, .cpu c (some q), .cpu c none, .cpu c none, .cpu d (some p),
    .cpu d none, .cpu d none]

def twoSlots : List (Act (twoProcesses ins ins' other)) :=
  slotZero ⟨0, Nat.two_pos⟩ ⟨1, Nat.one_lt_two⟩ ⟨0, Nat.two_pos⟩ ++ slotEnd ++
    slotOne ⟨0, Nat.two_pos⟩ ⟨1, Nat.one_lt_two⟩ ⟨0, Nat.two_pos⟩ ⟨1, Nat.one_lt_two⟩

/-- The loader sets `done`, and the CPUs free their processes, find no others and leave. -/
def lastSlot (c d : Fin 2) : List (Act (twoProcesses ins ins' other)) :=
  [.ld, .ld, .ld] ++ List.replicate 4 (.cpu c none) ++ List.replicate 4 (.cpu d none)

def toTheEnd : List (Act (twoProcesses ins ins' other)) :=
  twoSlots ++ slotEnd ++ lastSlot ⟨0, Nat.two_pos⟩ ⟨1, Nat.one_lt_two⟩

end

set_option maxRecDepth 2000 in
theorem twoProcesses_exec (ins ins' other : Inst) :
    ∃ tr s, exec (next false) toTheEnd (.start (twoProcesses ins ins' other)) = some (tr, s) ∧
      (∀ c, (s.cpu c).Left) ∧ s.freed 0 = 1 ∧ s.freed 1 = 1 ∧
      execs (0 : (twoProcesses ins ins' other).Pid) tr = [ins, ins'] := by
  have hleft : ∀ s : State (twoProcesses ins ins' other), (s.cpu 0).Left → (s.cpu 1).Left →
      ∀ c, (s.cpu c).Left := fun s h0 h1 => Fin.forall_fin_two.mpr ⟨h0, h1⟩
  exact ⟨_, _, rfl, hleft _ (.inr rfl) (.inr rfl), rfl, rfl, rfl⟩

/-- Two memory instructions of one process, on two CPUs, and a third of the other. -/
theorem exclusive_execution_twoProcesses :
    let cfg := twoProcesses ⟨.alloc, 16, 3, 0, 0⟩ ⟨.read, 3, 0, 0, 0⟩ ⟨.syscall, 17, 5, 300, 200⟩
    ∃ tr s, exec (next false) toTheEnd (.start cfg) = some (tr, s) ∧
      (∀ p, s.pending p + s.queued.count p + s.holders p + s.freed p = 1) ∧
      (∀ p, 0 < s.freed p → ∀ e t, (system false cfg).step s e t → ¬ e.Mentions p) ∧
      [⟨.alloc, 16, 3, 0, 0⟩, ⟨.read, 3, 0, 0, 0⟩] = (cfg.desc 0).code.text.take (s.pcb 0).pc := by
  intro cfg
  obtain ⟨tr, s, hexec, -, -, -, hexecs⟩ := twoProcesses_exec ⟨.alloc, 16, 3, 0, 0⟩
    ⟨.read, 3, 0, 0, 0⟩ ⟨.syscall, 17, 5, 300, 200⟩
  have hr : Run (system false cfg) tr s := run_exec hexec
  obtain ⟨hplace, hfreed, -, htext, -⟩ := exclusive_execution hr
  exact ⟨tr, s, hexec, hplace, hfreed, hexecs.symm.trans (htext 0)⟩

end AssignmentOS.Os
