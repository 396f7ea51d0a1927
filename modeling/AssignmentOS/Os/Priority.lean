import AssignmentOS.Os.Configuration
import AssignmentOS.Os.Ownership
import AssignmentOS.Os.Sched

/-!
# Priorities from the file to the queues

The threads of `main` with the field `prio` of each process. `ld_routine`
narrows the number of the file to 32 bits when it has loaded the process, and
`add_proc` and `put_proc` take what is left as an index. It is the index that
the file asks for whenever that is one of the array (`priority_index_iff`).
-/

namespace AssignmentOS.Os

open Scan Transition

-- ---------------------------------------------------------------------------
-- The loader's index
-- ---------------------------------------------------------------------------

def Ld.loaded : Ld m → Nat
  | .loop i => i
  | .wait i | .waitSlot i | .add i | .slot i => i + 1
  | .fin | .detach | .exited => m

theorem Ld.added_le_loaded (l : Ld m) : l.added ≤ l.loaded := by
  cases l <;> simp [Ld.added, Ld.loaded]

theorem ldRoutine_loaded {l l' : Ld m} : ldRoutine startTime now l = some (op, l') →
    match op with
    | .load i => l.loaded = i ∧ l'.loaded = i + 1
    | .addProc i => l.loaded = i + 1 ∧ l'.loaded = i + 1
    | _ => l'.loaded = l.loaded := by
  intro h
  cases ldRoutine_step h with
  | load | addProc => exact ⟨rfl, rfl⟩
  | leaveLoop | early | due | waitSlot | slot | setDone | detachEvent => rfl

-- ---------------------------------------------------------------------------
-- The threads with priorities
-- ---------------------------------------------------------------------------

variable {cfg : Config} {mayMiss : Bool} {ldPrio : cfg.Pid → UInt64} {prio₀ : cfg.Pid → UInt32}

/-- `prio` is the field of the PCB, whatever `malloc` left there until it is set. -/
structure PrioState (cfg : Config) where
  os : State cfg
  prio : cfg.Pid → UInt32

/-- `proc->prio = ld_processes.prio[i]` after `load`. -/
def setPrio (ldPrio : cfg.Pid → UInt64) (prio : cfg.Pid → UInt32) : Label cfg → cfg.Pid → UInt32
  | .ld (.load p) _ => Function.update prio p (ldPrio p).toUInt32
  | _ => prio

def prioNext (mayMiss : Bool) (ldPrio : cfg.Pid → UInt64) (s : PrioState cfg) (a : Act cfg) :
    Option (Label cfg × PrioState cfg) :=
  (next mayMiss s.os a).map fun r => (r.1, ⟨r.2, setPrio ldPrio s.prio r.1⟩)

def prioSystem (mayMiss : Bool) (ldPrio : cfg.Pid → UInt64) (prio₀ : cfg.Pid → UInt32) :
    System (PrioState cfg) (Label cfg) :=
  .ofNext ⟨.start cfg, prio₀⟩ (prioNext mayMiss ldPrio)

def Label.queues : Label cfg → Option cfg.Pid
  | .ld (.addProc p) _ => some p
  | .cpu _ (.putProc p) => some p
  | _ => none

theorem prioNext_some {s t : PrioState cfg} (h : prioNext mayMiss ldPrio s a = some (e, t)) :
    next mayMiss s.os a = some (e, t.os) ∧ t.prio = setPrio ldPrio s.prio e := by
  simp only [prioNext, Option.map_eq_some_iff, Prod.exists] at h
  obtain ⟨e, os, hnext, h⟩ := h
  cases h
  exact ⟨hnext, rfl⟩

theorem prio_simulates (mayMiss : Bool) (ldPrio : cfg.Pid → UInt64) (prio₀ : cfg.Pid → UInt32) :
    Simulates (prioSystem mayMiss ldPrio prio₀) (system mayMiss cfg) PrioState.os some where
  init s h := by
    rw [show s = ⟨.start cfg, prio₀⟩ from h]
    rfl
  step s e t h := by
    obtain ⟨a, h⟩ := h
    exact ⟨a, (prioNext_some h).1⟩

-- ---------------------------------------------------------------------------
-- The priority of a queued process
-- ---------------------------------------------------------------------------

def HasPrio (ldPrio : cfg.Pid → UInt64) (s : PrioState cfg) : Prop :=
  ∀ p : cfg.Pid, p.val < s.os.ld.loaded → s.prio p = (ldPrio p).toUInt32

theorem setPrio_label (prio : cfg.Pid → UInt32) (s : State cfg) (c : Fin cfg.numCpus)
    (op : CpuOp cfg.Pid) :
    setPrio ldPrio prio (s.label c op) = prio := by
  cases op <;> rfl

theorem hasPrio_ld {s t : PrioState cfg} (h : HasPrio ldPrio s)
    (hl : ldRoutine startTime now s.os.ld = some (op, t.os.ld))
    (hprio : t.prio = setPrio ldPrio s.prio (.ld op now)) : HasPrio ldPrio t := by
  have hloaded := ldRoutine_loaded hl
  intro p hp
  rw [hprio]
  cases op with
  | load i =>
    simp only [setPrio]
    by_cases hpi : p = i
    · subst hpi
      rw [Function.update_self]
    · have hne : p.val ≠ i.val := fun he => hpi (Fin.ext he)
      rw [Function.update_of_ne hpi]
      exact h p (by omega)
  | addProc i => exact h p (by omega)
  | _ => exact h p (hloaded ▸ hp)

theorem hasPrio_step {s t : PrioState cfg} (h : HasPrio ldPrio s) (hs : Step mayMiss s.os e t.os)
    (hprio : t.prio = setPrio ldPrio s.prio e) : HasPrio ldPrio t := by
  obtain ⟨os, prio⟩ := t
  simp only at hs hprio
  cases hs with
  | timer =>
    rw [hprio]
    exact h
  | cpu c _ _ hp =>
    rw [setPrio_label] at hprio
    rw [hprio]
    intro p hlt
    simp only [(perform_frame hp).2.1] at hlt
    exact h p hlt
  | ld _ hl => exact hasPrio_ld h hl hprio

theorem reachable_hasPrio (h : Reachable (prioSystem mayMiss ldPrio prio₀) s) :
    HasPrio ldPrio s := by
  refine h.invariant ?_ ?_
  · rintro _ rfl p hp
    exact absurd hp (Nat.not_lt_zero _)
  · rintro s e t _ ih ⟨a, ha⟩
    obtain ⟨hnext, hprio⟩ := prioNext_some ha
    exact hasPrio_step ih (next_step hnext) hprio

theorem queues_loaded {s : State cfg} (ho : Owned s) (hs : Step mayMiss s e t)
    (he : e.queues = some p) :
    p.val < s.ld.loaded := by
  cases hs with
  | timer => cases he
  | @cpu ans op x u c _ hc hp =>
    cases op with
    | putProc r =>
      cases he
      exact Nat.lt_of_lt_of_le (held_added ho (cpuRoutine_held hc).2.1) s.ld.added_le_loaded
    | _ => cases he
  | @ld op l u _ hl hp =>
    have hloaded := ldRoutine_loaded hl
    cases op with
    | addProc r =>
      cases he
      rw [hloaded.1]
      exact Nat.lt_succ_self _
    | _ => cases he

/-- A run reaches the state, and the next step calls `add_proc` or `put_proc` on the process. -/
def Calls (M : System (PrioState cfg) (Label cfg)) (s : PrioState cfg) (p : cfg.Pid) : Prop :=
  ∃ tr e t, Run M tr s ∧ M.step s e t ∧ e.queues = some p

theorem Calls.prio (h : Calls (prioSystem mayMiss ldPrio prio₀) s p) :
    s.prio p = (ldPrio p).toUInt32 := by
  obtain ⟨tr, e, t, hr, ⟨a, ha⟩, he⟩ := h
  have ho := reachable_owned ((prio_simulates mayMiss ldPrio prio₀).reachable hr.reachable)
  exact reachable_hasPrio hr.reachable p (queues_loaded ho (next_step (prioNext_some ha).1) he)

-- ---------------------------------------------------------------------------
-- The first call
-- ---------------------------------------------------------------------------

theorem prioNext_ld {s : PrioState cfg} {t : State cfg}
    (hout : (s.os.timer.client ldSlot).pc = .outside)
    (hl : ldRoutine (fun p => (cfg.desc p).startTime) s.os.timer.currentTime s.os.ld =
      some (op, ld)) (hp : s.os.performLd op = some t) :
    prioNext mayMiss ldPrio s .ld = some (.ld op s.os.timer.currentTime,
      ⟨{ t with ld := ld }, setPrio ldPrio s.prio (.ld op s.os.timer.currentTime)⟩) := by
  simp [prioNext, next, hout, hl, hp]

theorem calls_first (h : 0 < cfg.numProcesses) (hstart : (cfg.desc ⟨0, h⟩).startTime = 0)
    (mayMiss : Bool) (ldPrio : cfg.Pid → UInt64) (prio₀ : cfg.Pid → UInt32) :
    ∃ s, Calls (prioSystem mayMiss ldPrio prio₀) s ⟨0, h⟩ := by
  have hload : ldRoutine (fun p => (cfg.desc p).startTime) 0 (.loop 0) =
      some (.load ⟨0, h⟩, .wait ⟨0, h⟩) := dif_pos h
  have hwait : ldRoutine (fun p => (cfg.desc p).startTime) 0 (.wait ⟨0, h⟩) =
      some (.readTime, .add ⟨0, h⟩) := by
    simp [ldRoutine, hstart]
  have hinit : Run (prioSystem mayMiss ldPrio prio₀) [] ⟨.start cfg, prio₀⟩ := .init rfl
  have hloaded := hinit.step ⟨.ld, prioNext_ld rfl hload rfl⟩
  have harrived := hloaded.step ⟨.ld, prioNext_ld rfl hwait rfl⟩
  exact ⟨_, _, _, _, harrived, ⟨.ld, prioNext_ld rfl rfl rfl⟩, rfl⟩

-- ---------------------------------------------------------------------------
-- From the file to the index
-- ---------------------------------------------------------------------------

/-- The system that `main` starts, for any code that `load` reads. -/
def Configuration.config (conf : Configuration) (code : Nat → CodeSeg) : Config where
  timeSlot := conf.timeSlot
  numCpus := conf.numCpus.toNat
  procs := List.ofFn fun i : Fin conf.numProcesses.toNat =>
    ⟨(conf.ldProcesses.get i).startTime, code i⟩

theorem Configuration.numProcesses_config (conf : Configuration) (code : Nat → CodeSeg) :
    (conf.config code).numProcesses = conf.numProcesses.toNat := List.length_ofFn

def Configuration.prios (conf : Configuration) (code : Nat → CodeSeg)
    (p : (conf.config code).Pid) : UInt64 :=
  (conf.ldProcesses.get (p.cast (conf.numProcesses_config code))).prio

def Configuration.system (conf : Configuration) (code : Nat → CodeSeg) (mayMiss : Bool)
    (prio₀ : (conf.config code).Pid → UInt32) :
    System (PrioState (conf.config code)) (Label (conf.config code)) :=
  prioSystem mayMiss (conf.prios code) prio₀

def Written (file : List Char) (i k : Nat) : Prop := ∃ m, writtenPrio file i = some m ∧ m.value = k

/-- The queue that the call asks for exists, and is the one that the file names. -/
def IndexValid (file : List Char) (s : PrioState cfg) (p : cfg.Pid) : Prop :=
  (s.prio p).toNat < maxPrio ∧ Written file p (s.prio p).toNat

def PrioInRange (file : List Char) (i : Nat) : Prop :=
  ∃ m, writtenPrio file i = some m ∧ 0 ≤ m.value ∧ m.value < maxPrio

theorem prioInRange_iff (file : List Char) (i : Nat) :
    PrioInRange file i ↔ ∃ k, k < maxPrio ∧ Written file i k := by
  constructor
  · rintro ⟨m, hm, h0, hlt⟩
    have hvalue : (m.value.toNat : Int) = m.value := Int.toNat_of_nonneg h0
    exact ⟨m.value.toNat, by omega, m, hm, hvalue.symm⟩
  · rintro ⟨k, hk, m, hm, hvalue⟩
    refine ⟨m, hm, ?_, ?_⟩
    · rw [hvalue]
      exact Int.natCast_nonneg k
    · rw [hvalue]
      exact Int.ofNat_lt.mpr hk

theorem scanLong_toUInt32 (before : ConfigBefore) (old : UInt64) {m : Numeral} (h0 : 0 ≤ m.value)
    (hlt : m.value < maxPrio) :
    ((scanLong before old (some m)).toUInt32.toNat : Int) = m.value := by
  have hbound : (maxPrio : Int) < 2 ^ 32 := by decide
  have hlong : ((scanLong before old (some m)).toNat : Int) = m.value := by
    apply toNat_unsignedLong before.outsideLong h0
    have hsize : (maxPrio : Int) < UInt64.size := by decide
    exact Int.lt_trans hlt hsize
  rw [UInt64.toNat_toUInt32, Nat.mod_eq_of_lt (by omega), hlong]

variable {before : ConfigBefore} {file : List Char} {conf : Configuration} {code : Nat → CodeSeg}

theorem indexValid_iff {s : PrioState (conf.config code)} {p : (conf.config code).Pid}
    (hacc : readConfig before (some file) = .ok conf)
    (hprio : s.prio p = (conf.prios code p).toUInt32) :
    IndexValid file s p ↔ PrioInRange file p := by
  rw [prioInRange_iff]
  constructor
  · rintro ⟨hlt, hwritten⟩
    exact ⟨_, hlt, hwritten⟩
  · intro hk
    obtain ⟨m, hm, h0, hlt⟩ := (prioInRange_iff file p).mpr hk
    have hget := readConfig_prio hacc (p.cast (conf.numProcesses_config code))
    have hindex : ((s.prio p).toNat : Int) = m.value := by
      rw [hprio, Configuration.prios, hget, Fin.val_cast, hm]
      exact scanLong_toUInt32 before _ h0 hlt
    exact ⟨Int.ofNat_lt.mp (hindex ▸ hlt), m, hm, hindex.symm⟩

/-- Call by call, and for all calls of all runs together with the files that are to be rejected. -/
theorem priority_index_iff (hacc : readConfig before (some file) = .ok conf) (code : Nat → CodeSeg)
    (mayMiss : Bool) (prio₀ : (conf.config code).Pid → UInt32) :
    (∀ s p, Calls (conf.system code mayMiss prio₀) s p →
      (IndexValid file s p ↔ PrioInRange file p)) ∧
    ((∀ s p, Calls (conf.system code mayMiss prio₀) s p → IndexValid file s p) ∧
      (∀ i, i < conf.numProcesses.toNat → ∃ k, k < maxPrio ∧ Written file i k) ↔
      ∀ i, i < announcedProcs before file → PrioInRange file i) := by
  rw [← readConfig_announced hacc]
  have hcall : ∀ s p, Calls (conf.system code mayMiss prio₀) s p →
      (IndexValid file s p ↔ PrioInRange file p) := by
    intro s p h
    exact indexValid_iff hacc h.prio
  refine ⟨hcall, ?_, ?_⟩
  · rintro ⟨-, hwritten⟩ i hi
    exact (prioInRange_iff file i).mpr (hwritten i hi)
  · intro hrange
    refine ⟨fun s p h => ?_, fun i hi => (prioInRange_iff file i).mp (hrange i hi)⟩
    apply (hcall s p h).mpr
    apply hrange
    rw [← conf.numProcesses_config code]
    exact p.isLt

/-- One process `p0` that arrives at time 0 with this priority, on one CPU. -/
def Configuration.single (prio : UInt64) : Configuration where
  timeSlot := 2
  numCpus := 1
  numProcesses := 1
  memramsz := 1048576
  memswpsz := [16777216, 0, 0, 0]
  ldProcesses := .cons ⟨"input/proc/p0".toList, 0, prio⟩ .nil

def singleFile (prio : String) : List Char :=
  "2 1 1\n1048576 16777216 0 0 0\n0 p0 ".toList ++ prio.toList

def ConfigBefore.zero : ConfigBefore :=
  ⟨fun _ => 0, fun _ => 0, fun _ => [], fun _ => 0, fun _ => 0⟩

theorem oneCalc_lt : [(⟨.calc, 0, 0, 0, 0⟩ : Inst)].length < UInt32.size := by decide

def calcCode (_ : Nat) : CodeSeg := ⟨[⟨.calc, 0, 0, 0, 0⟩], oneCalc_lt⟩

/-- The first call queues the process at the number of the file, cut to 32 bits. -/
theorem single_called (prio : UInt64) :
    ∃ s p, Calls ((Configuration.single prio).system calcCode false fun _ => 0) s p ∧ p.val = 0 ∧
      s.prio p = prio.toUInt32 := by
  have hpos : 0 < ((Configuration.single prio).config calcCode).numProcesses := Nat.one_pos
  obtain ⟨s, hcall⟩ := calls_first hpos rfl false
    ((Configuration.single prio).prios calcCode) fun _ => 0
  exact ⟨s, ⟨0, hpos⟩, hcall, rfl, hcall.prio⟩

theorem priority_index_iff_139 :
    ∃ s p, Calls ((Configuration.single 139).system calcCode false fun _ => 0) s p ∧
      IndexValid (singleFile "139") s p := by
  have hacc : readConfig .zero (some (singleFile "139")) = .ok (.single 139) := rfl
  have hrange : ∀ i, i < announcedProcs .zero (singleFile "139") →
      PrioInRange (singleFile "139") i := by
    intro i hi
    obtain rfl : i = 0 := Nat.lt_one_iff.mp hi
    exact ⟨⟨false, 139⟩, rfl, by decide, by decide⟩
  obtain ⟨s, p, hcall, -, -⟩ := single_called 139
  exact ⟨s, p, hcall,
    ((priority_index_iff hacc calcCode false fun _ => 0).2.mpr hrange).1 s p hcall⟩

/-- A priority of 140 is an index past the end, and 2^32 + 5 is queued with priority 5. -/
theorem priority_index_iff_unchecked :
    (readConfig .zero (some (singleFile "140")) = .ok (.single 140) ∧
      ∃ s p, Calls ((Configuration.single 140).system calcCode false fun _ => 0) s p ∧
        (s.prio p).toNat = maxPrio ∧ ¬ IndexValid (singleFile "140") s p) ∧
    (readConfig .zero (some (singleFile "4294967301")) = .ok (.single 4294967301) ∧
      ∃ s p, Calls ((Configuration.single 4294967301).system calcCode false fun _ => 0) s p ∧
        (s.prio p).toNat = 5 ∧ ¬ IndexValid (singleFile "4294967301") s p) := by
  constructor
  · obtain ⟨s, p, hcall, -, hprio⟩ := single_called 140
    have hindex : (s.prio p).toNat = maxPrio := congrArg UInt32.toNat hprio
    refine ⟨rfl, s, p, hcall, hindex, ?_⟩
    rintro ⟨hlt, -⟩
    exact Nat.ne_of_lt hlt hindex
  · obtain ⟨s, p, hcall, hp, hprio⟩ := single_called 4294967301
    have hindex : (s.prio p).toNat = 5 := congrArg UInt32.toNat hprio
    refine ⟨rfl, s, p, hcall, hindex, ?_⟩
    rintro ⟨-, m, hm, hvalue⟩
    have hfile : writtenPrio (singleFile "4294967301") 0 = some ⟨false, 4294967301⟩ := rfl
    rw [hp, hfile] at hm
    rw [hindex] at hvalue
    cases hm
    cases hvalue

end AssignmentOS.Os
