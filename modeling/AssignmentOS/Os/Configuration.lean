import AssignmentOS.Lib.Fallible
import AssignmentOS.Lib.Scan
import Mathlib.Data.Vector.Basic

/-!
# The configuration file

`read_config` of `os.c` on the characters of the file. It looks at no return
value of `fscanf`: a process whose line is not complete keeps what `malloc` and
the stack held. A file that can be opened is rejected for nothing that it says
(`readConfig_exit_iff`).
-/

namespace AssignmentOS.Os

open Fallible Scan

/-- What is there before the file is read: the memory that `malloc` returns for
the arrays of `ld_processes`, the local array `proc` at each turn of the loop,
and what a numeral out of range converts to. -/
structure ConfigBefore where
  startTime : Nat → UInt64
  prio : Nat → UInt64
  proc : Nat → List Char
  outsideInt : Numeral → UInt32
  outsideLong : Numeral → UInt64

inductive ConfigFault
  -- a message and `exit(1)`
  | exit
  -- more is stored than `proc` or the path has room for
  | overflow
  deriving DecidableEq, Repr

structure LdProcess where
  path : List Char
  startTime : UInt64
  prio : UInt64
  deriving DecidableEq, Repr

/-- The static variables that `read_config` writes. -/
structure Configuration where
  timeSlot : Int
  numCpus : Int
  numProcesses : Int
  memramsz : Int
  memswpsz : List Int
  ldProcesses : List.Vector LdProcess numProcesses.toNat

-- ---------------------------------------------------------------------------
-- What the conversions read
-- ---------------------------------------------------------------------------

def pagingMaxMmswp : Nat := 4

structure Settings where
  timeSlot : Option Numeral
  numCpus : Option Numeral
  numProcesses : Option Numeral
  memramsz : Option Numeral
  memswpsz : List (Option Numeral)

/-- The loop over `memswpsz`: a call of `fscanf` for each. -/
def scanSwaps : Nat → List Char → List (Option Numeral) × List Char
  | 0, text => ([], text)
  | left + 1, text =>
    let (value, text) := numeral (skipSpace text)
    let (values, text) := scanSwaps left text
    (value :: values, text)

def scanSettings (text : List Char) : Settings × List Char :=
  let (counts, text) := numeralsLine 3 text
  let (ram, text) := numeralsLine 1 text
  let (swaps, text) := scanSwaps pagingMaxMmswp text
  let settings : Settings :=
    { timeSlot := counts[0]?.map Prod.fst
      numCpus := counts[1]?.map Prod.fst
      numProcesses := counts[2]?.map Prod.fst
      memramsz := ram[0]?.map Prod.fst
      memswpsz := swaps }
  (settings, skipSpace text)

structure ProcLine where
  startTime : Option Numeral
  proc : Option (List Char)
  prio : Option Numeral

/-- `fscanf` with `%lu %s %lu` and a newline, up to the first conversion that fails. -/
def scanProcLine (text : List Char) : ProcLine × List Char :=
  match numeral (skipSpace text) with
  | (none, text) => (⟨none, none, none⟩, text)
  | (some startTime, text) =>
    match word text with
    | none => (⟨some startTime, none, none⟩, [])
    | some (proc, text) =>
      match numeral (skipSpace text) with
      | (none, text) => (⟨some startTime, some proc, none⟩, text)
      | (some prio, text) => (⟨some startTime, some proc, some prio⟩, skipSpace text)

def afterProcLines : Nat → List Char → List Char
  | 0, text => text
  | i + 1, text => afterProcLines i (scanProcLine text).2

def writtenPrio (file : List Char) (i : Nat) : Option Numeral :=
  (scanProcLine (afterProcLines i (scanSettings file).2)).1.prio

-- ---------------------------------------------------------------------------
-- What is stored
-- ---------------------------------------------------------------------------

/-- A static `int`, which is 0 until it is read. -/
def scanInt (before : ConfigBefore) (value : Option Numeral) : Int :=
  value.elim 0 fun m => (signed before.outsideInt m).toInt32.toInt

def scanLong (before : ConfigBefore) (old : UInt64) (value : Option Numeral) : UInt64 :=
  value.elim old (unsignedLong before.outsideLong)

def announcedProcs (before : ConfigBefore) (file : List Char) : Nat :=
  (scanInt before (scanSettings file).1.numProcesses).toNat

/-- `proc`, where a NUL follows the word, and the path that it is appended to. -/
def procPath (old : List Char) (value : Option (List Char)) : Except ConfigFault (List Char) :=
  if 100 ≤ (value.getD []).length then .error .overflow
  else
    let path := "input/proc/".toList ++ cString (value.getD old)
    if path.length < 100 then .ok path else .error .overflow

def readProc (before : ConfigBefore) (i : Nat) (line : ProcLine) :
    Except ConfigFault LdProcess := do
  let path ← procPath (before.proc i) line.proc
  .ok
    { path := path
      startTime := scanLong before (before.startTime i) line.startTime
      prio := scanLong before (before.prio i) line.prio }

/-- The loop from index `i` on, with `left` turns to go. -/
def readProcs (before : ConfigBefore) : (left i : Nat) → List Char →
    Except ConfigFault (List.Vector LdProcess left)
  | 0, _, _ => .ok .nil
  | left + 1, i, text => do
    let (line, text) := scanProcLine text
    let proc ← readProc before i line
    let procs ← readProcs before left (i + 1) text
    .ok (.cons proc procs)

def storeConfig (before : ConfigBefore) (settings : Settings) (text : List Char) :
    Except ConfigFault Configuration := do
  let procs ← readProcs before (scanInt before settings.numProcesses).toNat 0 text
  .ok
    { timeSlot := scanInt before settings.timeSlot
      numCpus := scanInt before settings.numCpus
      numProcesses := scanInt before settings.numProcesses
      memramsz := scanInt before settings.memramsz
      memswpsz := settings.memswpsz.map (scanInt before)
      ldProcesses := procs }

/-- `read_config`; no characters when the file cannot be opened. -/
def readConfig (before : ConfigBefore) (file : Option (List Char)) :
    Except ConfigFault Configuration :=
  match file with
  | none => .error .exit
  | some chars => storeConfig before (scanSettings chars).1 (scanSettings chars).2

-- ---------------------------------------------------------------------------
-- What it accepts
-- ---------------------------------------------------------------------------

variable {before : ConfigBefore}

theorem procPath_fails (old : List Char) (value : Option (List Char)) :
    FailsOnly (· = ConfigFault.overflow) (procPath old value) := by
  unfold procPath
  dsimp only
  split
  · exact failsOnly_error rfl
  split
  · exact failsOnly_ok _ _
  · exact failsOnly_error rfl

theorem readProcs_fails (before : ConfigBefore) (left i : Nat) (text : List Char) :
    FailsOnly (· = ConfigFault.overflow) (readProcs before left i text) := by
  induction left generalizing i text with
  | zero => exact failsOnly_ok _ _
  | succ left ih =>
    refine failsOnly_bind (failsOnly_bind (procPath_fails _ _) fun _ _ => failsOnly_ok _ _)
      fun _ _ => ?_
    exact failsOnly_bind (ih _ _) fun _ _ => failsOnly_ok _ _

def NameFits (old : List Char) (value : Option (List Char)) : Prop :=
  (value.getD []).length < 100 ∧ (cString (value.getD old)).length < 89

theorem procPath_ok_iff (old : List Char) (value : Option (List Char)) :
    (∃ path, procPath old value = .ok path) ↔ NameFits old value := by
  have hdir : "input/proc/".toList.length = 11 := rfl
  unfold procPath NameFits
  dsimp only
  rw [List.length_append, hdir]
  split
  · rename_i hlong
    simp [Nat.not_lt.mpr hlong]
  · rename_i hshort
    rw [and_iff_right (Nat.not_le.mp hshort)]
    split
    · rename_i hpath
      simp only [Except.ok.injEq, exists_eq', true_iff]
      omega
    · rename_i hpath
      simp only [reduceCtorEq, exists_false, false_iff]
      omega

theorem readProcs_ok_iff (before : ConfigBefore) (left i : Nat) (text : List Char) :
    (∃ procs, readProcs before left i text = .ok procs) ↔
      ∀ j, j < left → NameFits (before.proc (i + j))
        (scanProcLine (afterProcLines j text)).1.proc := by
  induction left generalizing i text with
  | zero => exact iff_of_true ⟨_, rfl⟩ (fun j hj => absurd hj (Nat.not_lt_zero j))
  | succ left ih =>
    constructor
    · rintro ⟨procs, h⟩ j hj
      obtain ⟨proc, hproc, h⟩ := bind_eq_ok.mp h
      obtain ⟨rest, hrest, -⟩ := bind_eq_ok.mp h
      cases j with
      | zero =>
        obtain ⟨path, hpath, -⟩ := bind_eq_ok.mp hproc
        exact (procPath_ok_iff _ _).mp ⟨path, hpath⟩
      | succ j =>
        have hfits := (ih (i + 1) _).mp ⟨rest, hrest⟩ j (Nat.lt_of_succ_lt_succ hj)
        rwa [Nat.add_assoc, Nat.add_comm 1] at hfits
    · intro h
      obtain ⟨path, hpath⟩ := (procPath_ok_iff _ _).mpr (h 0 (Nat.succ_pos left))
      obtain ⟨rest, hrest⟩ := (ih (i + 1) (scanProcLine text).2).mpr fun j hj => by
        rw [Nat.add_right_comm]
        exact h (j + 1) (Nat.succ_lt_succ hj)
      exact ⟨_, bind_eq_ok.mpr ⟨_, bind_eq_ok.mpr ⟨path, hpath, rfl⟩,
        bind_eq_ok.mpr ⟨rest, hrest, rfl⟩⟩⟩

/-- A file is read to its end whenever the names of its processes fit, whatever else it says. -/
theorem readConfig_ok_iff (before : ConfigBefore) (file : List Char) :
    (∃ conf, readConfig before (some file) = .ok conf) ↔
      ∀ i, i < announcedProcs before file →
        NameFits (before.proc i) (scanProcLine
          (afterProcLines i (scanSettings file).2)).1.proc := by
  have hprocs := readProcs_ok_iff before (announcedProcs before file) 0 (scanSettings file).2
  simp only [Nat.zero_add] at hprocs
  rw [← hprocs]
  constructor
  · rintro ⟨conf, h⟩
    obtain ⟨procs, hread, -⟩ := bind_eq_ok.mp h
    exact ⟨procs, hread⟩
  · rintro ⟨procs, hread⟩
    exact ⟨_, bind_eq_ok.mpr ⟨procs, hread, rfl⟩⟩

/-- The error exit is taken for a file that cannot be opened, and for no other. -/
theorem readConfig_exit_iff (before : ConfigBefore) (file : Option (List Char)) :
    readConfig before file = .error .exit ↔ file = none := by
  cases file with
  | none => exact iff_of_true rfl rfl
  | some chars =>
    refine iff_of_false (fun h => ?_) (by simp)
    rcases bind_eq_error.mp h with hprocs | ⟨procs, -, h⟩
    · exact absurd (readProcs_fails before _ _ _ _ hprocs) (by decide)
    · cases h

-- ---------------------------------------------------------------------------
-- The priorities
-- ---------------------------------------------------------------------------

theorem readProcs_get (h : readProcs before left i text = .ok procs) (j : Fin left) :
    (procs.get j).prio =
      scanLong before (before.prio (i + j)) (scanProcLine (afterProcLines j text)).1.prio := by
  induction left generalizing i text with
  | zero => exact j.elim0
  | succ left ih =>
    obtain ⟨proc, hproc, h⟩ := bind_eq_ok.mp h
    obtain ⟨rest, hrest, h⟩ := bind_eq_ok.mp h
    obtain ⟨path, -, hproc⟩ := bind_eq_ok.mp hproc
    cases h
    cases hproc
    cases j using Fin.cases with
    | zero => rfl
    | succ j =>
      have hget := ih hrest j
      rw [List.Vector.get_cons_succ, hget, Fin.val_succ, Nat.add_assoc, Nat.add_comm 1]
      rfl

theorem storeConfig_numProcesses (h : storeConfig before settings text = .ok conf) :
    conf.numProcesses = scanInt before settings.numProcesses := by
  obtain ⟨procs, -, h⟩ := bind_eq_ok.mp h
  cases h
  rfl

theorem readConfig_announced (h : readConfig before (some file) = .ok conf) :
    conf.numProcesses.toNat = announcedProcs before file :=
  congrArg Int.toNat (storeConfig_numProcesses h)

theorem storeConfig_prio (h : storeConfig before settings text = .ok conf)
    (i : Fin conf.numProcesses.toNat) :
    (conf.ldProcesses.get i).prio =
      scanLong before (before.prio i) (scanProcLine (afterProcLines i text)).1.prio := by
  obtain ⟨procs, hprocs, h⟩ := bind_eq_ok.mp h
  cases h
  have hget := readProcs_get hprocs i
  rwa [Nat.zero_add] at hget

theorem readConfig_prio (h : readConfig before (some file) = .ok conf)
    (i : Fin conf.numProcesses.toNat) :
    (conf.ldProcesses.get i).prio = scanLong before (before.prio i) (writtenPrio file i) :=
  storeConfig_prio h i

end AssignmentOS.Os
