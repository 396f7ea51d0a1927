import AssignmentOS.Lib.Decimal
import AssignmentOS.Loader.Printing
import AssignmentOS.Os.Configuration

/-!
# Reading a printed configuration

A configuration as the files in `input/` write it: the settings on two lines, then
one line for each process. `read_config` stores exactly what was printed, whatever
was in memory before (`readConfig_printConfig`).
-/

namespace AssignmentOS.Os

open Fallible Scan
open Loader (EndsLine)

/-- A line for a process. Its name is a word for `%s` and leaves room for the directory. -/
structure ConfigLine where
  startTime : UInt64
  proc : List Char
  prio : UInt64
  proc_ne_nil : proc ≠ []
  proc_word : ∀ c ∈ proc, isspace c = false ∧ c ≠ '\x00'
  proc_fits : proc.length < 89

/-- What a configuration file says. The number of processes is an `int` too. -/
structure ConfigFile where
  timeSlot : Int32
  numCpus : Int32
  memramsz : Int32
  memswpsz : List.Vector Int32 pagingMaxMmswp
  lines : List ConfigLine
  lines_lt : lines.length < 0x80000000

variable {file : ConfigFile} {line : ConfigLine} {before : ConfigBefore}

-- ---------------------------------------------------------------------------
-- Printing
-- ---------------------------------------------------------------------------

def ConfigLine.print (line : ConfigLine) : List Char :=
  Numeral.print ⟨false, line.startTime.toNat⟩ ++ ' ' ::
    (line.proc ++ ' ' :: Numeral.print ⟨false, line.prio.toNat⟩)

def printLines (lines : List ConfigLine) : List Char := lines.flatMap fun line => '\n' :: line.print

def ConfigFile.counts (file : ConfigFile) : List Numeral :=
  [.ofInt file.timeSlot.toInt, .ofInt file.numCpus.toInt, ⟨false, file.lines.length⟩]

def ConfigFile.swaps (file : ConfigFile) : List Numeral :=
  file.memswpsz.toList.map fun sz => .ofInt sz.toInt

def printRow (ms : List Numeral) : List Char := (ms.flatMap (' ' :: ·.print)).tail

def printConfig (file : ConfigFile) : List Char :=
  printRow file.counts ++
    '\n' :: (printRow (.ofInt file.memramsz.toInt :: file.swaps) ++ printLines file.lines)

-- ---------------------------------------------------------------------------
-- What is stored
-- ---------------------------------------------------------------------------

def ConfigLine.ldProcess (line : ConfigLine) : LdProcess where
  path := "input/proc/".toList ++ line.proc
  startTime := line.startTime
  prio := line.prio

def ConfigFile.configuration (file : ConfigFile) : Configuration where
  timeSlot := file.timeSlot.toInt
  numCpus := file.numCpus.toInt
  numProcesses := file.lines.length
  memramsz := file.memramsz.toInt
  memswpsz := file.memswpsz.toList.map Int32.toInt
  ldProcesses := ⟨file.lines.map ConfigLine.ldProcess, List.length_map _⟩

theorem scanInt_ofInt (before : ConfigBefore) (v : Int32) :
    scanInt before (some (.ofInt v.toInt)) = v.toInt :=
  congrArg Int32.toInt (signed_ofInt before.outsideInt v)

theorem scanInt_natural (before : ConfigBefore) (h : n < 0x80000000) :
    scanInt before (some ⟨false, n⟩) = n := by
  have hn : (Int32.ofInt n).toInt = n := Int32.toInt_ofInt_of_le (by omega) (by omega)
  have hprint : Numeral.ofInt (Int32.ofInt n).toInt = ⟨false, n⟩ := by simp [Numeral.ofInt, hn]
  rw [← hprint, scanInt_ofInt, hn]

theorem readProc_line (before : ConfigBefore) (i : Nat) (line : ConfigLine) :
    readProc before i ⟨some ⟨false, line.startTime.toNat⟩, some line.proc,
      some ⟨false, line.prio.toNat⟩⟩ =
      .ok line.ldProcess := by
  have hword : cString line.proc = line.proc :=
    cString_of_notMem fun hmem => (line.proc_word _ hmem).2 rfl
  have hshort : ¬ 100 ≤ line.proc.length := Nat.not_le.mpr (Nat.lt_trans line.proc_fits (by decide))
  have hpath : ("input/proc/".toList ++ line.proc).length < 100 := by
    have hdir : "input/proc/".toList.length = 11 := rfl
    have hfits := line.proc_fits
    rw [List.length_append, hdir]
    omega
  simp only [readProc, procPath, Option.getD_some, if_neg hshort, hword, if_pos hpath,
    ok_bind, scanLong, Option.elim_some, unsignedLong_toNat]
  rfl

-- ---------------------------------------------------------------------------
-- What is scanned
-- ---------------------------------------------------------------------------

theorem skipSpace_printRow (m : Numeral) (ms : List Numeral) (rest : List Char) :
    skipSpace (printRow (m :: ms) ++ rest) =
      skipSpace ((m :: ms).flatMap (' ' :: ·.print) ++ rest) :=
  (skipSpace_cons rfl).symm

theorem numeralsLine_skipSpace (k : Nat) (text : List Char) :
    numeralsLine (k + 1) (skipSpace text) = numeralsLine (k + 1) text := by
  rw [numeralsLine, numeralsLine, numerals_skipSpace]

theorem numeralsLine_printRow (m : Numeral) (ms : List Numeral) (hstop : Stops Char.isDigit rest) :
    ∃ values, numeralsLine (ms.length + 1) (printRow (m :: ms) ++ rest) = (values, skipSpace rest) ∧
      values.map Prod.fst = m :: ms := by
  obtain ⟨values, hvalues, hfst⟩ := numeralsLine_print (m :: ms) hstop
  refine ⟨values, ?_, hfst⟩
  rw [← hvalues, List.length_cons, ← numeralsLine_skipSpace, skipSpace_printRow,
    numeralsLine_skipSpace]

theorem scanSwaps_skipSpace (left : Nat) (text : List Char) :
    scanSwaps (left + 1) (skipSpace text) = scanSwaps (left + 1) text := by
  rw [scanSwaps, scanSwaps, skipSpace_skipSpace]

theorem scanSwaps_print (ms : List Numeral) (hstop : Stops Char.isDigit rest) :
    scanSwaps ms.length (ms.flatMap (' ' :: ·.print) ++ rest) = (ms.map some, rest) := by
  induction ms with
  | nil => rfl
  | cons m ms ih =>
    have hskip : skipSpace (' ' :: m.print ++ (ms.flatMap (' ' :: ·.print) ++ rest)) =
        m.print ++ (ms.flatMap (' ' :: ·.print) ++ rest) := by
      rw [List.cons_append, skipSpace_cons rfl]
      exact skipSpace_of_stops (stops_print m _)
    rw [List.flatMap_cons, List.append_assoc, List.length_cons, scanSwaps, hskip,
      numeral_print m (stops_flatMap_print ms hstop)]
    simp only [ih, List.map_cons]

theorem endsLine_printLines (lines : List ConfigLine) (htail : EndsLine tail) :
    EndsLine (printLines lines ++ tail) := by
  cases lines with
  | nil => exact htail
  | cons line lines => exact .inr ⟨_, rfl⟩

def ConfigFile.settings (file : ConfigFile) : Settings where
  timeSlot := some (.ofInt file.timeSlot.toInt)
  numCpus := some (.ofInt file.numCpus.toInt)
  numProcesses := some ⟨false, file.lines.length⟩
  memramsz := some (.ofInt file.memramsz.toInt)
  memswpsz := file.swaps.map some

theorem scanSettings_printed (file : ConfigFile) (htail : EndsLine tail) :
    scanSettings (printConfig file ++ tail) =
      (file.settings, skipSpace (printLines file.lines ++ tail)) := by
  have hstop := (endsLine_printLines file.lines htail).stops.1
  have hswaps : scanSwaps pagingMaxMmswp (file.swaps.flatMap (' ' :: ·.print) ++
      (printLines file.lines ++ tail)) =
      (file.swaps.map some, printLines file.lines ++ tail) := by
    have hlength : file.swaps.length = pagingMaxMmswp :=
      (List.length_map _).trans file.memswpsz.toList_length
    rw [← hlength]
    exact scanSwaps_print file.swaps hstop
  have hnewline : Stops Char.isDigit ('\n' ::
    (printRow (.ofInt file.memramsz.toInt :: file.swaps) ++ (printLines file.lines ++ tail))) := by
    rintro _ ⟨⟩
    rfl
  obtain ⟨counts, hcounts, hfst⟩ := numeralsLine_printRow (.ofInt file.timeSlot.toInt)
    [.ofInt file.numCpus.toInt, ⟨false, file.lines.length⟩] hnewline
  obtain ⟨ram, hram, hramfst⟩ := numeralsLine_printRow (.ofInt file.memramsz.toInt) []
    (stops_flatMap_print file.swaps hstop)
  have hrow : printRow (.ofInt file.memramsz.toInt :: file.swaps) ++
      (printLines file.lines ++ tail) =
      printRow [.ofInt file.memramsz.toInt] ++
        (file.swaps.flatMap (' ' :: ·.print) ++ (printLines file.lines ++ tail)) := by
    simp [printRow]
  have htext : printConfig file ++ tail = printRow file.counts ++ '\n' ::
      (printRow (.ofInt file.memramsz.toInt :: file.swaps) ++ (printLines file.lines ++ tail)) := by
    simp [printConfig]
  rw [← hrow, ← numeralsLine_skipSpace, ← skipSpace_cons (c := '\n') rfl] at hram
  rw [scanSettings, htext]
  simp only [ConfigFile.counts, List.length_nil, Nat.zero_add, List.length_cons,
    Nat.reduceAdd] at hcounts hram ⊢
  have hthree := congrArg (·[2]?) hfst
  have hram0 := congrArg (·[0]?) hramfst
  have hcount0 := congrArg (·[0]?) hfst
  have hcount1 := congrArg (·[1]?) hfst
  simp only [List.getElem?_map, List.getElem?_cons_zero,
    List.getElem?_cons_succ] at hthree hram0 hcount0 hcount1
  simp only [hcounts, hram, pagingMaxMmswp, scanSwaps_skipSpace 3] at hswaps ⊢
  simp only [hswaps, hthree, hram0, hcount0, hcount1]
  rfl

theorem scanProcLine_printed (line : ConfigLine) (hmore : EndsLine more)
    (htext : skipSpace text = skipSpace (line.print ++ more)) :
    scanProcLine text = (⟨some ⟨false, line.startTime.toNat⟩, some line.proc,
      some ⟨false, line.prio.toNat⟩⟩, skipSpace more) := by
  have hline : skipSpace text = Numeral.print ⟨false, line.startTime.toNat⟩ ++
      ' ' :: (line.proc ++ ' ' :: (Numeral.print ⟨false, line.prio.toNat⟩ ++ more)) := by
    rw [htext, ConfigLine.print]
    simp only [List.append_assoc, List.cons_append]
    exact skipSpace_of_stops (stops_print _ _)
  have hspace : ∀ rest, Stops Char.isDigit (' ' :: rest) := by
    rintro _ _ ⟨⟩
    rfl
  have hword : word (' ' :: (line.proc ++
      ' ' :: (Numeral.print ⟨false, line.prio.toNat⟩ ++ more))) =
      some (line.proc, ' ' :: (Numeral.print ⟨false, line.prio.toNat⟩ ++ more)) := by
    rw [word_congr (skipSpace_cons rfl)]
    exact word_append line.proc_ne_nil (fun c hc => (line.proc_word c hc).1) (by rintro _ ⟨⟩; rfl)
  have hprio : skipSpace (' ' :: (Numeral.print ⟨false, line.prio.toNat⟩ ++ more)) =
      Numeral.print ⟨false, line.prio.toNat⟩ ++ more := by
    rw [skipSpace_cons rfl]
    exact skipSpace_of_stops (stops_print _ _)
  simp only [scanProcLine, hline, numeral_print _ (hspace _), hword, hprio,
    numeral_print _ hmore.stops.1]

theorem readProcs_printed (before : ConfigBefore) (lines : List ConfigLine) (htail : EndsLine tail)
    (i : Nat) (htext : skipSpace text = skipSpace (printLines lines ++ tail)) :
    readProcs before lines.length i text =
      .ok ⟨lines.map ConfigLine.ldProcess, List.length_map _⟩ := by
  induction lines generalizing i text with
  | nil => rfl
  | cons line lines ih =>
    have hnext : skipSpace text = skipSpace (line.print ++ (printLines lines ++ tail)) := by
      rw [htext, printLines, List.flatMap_cons, List.append_assoc, List.cons_append,
        skipSpace_cons rfl]
      rfl
    have hscan := scanProcLine_printed line (endsLine_printLines lines htail) hnext
    have hrest := ih (i + 1) (skipSpace_skipSpace (printLines lines ++ tail))
    simp only [List.length_cons, readProcs, hscan, readProc_line, ok_bind, hrest]
    rfl

theorem storeConfig_eq (hnum : scanInt before settings.numProcesses = m)
    (hprocs : readProcs before m.toNat 0 text = .ok procs) :
    storeConfig before settings text = .ok
      { timeSlot := scanInt before settings.timeSlot
        numCpus := scanInt before settings.numCpus
        numProcesses := m
        memramsz := scanInt before settings.memramsz
        memswpsz := settings.memswpsz.map (scanInt before)
        ldProcesses := procs } := by
  subst hnum
  rw [storeConfig, hprocs]
  rfl

theorem readConfig_printed (before : ConfigBefore) (file : ConfigFile) (htail : EndsLine tail) :
    readConfig before (some (printConfig file ++ tail)) = .ok file.configuration := by
  have hnum : scanInt before file.settings.numProcesses = file.lines.length :=
    scanInt_natural before file.lines_lt
  have hprocs := readProcs_printed before file.lines htail 0
    (skipSpace_skipSpace (printLines file.lines ++ tail))
  have hswaps : (file.swaps.map some).map (scanInt before) =
      file.memswpsz.toList.map Int32.toInt := by
    rw [ConfigFile.swaps, List.map_map, List.map_map]
    exact List.map_congr_left fun sz _ => scanInt_ofInt before sz
  rw [readConfig, scanSettings_printed file htail, storeConfig_eq hnum hprocs]
  simp only [ConfigFile.settings, ConfigFile.configuration, scanInt_ofInt, hswaps]

theorem ldProcess_injective : Function.Injective ConfigLine.ldProcess := by
  intro line line' h
  have hproc : line.proc = line'.proc := List.append_cancel_left (congrArg LdProcess.path h)
  have hstart : line.startTime = line'.startTime := congrArg LdProcess.startTime h
  have hprio : line.prio = line'.prio := congrArg LdProcess.prio h
  cases line
  cases line'
  cases hproc
  cases hstart
  cases hprio
  rfl

theorem configuration_injective : Function.Injective ConfigFile.configuration := by
  intro file file' h
  have htime : file.timeSlot = file'.timeSlot :=
    Int32.toInt_inj.mp (congrArg Configuration.timeSlot h)
  have hcpus : file.numCpus = file'.numCpus := Int32.toInt_inj.mp (congrArg Configuration.numCpus h)
  have hram : file.memramsz = file'.memramsz :=
    Int32.toInt_inj.mp (congrArg Configuration.memramsz h)
  have hswaps : file.memswpsz = file'.memswpsz := List.Vector.eq _ _
    (List.map_injective_iff.mpr (fun _ _ => Int32.toInt_inj.mp) (congrArg Configuration.memswpsz h))
  have hlines : file.lines = file'.lines := List.map_injective_iff.mpr ldProcess_injective
    (congrArg (fun conf : Configuration => conf.ldProcesses.toList) h)
  cases file
  cases file'
  cases htime
  cases hcpus
  cases hram
  cases hswaps
  cases hlines
  rfl

/-- What is printed is read back, and no other file is read like it. -/
theorem readConfig_printConfig (before before' : ConfigBefore) (file file' : ConfigFile)
    (htail : EndsLine tail) (htail' : EndsLine tail') :
    readConfig before (some (printConfig file ++ tail)) = .ok file.configuration ∧
      (readConfig before' (some (printConfig file' ++ tail')) = .ok file.configuration →
        file' = file) := by
  refine ⟨readConfig_printed before file htail, fun h => configuration_injective ?_⟩
  rw [readConfig_printed before' file' htail'] at h
  exact Except.ok.inj h

theorem shortName_word (hc : isspace c = false ∧ c ≠ '\x00') :
    ∀ d ∈ ['s', c], isspace d = false ∧ d ≠ '\x00' := by
  intro d hd
  rcases List.mem_pair.mp hd with rfl | rfl
  · exact ⟨rfl, by decide⟩
  · exact hc

theorem twoLetters_fit : 2 < 89 := by decide

/-- The lines of `input/os_1_singleCPU_mlq_paging` for its first two processes. -/
def twoLines : List ConfigLine := [
  ⟨1, ['s', '4'], 4, List.cons_ne_nil _ _, shortName_word (by decide), twoLetters_fit⟩,
  ⟨2, ['s', '3'], 3, List.cons_ne_nil _ _, shortName_word (by decide), twoLetters_fit⟩]

theorem twoLines_lt : twoLines.length < 0x80000000 := by decide

def twoLinesFile : ConfigFile := ⟨2, 1, 1048576, ⟨[16777216, 0, 0, 0], rfl⟩, twoLines, twoLines_lt⟩

example : printConfig twoLinesFile = "2 1 2\n1048576 16777216 0 0 0\n1 s4 4\n2 s3 3".toList := by
  decide

theorem readConfig_printConfig_twoLines :
    readConfig ⟨fun _ => 0, fun _ => 0, fun _ => [], fun _ => 0, fun _ => 0⟩
      (some (printConfig twoLinesFile ++ ['\n'])) = .ok twoLinesFile.configuration :=
  (readConfig_printConfig _ ⟨fun _ => 0, fun _ => 0, fun _ => [], fun _ => 0, fun _ => 0⟩
    twoLinesFile twoLinesFile
    (.inr ⟨[], rfl⟩) (.inl rfl)).1

end AssignmentOS.Os
