import AssignmentOS.Lib.Decimal
import AssignmentOS.Loader.Model

/-!
# Loading what was printed

A program written as a header and one line for each instruction. What matters
of the text between two turns of the loop is what follows its white space,
since each turn begins with a word.
-/

namespace AssignmentOS.Loader

open Fallible Scan

variable {before : Before} {ins : Inst} {s : Reader} {more : List Char}

def name : InsOpcode → List Char
  | .calc => optCalc
  | .alloc => optAlloc
  | .free => optFree
  | .read => optRead
  | .write => optWrite
  | .syscall => optSyscall

def args (ins : Inst) : List UInt32 :=
  [ins.arg0, ins.arg1, ins.arg2, ins.arg3].take (arity ins.opcode)

/-- An instruction as far as it is in use. -/
def used (ins : Inst) : InsOpcode × List UInt32 := (ins.opcode, args ins)

def printArgs (values : List UInt32) : List Char := values.flatMap fun v => ' ' :: decimal v.toNat

def printLine (ins : Inst) : List Char := name ins.opcode ++ printArgs (args ins)

def printText (text : List Inst) : List Char := text.flatMap fun ins => '\n' :: printLine ins

def printProgram (priority : UInt32) (code : CodeSeg) : List Char :=
  decimal priority.toNat ++ ' ' :: decimal code.size ++ printText code.text

/-- The arguments of a system call are read with `%d`. -/
def Printable (ins : Inst) : Prop := ins.opcode = .syscall → ∀ v ∈ args ins, v.toNat < 0x80000000

-- ---------------------------------------------------------------------------
-- Words and arguments
-- ---------------------------------------------------------------------------

theorem getOpcode_name (opcode : InsOpcode) : getOpcode (name opcode) = .ok opcode := by
  cases opcode <;> rfl

theorem isspace_name (opcode : InsOpcode) : ∀ c ∈ name opcode, isspace c = false := by
  have hall : (name opcode).all (!isspace ·) = true := by
    cases opcode <;> rfl
  simpa using hall

theorem name_ne_nil (opcode : InsOpcode) : name opcode ≠ [] := by
  cases opcode <;> exact List.cons_ne_nil _ _

theorem name_fits (opcode : InsOpcode) : (name opcode).length < opcodeSz := by
  cases opcode <;> decide

theorem args_length (ins : Inst) : (args ins).length = arity ins.opcode := by
  unfold args arity
  cases ins.opcode <;> rfl

theorem args_inst (l : LoadedInst) : args l.inst = l.slots.map Slot.value := by
  unfold args LoadedInst.slots
  rw [List.map_take]
  rfl

theorem args_assign (origin : Origin) (old : Inst) (h : slots.length = arity opcode) :
    args (assign opcode origin slots old).inst = slots.map Slot.value := by
  obtain ⟨stale, hslots, -, hlength⟩ := assign_slots origin old (Nat.le_of_eq h)
  have hnil : stale = [] := List.length_eq_zero_iff.mp (by omega)
  rw [args_inst, hslots, hnil, List.append_nil]

theorem printArgs_eq (values : List UInt32) :
    printArgs values = (values.map UInt32.toNat).flatMap (' ' :: decimal ·) := by
  rw [List.flatMap_map]
  rfl

theorem mem_printArgs (h : c ∈ printArgs values) : c = ' ' ∨ c.isDigit := by
  obtain ⟨v, -, hc⟩ := List.mem_flatMap.mp h
  rcases List.mem_cons.mp hc with rfl | hc
  · exact .inl rfl
  · exact .inr (isDigit_of_mem_decimal hc)

theorem decimal_length_le (v : UInt32) : (decimal v.toNat).length ≤ 10 :=
  (Nat.length_toDigits_le_iff (by decide) (by decide)).mpr (v.toNat_lt_size.trans (by decide))

theorem printArgs_length_le (values : List UInt32) :
    (printArgs values).length ≤ 11 * values.length := by
  induction values with
  | nil => exact Nat.le_refl _
  | cons v values ih =>
    have hv := decimal_length_le v
    unfold printArgs at ih ⊢
    simp only [List.flatMap_cons, List.length_append, List.length_cons]
    omega

def EndsLine (more : List Char) : Prop := more = [] ∨ ∃ next, more = '\n' :: next

theorem EndsLine.stops (h : EndsLine more) : Stops Char.isDigit more ∧ Stops (!isspace ·) more := by
  rcases h with rfl | ⟨next, rfl⟩
  · exact ⟨by rintro _ ⟨⟩, by rintro _ ⟨⟩⟩
  · exact ⟨by rintro _ ⟨⟩; rfl, by rintro _ ⟨⟩; rfl⟩

theorem endsLine_printText (text : List Inst) (htail : EndsLine tail) :
    EndsLine (printText text ++ tail) := by
  cases text with
  | nil => exact htail
  | cons ins text => exact .inr ⟨_, rfl⟩

theorem scanUnsigned_printed (before : Before) (values : List UInt32) (hmore : EndsLine more)
    (hrest : s.rest = printArgs values ++ more) :
    ∃ slots s', scanUnsigned before values.length s = (slots, s') ∧
      slots.map Slot.value = values ∧ skipSpace s'.rest = skipSpace more := by
  obtain ⟨found, hfound, hfst⟩ := numeralsLine_decimal (values.map UInt32.toNat) hmore.stops.1
  rw [List.length_map, ← printArgs_eq, ← hrest] at hfound
  refine ⟨_, _, by simp only [scanUnsigned, hfound]; rfl, ?_, skipSpace_skipSpace more⟩
  calc
    (found.map fun v => (⟨unsigned before.outsideUnsigned v.1, .token v.2⟩ : Slot)).map Slot.value
      = (found.map Prod.fst).map (unsigned before.outsideUnsigned) := by simp
    _ = values := by rw [hfst]; simp [unsigned_toNat, Function.comp_def]

theorem fgets_printed (hne : line ≠ []) (hnl : '\n' ∉ line) (hfit : line.length + 2 ≤ bufSz)
    (hmore : EndsLine more) :
    ∃ last rest, fgets bufSz (line ++ more) = some (line ++ last, rest) ∧
      (last = [] ∨ last = ['\n']) ∧
      skipSpace rest = skipSpace more := by
  rcases hmore with rfl | ⟨next, rfl⟩
  · exact ⟨[], [], by rw [List.append_nil]; exact fgets_last hne hnl hfit, .inl rfl, rfl⟩
  · exact ⟨['\n'], next, fgets_line hne hnl hfit next, .inr rfl, (skipSpace_cons rfl).symm⟩

theorem newline_notMem_printArgs (values : List UInt32) : '\n' ∉ printArgs values := by
  intro hmem
  rcases mem_printArgs hmem with h | h <;> cases h

theorem cString_printArgs (values : List UInt32) (hlast : last = [] ∨ last = ['\n']) :
    cString (printArgs values ++ last) = printArgs values ++ last := by
  refine cString_of_notMem fun hc => ?_
  rcases List.mem_append.mp hc with hc | hc
  · rcases mem_printArgs hc with h | h <;> cases h
  · rcases hlast with rfl | rfl
    · cases hc
    · cases List.mem_singleton.mp hc

theorem scanSyscall_printed (before : Before) (values : List UInt32) (hlength : values.length = 4)
    (hsmall : ∀ v ∈ values, v.toNat < 0x80000000) (hmore : EndsLine more)
    (hrest : s.rest = printArgs values ++ more) :
    ∃ slots s', scanSyscall before s = (slots, s') ∧
      slots.map Slot.value = values ∧ skipSpace s'.rest = skipSpace more := by
  have hne : printArgs values ≠ [] := by
    cases values with
    | nil => cases hlength
    | cons v values => exact List.cons_ne_nil _ _
  have hfit : (printArgs values).length + 2 ≤ bufSz := by
    have hle := printArgs_length_le values
    rw [hlength] at hle
    exact Nat.le_trans (Nat.add_le_add_right hle 2) (by decide)
  obtain ⟨last, rest, hget, hlast, hskip⟩ :=
    fgets_printed hne (newline_notMem_printArgs values) hfit hmore
  have hnul := cString_printArgs values hlast
  have hstop : Stops Char.isDigit last := by
    rcases hlast with rfl | rfl
    · rintro _ ⟨⟩
    · rintro _ ⟨⟩
      rfl
  obtain ⟨found, hfound, hfst⟩ := numerals_decimal (values.map UInt32.toNat) hstop
  rw [List.length_map, hlength, ← printArgs_eq] at hfound
  refine ⟨_, _, by simp only [scanSyscall, hrest, hget, hnul, hfound]; rfl, ?_, hskip⟩
  calc (found.map fun v => (⟨signed before.outsideSigned v.1, _⟩ : Slot)).map Slot.value
      = (found.map Prod.fst).map (signed before.outsideSigned) := by simp
    _ = values := by
      rw [hfst, List.map_map, List.map_map]
      exact (List.map_congr_left fun v hv => signed_toNat before.outsideSigned (hsmall v hv)).trans
        (List.map_id' values)

theorem scanArgs_printed (before : Before) (hins : Printable ins) (hmore : EndsLine more)
    (hrest : s.rest = printArgs (args ins) ++ more) :
    ∃ slots s', scanArgs before ins.opcode s = (slots, s') ∧
      slots.map Slot.value = args ins ∧ skipSpace s'.rest = skipSpace more := by
  have hlength := args_length ins
  unfold scanArgs
  match hop : ins.opcode with
  | .calc =>
    rw [hop] at hlength
    have hnil : args ins = [] := List.length_eq_zero_iff.mp hlength
    rw [hnil] at hrest ⊢
    exact ⟨[], s, rfl, rfl, congrArg skipSpace hrest⟩
  | .alloc | .free | .read | .write =>
    rw [hop] at hlength
    have hscan := scanUnsigned_printed before (args ins) hmore hrest
    rwa [hlength] at hscan
  | .syscall =>
    rw [hop] at hlength
    exact scanSyscall_printed before (args ins) hlength (hins hop) hmore hrest

-- ---------------------------------------------------------------------------
-- The loop
-- ---------------------------------------------------------------------------

/-- One turn reads one line, from wherever in the white space before it. -/
theorem loadInst_printed (before : Before) (old : Inst) (hins : Printable ins)
    (hmore : EndsLine more) (hrest : skipSpace s.rest = skipSpace (printLine ins ++ more)) :
    ∃ l s', loadInst before old s = .ok (l, s') ∧ used l.inst = used ins ∧
      skipSpace s'.rest = skipSpace more := by
  have hstop : Stops (!isspace ·) (printArgs (args ins) ++ more) := by
    cases args ins with
    | nil => exact hmore.stops.2
    | cons v values =>
      rintro _ ⟨⟩
      rfl
  have hword : word s.rest = some (name ins.opcode, printArgs (args ins) ++ more) := by
    rw [word_congr hrest, printLine, List.append_assoc]
    exact word_append (name_ne_nil _) (isspace_name _) hstop
  obtain ⟨slots, s', hscan, hvalues, hskip⟩ := scanArgs_printed
    (s := { s with opcode := name ins.opcode, rest := printArgs (args ins) ++ more })
      before hins hmore rfl
  have hlength : slots.length = arity ins.opcode := by
    rw [← args_length, ← hvalues, List.length_map]
  refine ⟨assign ins.opcode (.token (skipSpace s.rest).length) slots old, s', ?_, ?_, hskip⟩
  · simp only [loadInst, scanOpcode, hword, name_fits, if_true, ok_bind, getOpcode_name, hscan]
  · exact congrArg (ins.opcode, ·) ((args_assign _ old hlength).trans hvalues)

theorem loadText_printed (before : Before) (text : List Inst) (htext : ∀ ins ∈ text, Printable ins)
    (htail : EndsLine tail) (hleft : left = text.length) (i : Nat)
    (hrest : skipSpace s.rest = skipSpace (printText text ++ tail)) :
    ∃ loaded, loadText before left i s = .ok loaded ∧
      loaded.toList.map (used ·.inst) = text.map used := by
  subst hleft
  induction text generalizing i s with
  | nil => exact ⟨.nil, rfl, rfl⟩
  | cons ins text ih =>
    have hline : skipSpace s.rest = skipSpace (printLine ins ++ (printText text ++ tail)) := by
      rw [hrest, printText, List.flatMap_cons, List.append_assoc, List.cons_append,
        skipSpace_cons rfl]
      rfl
    obtain ⟨l, s', hload, hused, hskip⟩ := loadInst_printed before (before.text i)
      (htext ins List.mem_cons_self) (endsLine_printText text htail) hline
    obtain ⟨loaded, hloaded, hmap⟩ := ih
      (fun ins' h => htext ins' (List.mem_cons_of_mem ins h)) (i + 1) hskip
    refine ⟨.cons l loaded, ?_, ?_⟩
    · simp only [List.length_cons, loadText, hload, ok_bind, hloaded]
    · rw [List.Vector.toList_cons, List.map_cons, List.map_cons, hused, hmap]

theorem scanHeader_printed (before : Before) (priority : UInt32) (code : CodeSeg)
    (htail : EndsLine tail) :
    ∃ size, scanHeader before (printProgram priority code ++ tail) =
        (priority, size, printText code.text ++ tail) ∧ size.toNat = code.size := by
  obtain ⟨values, hvalues, hfst⟩ := numerals_decimal [priority.toNat, code.size]
    (endsLine_printText code.text htail).stops.1
  have htext : skipSpace (printProgram priority code ++ tail) =
      skipSpace ([priority.toNat, code.size].flatMap (' ' :: decimal ·) ++
        (printText code.text ++ tail)) := by
    simp [printProgram, skipSpace_cons (c := ' ') rfl]
  have hscan : numerals 2 (printProgram priority code ++ tail) =
      (values, printText code.text ++ tail) := by
    rw [← numerals_skipSpace, htext, numerals_skipSpace]
    exact hvalues
  obtain ⟨v, rest, rfl, hv, hrest⟩ := List.map_eq_cons_iff.mp hfst
  obtain ⟨w, rest', rfl, hw, -⟩ := List.map_eq_cons_iff.mp hrest
  refine ⟨unsigned before.outsideUnsigned w.1, ?_, ?_⟩
  · simp only [scanHeader, hscan]
    simp [hv, unsigned_toNat]
  · have hfits : Numeral.FitsUnsigned ⟨false, code.size⟩ := ⟨code.size_lt, .inl rfl⟩
    rw [hw, unsigned, if_pos hfits]
    exact UInt32.toNat_ofNat_of_lt' code.size_lt

/-- Loading inverts printing. The last line may end with a newline or with the file. -/
theorem load_printProgram (before : Before) (availPid : UInt32) (path : List Char)
    (priority : UInt32) (code : CodeSeg) (hcode : ∀ ins ∈ code.text, Printable ins)
    (htail : tail = [] ∨ tail = ['\n']) :
    ∃ proc, load before availPid path (some (printProgram priority code ++ tail)) =
      .ok (proc, availPid + 1) ∧
      proc.pcb.pc = 0 ∧ proc.priority = priority ∧ proc.pcb.code.size = code.size ∧
      proc.pcb.code.text.map used = code.text.map used := by
  have hends : EndsLine tail := htail.imp id fun h => ⟨[], h⟩
  obtain ⟨size, hheader, hsize⟩ := scanHeader_printed before priority code hends
  obtain ⟨loaded, hloaded, hmap⟩ :=
    loadText_printed (s := ⟨before.opcode, before.buf, printText code.text ++ tail⟩)
      before code.text hcode hends hsize 0 rfl
  refine ⟨newPcb availPid priority path size loaded, ?_, rfl, rfl, ?_, ?_⟩
  · rw [load_of_header availPid path hheader, hloaded]
    rfl
  · simp [newPcb, LoadedPcb.pcb, CodeSeg.size, hsize]
  · exact (List.map_map ..).trans hmap

def threeLines : CodeSeg where
  text := [⟨.calc, 0, 0, 0, 0⟩, ⟨.alloc, 300, 4, 0, 0⟩, ⟨.syscall, 17, 1, 2, 3⟩]
  size_lt := by decide

theorem load_printProgram_threeLines :
    ∃ proc, load .zero 1 [] (some (printProgram 20 threeLines ++ ['\n'])) = .ok (proc, 1 + 1) ∧
      proc.pcb.pc = 0 ∧ proc.priority = 20 ∧ proc.pcb.code.size = threeLines.size ∧
      proc.pcb.code.text.map used = threeLines.text.map used :=
  load_printProgram .zero 1 [] 20 threeLines
    (by simp [threeLines, Printable, args, arity]) (.inr rfl)

end AssignmentOS.Loader
