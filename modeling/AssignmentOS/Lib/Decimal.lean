import AssignmentOS.Lib.Scan

/-!
# Reading what was printed

Words, decimal numbers and lines are read back as they were written, provided
that what follows does not continue them.
-/

namespace Scan

theorem takeWhile_run (hrun : ∀ c ∈ run, p c) (hstop : Stops p rest) :
    (run ++ rest).takeWhile p = run := by
  rw [List.takeWhile_append_of_pos hrun]
  cases rest with
  | nil => simp
  | cons c rest => simp [hstop c rfl]

theorem dropWhile_run (hrun : ∀ c ∈ run, p c) (hstop : Stops p rest) :
    (run ++ rest).dropWhile p = rest := by
  rw [List.dropWhile_append_of_pos hrun]
  cases rest with
  | nil => simp
  | cons c rest => simp [hstop c rfl]

theorem word_append (hne : w ≠ []) (hw : ∀ c ∈ w, isspace c = false)
    (hrest : Stops (!isspace ·) rest) : word (w ++ rest) = some (w, rest) := by
  obtain ⟨c, cs, rfl⟩ := List.exists_cons_of_ne_nil hne
  have hskip : skipSpace (c :: cs ++ rest) = c :: cs ++ rest :=
    skipSpace_of_stops (by rintro _ ⟨⟩; exact hw c List.mem_cons_self)
  have hrun : ∀ d ∈ c :: cs, (!isspace d) = true := by
    intro d hd
    simp [hw d hd]
  unfold word
  rw [hskip, List.cons_append]
  simp only
  rw [← List.cons_append, takeWhile_run hrun hrest, dropWhile_run hrun hrest]

theorem isspace_of_isDigit (h : c.isDigit) : isspace c = false := by
  have hrange := Char.isDigit_iff_toNat.mp h
  have hne : c ≠ ' ' := by
    rintro rfl
    contradiction
  simp only [isspace, hne, decide_false, Bool.false_or, Bool.and_eq_false_iff,
    decide_eq_false_iff_not]
  exact .inr (by simp at hrange; omega)

theorem sign_of_isDigit (h : c.isDigit) : sign (c :: text) = (false, c :: text) := by
  unfold sign
  split
  · cases ‹_ = _›
    contradiction
  · cases ‹_ = _›
    contradiction
  · rfl

def decimal (n : Nat) : List Char := Nat.toDigits 10 n

theorem isDigit_of_mem_decimal (h : c ∈ decimal n) : c.isDigit :=
  Nat.isDigit_of_mem_toDigits (by decide) (by decide) h

theorem decimal_eq_cons (n : Nat) : ∃ d ds, decimal n = d :: ds ∧ d.isDigit := by
  obtain ⟨d, ds, hd⟩ := List.exists_cons_of_ne_nil (Nat.toDigits_ne_nil : Nat.toDigits 10 n ≠ [])
  exact ⟨d, ds, hd, isDigit_of_mem_decimal (by rw [decimal, hd]; exact List.mem_cons_self)⟩

theorem stops_decimal (n : Nat) (rest : List Char) : Stops isspace (decimal n ++ rest) := by
  obtain ⟨d, ds, hd, hdigit⟩ := decimal_eq_cons n
  rw [hd]
  rintro _ ⟨⟩
  exact isspace_of_isDigit hdigit

theorem numeral_decimal (n : Nat) (hstop : Stops Char.isDigit rest) :
    numeral (decimal n ++ rest) = (some ⟨false, n⟩, rest) := by
  have hdigits : ∀ c ∈ decimal n, c.isDigit := fun c => isDigit_of_mem_decimal
  have htake := takeWhile_run hdigits hstop
  have hdrop := dropWhile_run hdigits hstop
  have hvalue : Nat.ofDigitChars 10 (decimal n) 0 = n := Nat.ofDigitChars_ten_toDigits
  obtain ⟨d, ds, hd, hdigit⟩ := decimal_eq_cons n
  rw [hd] at htake hdrop hvalue ⊢
  unfold numeral
  rw [List.cons_append] at htake hdrop ⊢
  rw [sign_of_isDigit hdigit]
  simp only [htake, hdrop, hvalue]

/-- A numeral as it is written, with a minus sign where it is negative. -/
def Numeral.print (m : Numeral) : List Char :=
  if m.negative then '-' :: decimal m.magnitude else decimal m.magnitude

theorem stops_print (m : Numeral) (rest : List Char) : Stops isspace (m.print ++ rest) := by
  obtain ⟨negative, magnitude⟩ := m
  cases negative with
  | false => exact stops_decimal magnitude rest
  | true =>
    rintro _ ⟨⟩
    rfl

theorem numeral_minus (hdigit : d.isDigit) (ds : List Char) :
    numeral ('-' :: d :: ds) = ((numeral (d :: ds)).1.map fun m => ⟨true, m.magnitude⟩,
      (numeral (d :: ds)).2) := by
  unfold numeral
  rw [sign_of_isDigit hdigit]
  simp only [sign, List.takeWhile_cons_of_pos hdigit, Option.map_some]

theorem numeral_print (m : Numeral) (hstop : Stops Char.isDigit rest) :
    numeral (m.print ++ rest) = (some m, rest) := by
  obtain ⟨negative, magnitude⟩ := m
  have hplain := numeral_decimal magnitude hstop
  cases negative with
  | false => exact hplain
  | true =>
    obtain ⟨d, ds, hd, hdigit⟩ := decimal_eq_cons magnitude
    rw [hd, List.cons_append] at hplain
    have hprint : Numeral.print ⟨true, magnitude⟩ ++ rest = '-' :: d :: (ds ++ rest) :=
      congrArg ('-' :: · ++ rest) hd
    rw [hprint, numeral_minus hdigit, hplain]
    rfl

theorem stops_flatMap_print (ms : List Numeral) (hstop : Stops Char.isDigit rest) :
    Stops Char.isDigit (ms.flatMap (' ' :: ·.print) ++ rest) := by
  cases ms with
  | nil => simpa using hstop
  | cons m ms =>
    rintro _ ⟨⟩
    rfl

/-- Numbers written one after the other, a space before each, are read back. -/
theorem numerals_print (ms : List Numeral) (hstop : Stops Char.isDigit rest) :
    ∃ values, numerals ms.length (ms.flatMap (' ' :: ·.print) ++ rest) = (values, rest) ∧
      values.map Prod.fst = ms := by
  induction ms with
  | nil => exact ⟨[], rfl, rfl⟩
  | cons m ms ih =>
    obtain ⟨values, hvalues, hfst⟩ := ih
    have hskip : skipSpace (' ' :: m.print ++ (ms.flatMap (' ' :: ·.print) ++ rest)) =
        m.print ++ (ms.flatMap (' ' :: ·.print) ++ rest) := by
      rw [List.cons_append, skipSpace_cons rfl]
      exact skipSpace_of_stops (stops_print m _)
    rw [List.flatMap_cons, List.append_assoc, List.length_cons, numerals, hskip,
      numeral_print m (stops_flatMap_print ms hstop)]
    simp only [hvalues]
    exact ⟨_, rfl, by simp [hfst]⟩

theorem numeralsLine_print (ms : List Numeral) (hstop : Stops Char.isDigit rest) :
    ∃ values, numeralsLine ms.length (ms.flatMap (' ' :: ·.print) ++ rest) =
      (values, skipSpace rest) ∧
      values.map Prod.fst = ms := by
  obtain ⟨values, hvalues, hfst⟩ := numerals_print ms hstop
  have hlength : values.length = ms.length := by simpa using congrArg List.length hfst
  exact ⟨values, by simp only [numeralsLine, hvalues, hlength, if_true], hfst⟩

theorem flatMap_decimal (args : List Nat) :
    args.flatMap (' ' :: decimal ·) = (args.map (Numeral.mk false)).flatMap (' ' :: ·.print) := by
  rw [List.flatMap_map]
  rfl

theorem numerals_decimal (args : List Nat) (hstop : Stops Char.isDigit rest) :
    ∃ values, numerals args.length (args.flatMap (' ' :: decimal ·) ++ rest) = (values, rest) ∧
      values.map Prod.fst = args.map (Numeral.mk false) := by
  have hprint := numerals_print (args.map (Numeral.mk false)) hstop
  rwa [← flatMap_decimal, List.length_map] at hprint

theorem numeralsLine_decimal (args : List Nat) (hstop : Stops Char.isDigit rest) :
    ∃ values, numeralsLine args.length (args.flatMap (' ' :: decimal ·) ++ rest) =
        (values, skipSpace rest) ∧ values.map Prod.fst = args.map (Numeral.mk false) := by
  have hprint := numeralsLine_print (args.map (Numeral.mk false)) hstop
  rwa [← flatMap_decimal, List.length_map] at hprint

theorem numerals_skipSpace (k : Nat) (text : List Char) :
    numerals (k + 1) (skipSpace text) = numerals (k + 1) text := by
  rw [numerals, numerals, skipSpace_skipSpace]

theorem unsigned_toNat (outside : Numeral → UInt32) (v : UInt32) :
    unsigned outside ⟨false, v.toNat⟩ = v := by
  have hfits : Numeral.FitsUnsigned ⟨false, v.toNat⟩ := ⟨v.toNat_lt_size, .inl rfl⟩
  simp [unsigned, hfits]

theorem signed_toNat (outside : Numeral → UInt32) (h : v.toNat < 0x80000000) :
    signed outside ⟨false, v.toNat⟩ = v := by
  simp [signed, h]

def Numeral.ofInt (n : Int) : Numeral := ⟨decide (n < 0), n.natAbs⟩

theorem signed_ofInt (outside : Numeral → UInt32) (v : Int32) :
    (signed outside (.ofInt v.toInt)).toInt32 = v := by
  have hle := v.le_toInt
  have hlt := v.toInt_lt
  have hin : v.toInt.natAbs < 0x80000000 ∨
      (decide (v.toInt < 0) = true ∧ v.toInt.natAbs = 0x80000000) := by
    rw [decide_eq_true_eq]
    omega
  have habs : v.toInt.natAbs.toUInt32.toInt32 = Int32.ofInt v.toInt.natAbs :=
    Int32.ofInt_eq_ofNat.symm
  unfold signed Numeral.ofInt
  rw [if_pos hin]
  by_cases hneg : v.toInt < 0
  · rw [if_pos (decide_eq_true hneg), UInt32.toInt32_neg, habs, Int32.neg_ofInt,
      Int.ofNat_natAbs_of_nonpos (Int.le_of_lt hneg), Int.neg_neg, Int32.ofInt_toInt]
  · rw [if_neg (by simpa using hneg), habs, Int.natAbs_of_nonneg (Int.not_lt.mp hneg),
      Int32.ofInt_toInt]

theorem unsignedLong_toNat (outside : Numeral → UInt64) (v : UInt64) :
    unsignedLong outside ⟨false, v.toNat⟩ = v := by
  simp [unsignedLong, v.toNat_lt_size]

theorem takeLine_append (h : '\n' ∉ line) (n : Nat) (text : List Char) :
    takeLine (line.length + n) (line ++ text) =
      (line ++ (takeLine n text).1, (takeLine n text).2) := by
  induction line with
  | nil => simp
  | cons c line ih =>
    have hc : c ≠ '\n' := fun hc => h (hc ▸ List.mem_cons_self)
    have hline : '\n' ∉ line := fun hl => h (List.mem_cons_of_mem c hl)
    rw [List.length_cons, Nat.succ_add, List.cons_append, takeLine, if_neg hc, ih hline]
    rfl

theorem cString_of_notMem (h : '\x00' ∉ buf) : cString buf = buf := by
  induction buf with
  | nil => rfl
  | cons c buf ih =>
    have hc : c ≠ '\x00' := fun hc => h (hc ▸ List.mem_cons_self)
    have hbuf : '\x00' ∉ buf := fun hb => h (List.mem_cons_of_mem c hb)
    rw [cString, List.takeWhile_cons_of_pos (by simpa using hc)]
    exact congrArg (c :: ·) (ih hbuf)

theorem fgets_line (hne : line ≠ []) (h : '\n' ∉ line) (hfit : line.length + 2 ≤ size)
    (rest : List Char) :
    fgets size (line ++ '\n' :: rest) = some (line ++ ['\n'], rest) := by
  obtain ⟨k, hk⟩ : ∃ k, size - 1 = line.length + (k + 1) := ⟨size - 2 - line.length, by omega⟩
  have htake := takeLine_append h (k + 1) ('\n' :: rest)
  obtain ⟨c, cs, rfl⟩ := List.exists_cons_of_ne_nil hne
  rw [List.cons_append, fgets, hk, ← List.cons_append, htake]
  rfl

theorem fgets_last (hne : line ≠ []) (h : '\n' ∉ line) (hfit : line.length + 2 ≤ size) :
    fgets size line = some (line, []) := by
  obtain ⟨k, hk⟩ : ∃ k, size - 1 = line.length + (k + 1) := ⟨size - 2 - line.length, by omega⟩
  have htake := takeLine_append h (k + 1) []
  obtain ⟨c, cs, rfl⟩ := List.exists_cons_of_ne_nil hne
  rw [List.append_nil] at htake
  rw [fgets, hk, htake]
  simp [takeLine]

end Scan
