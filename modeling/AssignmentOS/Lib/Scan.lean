import Mathlib.Data.List.Basic

/-!
# Reading text as C does

The conversions of `fscanf` and `sscanf` and the line reading of `fgets`, on
the characters that are still to be read. A character stands for a byte.
-/

namespace Scan

def isspace (c : Char) : Bool := c = ' ' || (9 ≤ c.toNat && c.toNat ≤ 13)

def skipSpace (text : List Char) : List Char := text.dropWhile isspace

/-- The characters of a buffer up to its terminating NUL. -/
def cString (buf : List Char) : List Char := buf.takeWhile (· ≠ '\x00')

-- ---------------------------------------------------------------------------
-- Conversions
-- ---------------------------------------------------------------------------

/-- `%s`, with what is left after the word. -/
def word (text : List Char) : Option (List Char × List Char) :=
  match skipSpace text with
  | [] => none
  | c :: rest =>
    some ((c :: rest).takeWhile (!isspace ·), (c :: rest).dropWhile (!isspace ·))

def sign : List Char → Bool × List Char
  | '-' :: rest => (true, rest)
  | '+' :: rest => (false, rest)
  | text => (false, text)

structure Numeral where
  negative : Bool
  magnitude : Nat
  deriving DecidableEq, Repr

/-- An optional sign and the longest run of digits. A sign without digits has
been read all the same. -/
def numeral (text : List Char) : Option Numeral × List Char :=
  match (sign text).2.takeWhile Char.isDigit with
  | [] => (none, (sign text).2)
  | d :: ds =>
    (some ⟨(sign text).1, Nat.ofDigitChars 10 (d :: ds) 0⟩, (sign text).2.dropWhile Char.isDigit)

/-- The numeral stands in the text where so many characters are left. -/
def StandsAt (text : List Char) (left : Nat) (m : Numeral) : Prop :=
  (numeral (text.drop (text.length - left))).1 = some m

instance (text : List Char) (left : Nat) (m : Numeral) : Decidable (StandsAt text left m) :=
  inferInstanceAs (Decidable (_ = _))

def Numeral.FitsUnsigned (m : Numeral) : Prop :=
  m.magnitude < UInt32.size ∧ (m.negative = false ∨ m.magnitude = 0)

instance (m : Numeral) : Decidable m.FitsUnsigned := inferInstanceAs (Decidable (_ ∧ _))

/-- The value of `%u`. What a numeral out of range gives is not defined. -/
def unsigned (outside : Numeral → UInt32) (m : Numeral) : UInt32 :=
  if m.FitsUnsigned then m.magnitude.toUInt32 else outside m

/-- The value of `%d`, likewise. -/
def signed (outside : Numeral → UInt32) (m : Numeral) : UInt32 :=
  if m.magnitude < 0x80000000 ∨ (m.negative = true ∧ m.magnitude = 0x80000000) then
    if m.negative then -m.magnitude.toUInt32 else m.magnitude.toUInt32
  else outside m

/-- The value of `%lu`, where a minus sign negates the `unsigned long`. -/
def unsignedLong (outside : Numeral → UInt64) (m : Numeral) : UInt64 :=
  if m.magnitude < UInt64.size then
    if m.negative then -m.magnitude.toUInt64 else m.magnitude.toUInt64
  else outside m

def Numeral.value (m : Numeral) : Int := if m.negative then -m.magnitude else m.magnitude

/-- Up to `k` numeric conversions in a row: each numeral that is read, with the
number of characters that were left where it starts. -/
def numerals : Nat → List Char → List (Numeral × Nat) × List Char
  | 0, text => ([], text)
  | k + 1, text =>
    match numeral (skipSpace text) with
    | (none, rest) => ([], rest)
    | (some m, rest) =>
      let (values, last) := numerals k rest
      ((m, (skipSpace text).length) :: values, last)

/-- `k` conversions and a white-space directive, which is reached when none of them fails. -/
def numeralsLine (k : Nat) (text : List Char) : List (Numeral × Nat) × List Char :=
  let (values, rest) := numerals k text
  (values, if values.length = k then skipSpace rest else rest)

theorem toNat_unsignedLong {m : Numeral} (outside : Numeral → UInt64) (h0 : 0 ≤ m.value)
    (hlt : m.value < UInt64.size) : ((unsignedLong outside m).toNat : Int) = m.value := by
  obtain ⟨negative, magnitude⟩ := m
  cases negative with
  | false =>
    have hmag : magnitude < UInt64.size := Int.ofNat_lt.mp hlt
    simp only [unsignedLong, Numeral.value, hmag, if_true, Bool.false_eq_true, if_false]
    rw [Nat.toUInt64_eq, UInt64.toNat_ofNat_of_lt' hmag]
  | true =>
    have hmag : magnitude = 0 := by
      simp only [Numeral.value, if_true] at h0
      omega
    subst hmag
    rfl

-- ---------------------------------------------------------------------------
-- Lines
-- ---------------------------------------------------------------------------

def takeLine : Nat → List Char → List Char × List Char
  | 0, text => ([], text)
  | _ + 1, [] => ([], [])
  | n + 1, c :: text =>
    if c = '\n' then ([c], text)
    else
      let (line, rest) := takeLine n text
      (c :: line, rest)

/-- `fgets` into a buffer of `size` bytes. At the end of the file it returns
NULL and leaves the buffer alone. -/
def fgets (size : Nat) (text : List Char) : Option (List Char × List Char) :=
  match text with
  | [] => none
  | c :: rest => some (takeLine (size - 1) (c :: rest))

-- ---------------------------------------------------------------------------
-- White space
-- ---------------------------------------------------------------------------

def Stops (p : Char → Bool) (text : List Char) : Prop := ∀ c ∈ text.head?, p c = false

theorem stops_skipSpace (text : List Char) : Stops isspace (skipSpace text) := by
  intro c hc
  have hnot := List.head?_dropWhile_not isspace text
  unfold skipSpace at hc
  rw [Option.mem_def.mp hc] at hnot
  simpa using hnot

theorem skipSpace_cons (h : isspace c) : skipSpace (c :: text) = skipSpace text := by
  simp [skipSpace, h]

theorem skipSpace_of_stops (h : Stops isspace text) : skipSpace text = text := by
  cases text with
  | nil => rfl
  | cons c rest => simp [skipSpace, h c rfl]

@[simp] theorem skipSpace_skipSpace (text : List Char) :
    skipSpace (skipSpace text) = skipSpace text :=
  skipSpace_of_stops (stops_skipSpace text)

theorem word_congr (h : skipSpace text = skipSpace text') : word text = word text' := by
  unfold word
  rw [h]

-- ---------------------------------------------------------------------------
-- Positions
-- ---------------------------------------------------------------------------

/-- Strictly descending numbers, from `high` down to above `low`. -/
structure Descends (high : Nat) (positions : List Nat) (low : Nat) : Prop where
  le : low ≤ high
  sorted : positions.Pairwise (· > ·)
  bounds : ∀ p ∈ positions, low < p ∧ p ≤ high

theorem Descends.nil (h : low ≤ high) : Descends high [] low := ⟨h, .nil, by simp⟩

theorem Descends.append (h : Descends high ps mid) (h' : Descends mid qs low) :
    Descends high (ps ++ qs) low where
  le := Nat.le_trans h'.le h.le
  sorted := List.pairwise_append.mpr
    ⟨h.sorted, h'.sorted, fun p hp q hq => Nat.lt_of_le_of_lt (h'.bounds q hq).2 (h.bounds p hp).1⟩
  bounds := by
    intro p hp
    rcases List.mem_append.mp hp with hp | hp
    · exact ⟨Nat.lt_of_le_of_lt h'.le (h.bounds p hp).1, (h.bounds p hp).2⟩
    · exact ⟨(h'.bounds p hp).1, Nat.le_trans (h'.bounds p hp).2 h.le⟩

theorem Descends.cons (hp : p ≤ high) (hmid : mid < p) (h : Descends mid ps low) :
    Descends high (p :: ps) low := by
  have hfirst : Descends high [p] mid :=
    ⟨Nat.le_trans (Nat.le_of_lt hmid) hp, by simp, by simp [hp, hmid]⟩
  exact hfirst.append h

theorem Descends.mono (h : Descends high ps low) (hhigh : high ≤ high') (hlow : low' ≤ low) :
    Descends high' ps low' where
  le := Nat.le_trans hlow (Nat.le_trans h.le hhigh)
  sorted := h.sorted
  bounds := fun p hp =>
    ⟨Nat.lt_of_le_of_lt hlow (h.bounds p hp).1, Nat.le_trans (h.bounds p hp).2 hhigh⟩

theorem Descends.sublist (h : Descends high ps low) (hsub : qs.Sublist ps) :
    Descends high qs low where
  le := h.le
  sorted := h.sorted.sublist hsub
  bounds := fun q hq => h.bounds q (hsub.subset hq)

theorem Descends.add (h : Descends high ps low) (n : Nat) :
    Descends (high + n) (ps.map (· + n)) (low + n) where
  le := Nat.add_le_add_right h.le n
  sorted := List.pairwise_map.mpr (h.sorted.imp fun hlt => Nat.add_lt_add_right hlt n)
  bounds := by
    intro q hq
    obtain ⟨p, hp, rfl⟩ := List.mem_map.mp hq
    exact ⟨Nat.add_lt_add_right (h.bounds p hp).1 n, Nat.add_le_add_right (h.bounds p hp).2 n⟩

theorem skipSpace_suffix (text : List Char) : skipSpace text <:+ text :=
  List.dropWhile_suffix isspace

theorem word_suffix (h : word text = some (w, rest)) : rest <:+ skipSpace text := by
  unfold word at h
  split at h
  · cases h
  · rename_i c cs hskip
    cases h
    rw [hskip]
    exact List.dropWhile_suffix _

theorem word_length_lt (h : word text = some (w, rest)) :
    rest.length < (skipSpace text).length := by
  unfold word at h
  split at h
  · cases h
  · rename_i c cs hskip
    have hc : isspace c = false := stops_skipSpace text c (by rw [hskip]; rfl)
    cases h
    rw [hskip, List.dropWhile_cons_of_pos (by simpa using hc)]
    exact Nat.lt_succ_of_le (List.dropWhile_suffix _).length_le

theorem sign_suffix (text : List Char) : (sign text).2 <:+ text := by
  unfold sign
  split
  · exact List.suffix_cons _ _
  · exact List.suffix_cons _ _
  · exact List.suffix_refl _

theorem numeral_suffix (text : List Char) : (numeral text).2 <:+ text := by
  have hsign := sign_suffix text
  unfold numeral
  split
  · exact hsign
  · exact (List.dropWhile_suffix _).trans hsign

theorem numeral_length_lt (h : numeral text = (some m, rest)) : rest.length < text.length := by
  have hsign := (sign_suffix text).length_le
  unfold numeral at h
  split at h
  · cases h
  · rename_i d ds htake
    have hsplit := congrArg List.length
      (List.takeWhile_append_dropWhile (p := Char.isDigit) (l := (sign text).2))
    cases h
    rw [List.length_append, htake, List.length_cons] at hsplit
    omega

theorem numerals_suffix (k : Nat) (text : List Char) : (numerals k text).2 <:+ text := by
  induction k generalizing text with
  | zero => exact List.suffix_refl _
  | succ k ih =>
    have hnum := (numeral_suffix (skipSpace text)).trans (skipSpace_suffix text)
    unfold numerals
    split
    · rename_i rest heq
      rwa [heq] at hnum
    · rename_i m rest heq
      rw [heq] at hnum
      exact (ih rest).trans hnum

theorem numeralsLine_suffix (k : Nat) (text : List Char) : (numeralsLine k text).2 <:+ text := by
  unfold numeralsLine
  dsimp only
  split
  · exact (skipSpace_suffix _).trans (numerals_suffix k text)
  · exact numerals_suffix k text

theorem numerals_descends (k : Nat) (text : List Char) :
    Descends text.length ((numerals k text).1.map Prod.snd) (numerals k text).2.length := by
  induction k generalizing text with
  | zero => exact .nil (Nat.le_refl _)
  | succ k ih =>
    have hskip := (skipSpace_suffix text).length_le
    have hnum := (numeral_suffix (skipSpace text)).length_le
    unfold numerals
    split
    · rename_i rest heq
      rw [heq] at hnum
      exact .nil (Nat.le_trans hnum hskip)
    · rename_i m rest heq
      exact .cons hskip (numeral_length_lt heq) (ih rest)

theorem numeralsLine_descends (k : Nat) (text : List Char) :
    Descends text.length ((numeralsLine k text).1.map Prod.snd) (numeralsLine k text).2.length := by
  refine (numerals_descends k text).mono (Nat.le_refl _) ?_
  unfold numeralsLine
  dsimp only
  split
  · exact (skipSpace_suffix _).length_le
  · exact Nat.le_refl _

theorem standsAt_of_suffix (h : rest <:+ text) (hle : left ≤ rest.length) :
    StandsAt text left m ↔ StandsAt rest left m := by
  obtain ⟨done, rfl⟩ := h
  have hdrop : (done ++ rest).drop ((done ++ rest).length - left) =
      rest.drop (rest.length - left) := by
    rw [List.length_append, Nat.add_sub_assoc hle, List.drop_length_add_append]
  unfold StandsAt
  rw [hdrop]

theorem numerals_standAt (h : (m, left) ∈ (numerals k text).1) : StandsAt text left m := by
  induction k generalizing text with
  | zero => cases h
  | succ k ih =>
    unfold numerals at h
    split at h
    · cases h
    · rename_i m' rest heq
      rcases List.mem_cons.mp h with heq' | hmem
      · cases heq'
        rw [standsAt_of_suffix (skipSpace_suffix text) (Nat.le_refl _)]
        unfold StandsAt
        rw [Nat.sub_self, List.drop_zero, heq]
      · have hsuffix := (numeral_suffix (skipSpace text)).trans (skipSpace_suffix text)
        rw [heq] at hsuffix
        have hle := ((numerals_descends k rest).bounds left (List.mem_map_of_mem hmem)).2
        exact (standsAt_of_suffix hsuffix hle).mpr (ih hmem)

theorem numerals_length_le (k : Nat) (text : List Char) : (numerals k text).1.length ≤ k := by
  induction k generalizing text with
  | zero => exact Nat.le_refl _
  | succ k ih =>
    unfold numerals
    split
    · exact Nat.zero_le _
    · exact Nat.succ_le_succ (ih _)

theorem takeLine_eq_append (n : Nat) (text : List Char) :
    (takeLine n text).1 ++ (takeLine n text).2 = text := by
  induction n generalizing text with
  | zero => rfl
  | succ n ih =>
    cases text with
    | nil => rfl
    | cons c text =>
      unfold takeLine
      split
      · rfl
      · exact congrArg (c :: ·) (ih text)

theorem fgets_eq_append (h : fgets size text = some (line, rest)) : line ++ rest = text := by
  cases text with
  | nil => cases h
  | cons c text =>
    have hsplit := takeLine_eq_append (size - 1) (c :: text)
    rwa [Option.some.inj h] at hsplit

end Scan
