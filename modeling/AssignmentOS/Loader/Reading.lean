import AssignmentOS.Loader.Model

/-!
# What one turn of the loop reads

The numerals that follow a word in the text decide which arguments are assigned
and from where; whatever else the instruction holds was there before.
-/

namespace AssignmentOS.Loader

open Fallible Scan

def convert (before : Before) (opcode : InsOpcode) (m : Numeral) : UInt32 :=
  if opcode = .syscall then signed before.outsideSigned m else unsigned before.outsideUnsigned m

/-- The numerals that are read as arguments of the opcode, with where they stand,
and the text that is left. -/
def argNumerals (opcode : InsOpcode) (text : List Char) : List (Numeral × Nat) × List Char :=
  match opcode with
  | .calc => ([], text)
  | .alloc | .free | .read | .write => numeralsLine (arity opcode) text
  | .syscall =>
    match fgets bufSz text with
    | none => ([], text)
    | some (line, rest) =>
      ((numerals 4 (cString line)).1.map
        fun v => (v.1, v.2 + (text.length - (cString line).length)), rest)

def slotAt (before : Before) (opcode : InsOpcode) (text : List Char) (v : Numeral × Nat) : Slot :=
  ⟨convert before opcode v.1, tokenAt text v.2 v.1⟩

-- ---------------------------------------------------------------------------
-- Arguments
-- ---------------------------------------------------------------------------

theorem tokenAt_of_standsAt (h : StandsAt text left m) : tokenAt text left m = .token left :=
  if_pos h

theorem standsAt_of_tokenAt (h : tokenAt text left m = .token left') :
    left' = left ∧ StandsAt text left m := by
  unfold tokenAt at h
  split at h
  · rename_i hstands
    cases h
    exact ⟨rfl, hstands⟩
  · cases h

theorem scanUnsigned_slots (hop : opcode ≠ .syscall) (count : Nat) :
    (scanUnsigned before count s).1 =
      (numeralsLine count s.rest).1.map (slotAt before opcode s.rest) := by
  refine List.map_congr_left fun v hv => ?_
  have hstands : StandsAt s.rest v.2 v.1 := numerals_standAt hv
  simp only [slotAt, convert, if_neg hop, tokenAt_of_standsAt hstands]

theorem cString_suffix_length (hget : fgets size text = some (line, rest)) :
    rest.length + (cString line).length ≤ text.length := by
  have hle := (List.takeWhile_prefix (l := line) (· ≠ '\x00')).length_le
  have hlength := congrArg List.length (fgets_eq_append hget)
  rw [List.length_append] at hlength
  unfold cString
  omega

theorem scanUnsigned_length_le (before : Before) (count : Nat) (s : Reader) :
    (scanUnsigned before count s).1.length ≤ count := by
  unfold scanUnsigned
  rw [List.length_map]
  exact numerals_length_le count s.rest

theorem scanSyscall_length_le (before : Before) (s : Reader) :
    (scanSyscall before s).1.length ≤ 4 := by
  unfold scanSyscall
  split
  · rw [List.length_map]
    exact numerals_length_le 4 _
  · rw [List.length_map]
    exact numerals_length_le 4 _

theorem scanArgs_length_le (before : Before) (opcode : InsOpcode) (s : Reader) :
    (scanArgs before opcode s).1.length ≤ arity opcode := by
  match opcode with
  | .calc => exact Nat.le_refl _
  | .alloc | .free | .read | .write => exact scanUnsigned_length_le before _ s
  | .syscall => exact scanSyscall_length_le before s

/-- The arguments that are assigned are the numerals of the text. When there is
no line left, a system call assigns what its buffer holds. -/
theorem scanArgs_slots (before : Before) (opcode : InsOpcode) (s : Reader) :
    ∃ stale, (scanArgs before opcode s).1 =
        (argNumerals opcode s.rest).1.map (slotAt before opcode s.rest) ++ stale ∧
      ∀ slot ∈ stale, slot.origin = .leftover := by
  match opcode with
  | .calc => exact ⟨[], rfl, by simp⟩
  | .alloc | .free | .read | .write =>
    refine ⟨[], ?_, by simp⟩
    rw [List.append_nil]
    exact scanUnsigned_slots (by decide) _
  | .syscall =>
    cases hget : fgets bufSz s.rest with
    | none =>
      refine ⟨(scanSyscall before s).1, ?_, ?_⟩
      · simp only [scanArgs, argNumerals, hget, List.map_nil, List.nil_append]
      · intro slot hslot
        simp only [scanSyscall, hget] at hslot
        obtain ⟨v, -, rfl⟩ := List.mem_map.mp hslot
        rfl
    | some found =>
      refine ⟨[], ?_, by simp⟩
      simp only [scanArgs, scanSyscall, argNumerals, hget, List.append_nil, List.map_map]
      rfl

theorem scanArgs_rest (before : Before) (opcode : InsOpcode) (s : Reader) :
    (scanArgs before opcode s).2.rest = (argNumerals opcode s.rest).2 := by
  match opcode with
  | .calc | .alloc | .free | .read | .write => rfl
  | .syscall =>
    cases hget : fgets bufSz s.rest with
    | none => simp only [scanArgs, scanSyscall, argNumerals, hget]
    | some found => simp only [scanArgs, scanSyscall, argNumerals, hget]

theorem scanArgs_opcode (before : Before) (opcode : InsOpcode) (s : Reader) :
    (scanArgs before opcode s).2.opcode = s.opcode := by
  match opcode with
  | .calc | .alloc | .free | .read | .write => rfl
  | .syscall =>
    cases hget : fgets bufSz s.rest with
    | none => simp only [scanArgs, scanSyscall, hget]
    | some found => simp only [scanArgs, scanSyscall, hget]

theorem argNumerals_suffix (opcode : InsOpcode) (text : List Char) :
    (argNumerals opcode text).2 <:+ text := by
  match opcode with
  | .calc => exact List.suffix_refl _
  | .alloc | .free | .read | .write => exact numeralsLine_suffix _ text
  | .syscall =>
    unfold argNumerals
    dsimp only
    split
    · exact List.suffix_refl _
    · rename_i line rest hget
      exact ⟨line, fgets_eq_append hget⟩

theorem argNumerals_descends (opcode : InsOpcode) (text : List Char) :
    Descends text.length ((argNumerals opcode text).1.map Prod.snd)
      (argNumerals opcode text).2.length := by
  match opcode with
  | .calc => exact .nil (Nat.le_refl _)
  | .alloc | .free | .read | .write => exact numeralsLine_descends _ text
  | .syscall =>
    unfold argNumerals
    dsimp only
    split
    · exact .nil (Nat.le_refl _)
    · rename_i line rest hget
      have hlength := cString_suffix_length hget
      have hline := (numerals_descends 4 (cString line)).add (text.length - (cString line).length)
      have hhigh : (cString line).length + (text.length - (cString line).length) ≤ text.length := by
        omega
      have hlow : rest.length ≤ (numerals 4 (cString line)).2.length +
          (text.length - (cString line).length) := by omega
      rw [List.map_map] at hline ⊢
      exact hline.mono hhigh hlow

theorem argNumerals_nil (opcode : InsOpcode) : argNumerals opcode [] = ([], []) := by
  cases opcode <;> rfl

-- ---------------------------------------------------------------------------
-- One turn
-- ---------------------------------------------------------------------------

structure Takes (before : Before) (opcode : InsOpcode) (text : List Char) (l : LoadedInst)
    (s' : Reader) : Prop where
  opcode_eq : l.opcode = opcode
  slots_eq : ∃ stale, l.slots = (argNumerals opcode text).1.map
    (slotAt before opcode text) ++ stale ∧
    ∀ slot ∈ stale, slot.origin = .leftover
  rest_eq : s'.rest = (argNumerals opcode text).2

/-- What a turn of the loop can do. -/
inductive Turn (before : Before) (s : Reader) : Except LoadFault (LoadedInst × Reader) → Prop
  | read : word s.rest = some (w, text) → w.length < opcodeSz → getOpcode w = .ok opcode →
      l.origin = .token (skipSpace s.rest).length → Takes before opcode text l s' → s'.opcode = w →
      Turn before s (.ok (l, s'))
  | unknown : word s.rest = some (w, text) → w.length < opcodeSz → getOpcode w = .error .exit →
      Turn before s (.error .exit)
  | overflow : word s.rest = some (w, text) → opcodeSz ≤ w.length → Turn before s (.error .overflow)
  | ended : word s.rest = none → getOpcode s.opcode = .ok opcode → l.origin = .leftover →
      Takes before opcode [] l s' → s'.opcode = s.opcode → Turn before s (.ok (l, s'))
  | endedUnknown : word s.rest = none → getOpcode s.opcode = .error .exit →
      Turn before s (.error .exit)

theorem getOpcode_cases (opt : List Char) :
    (∃ opcode, getOpcode opt = .ok opcode) ∨ getOpcode opt = .error .exit := by
  unfold getOpcode
  split_ifs <;> simp

theorem takes_assign (before : Before) (opcode : InsOpcode) (origin : Origin) (old : Inst)
    (s : Reader) :
    Takes before opcode s.rest (assign opcode origin (scanArgs before opcode s).1 old)
      (scanArgs before opcode s).2 where
  opcode_eq := rfl
  slots_eq := by
    obtain ⟨stale, hslots, hstale, -⟩ :=
      assign_slots origin old (scanArgs_length_le before opcode s)
    obtain ⟨stale', hscan, hstale'⟩ := scanArgs_slots before opcode s
    refine ⟨stale' ++ stale, by rw [hslots, hscan, List.append_assoc], fun slot hslot => ?_⟩
    rcases List.mem_append.mp hslot with hmem | hmem
    · exact hstale' slot hmem
    · exact hstale slot hmem
  rest_eq := scanArgs_rest before opcode s

theorem loadInst_turn (before : Before) (old : Inst) (s : Reader) :
    Turn before s (loadInst before old s) := by
  unfold loadInst scanOpcode
  cases hword : word s.rest with
  | none =>
    rcases getOpcode_cases s.opcode with ⟨opcode, hop⟩ | hop
    · simp only [ok_bind, hop]
      exact .ended hword hop rfl (takes_assign before opcode _ old { s with rest := [] })
        (scanArgs_opcode ..)
    · simp only [ok_bind, hop, error_bind]
      exact .endedUnknown hword hop
  | some found =>
    obtain ⟨w, text⟩ := found
    by_cases hfit : w.length < opcodeSz
    · rcases getOpcode_cases w with ⟨opcode, hop⟩ | hop
      · simp only [if_pos hfit, ok_bind, hop]
        exact .read hword hfit hop rfl
          (takes_assign before opcode _ old { s with opcode := w, rest := text })
            (scanArgs_opcode ..)
      · simp only [if_pos hfit, ok_bind, hop, error_bind]
        exact .unknown hword hfit hop
    · simp only [if_neg hfit, error_bind]
      exact .overflow hword (Nat.le_of_not_lt hfit)

theorem Turn.of_known (h : Turn before s r) (hword : word s.rest = some (w, text))
    (hfit : w.length < opcodeSz) (hop : getOpcode w = .ok opcode) :
    ∃ l s', r = .ok (l, s') ∧ l.origin = .token (skipSpace s.rest).length ∧
      Takes before opcode text l s' := by
  cases h with
  | read hword' hfit' hop' horigin htakes hopcode =>
    cases hword'.symm.trans hword
    cases hop'.symm.trans hop
    exact ⟨_, _, rfl, horigin, htakes⟩
  | unknown hword' hfit' hop' =>
    cases hword'.symm.trans hword
    cases hop'.symm.trans hop
  | overflow hword' hfit' =>
    cases hword'.symm.trans hword
    exact absurd hfit (Nat.not_lt.mpr hfit')
  | ended hword' => cases hword'.symm.trans hword
  | endedUnknown hword' => cases hword'.symm.trans hword

theorem Turn.of_unknown (h : Turn before s r) (hword : word s.rest = some (w, text))
    (hfit : w.length < opcodeSz) (hop : getOpcode w = .error .exit) : r = .error .exit := by
  cases h with
  | read hword' hfit' hop' =>
    cases hword'.symm.trans hword
    cases hop'.symm.trans hop
  | unknown => rfl
  | overflow hword' hfit' =>
    cases hword'.symm.trans hword
    exact absurd hfit (Nat.not_lt.mpr hfit')
  | ended hword' => cases hword'.symm.trans hword
  | endedUnknown => rfl

theorem Turn.of_end (h : Turn before s r) (hword : word s.rest = none)
    (hop : getOpcode s.opcode = .ok opcode) :
    ∃ l s', r = .ok (l, s') ∧ s'.rest = [] ∧ s'.opcode = s.opcode := by
  cases h with
  | ended hword' hop' horigin htakes hopcode =>
    exact ⟨_, _, rfl, by rw [htakes.rest_eq, argNumerals_nil], hopcode⟩
  | endedUnknown hword' hop' => cases hop'.symm.trans hop
  | read hword' => cases hword'.symm.trans hword
  | unknown hword' => cases hword'.symm.trans hword
  | overflow hword' => cases hword'.symm.trans hword

-- ---------------------------------------------------------------------------
-- Tokens of the file
-- ---------------------------------------------------------------------------

structure LoadedInst.Stands (before : Before) (text : List Char) (l : LoadedInst) : Prop where
  opcode : ∀ left, l.origin = .token left →
    ∃ w rest, word (text.drop (text.length - left)) = some (w, rest) ∧ getOpcode w = .ok l.opcode
  slots : ∀ slot ∈ l.slots, ∀ left, slot.origin = .token left →
    ∃ m, StandsAt text left m ∧ slot.value = convert before l.opcode m

theorem Takes.slots_stand (h : Takes before opcode text l s') (htext : text <:+ file) :
    ∀ slot ∈ l.slots, ∀ left, slot.origin = .token left →
      ∃ m, StandsAt file left m ∧ slot.value = convert before l.opcode m := by
  intro slot hslot left hleft
  obtain ⟨stale, hslots, hstale⟩ := h.slots_eq
  rw [hslots] at hslot
  rcases List.mem_append.mp hslot with hmem | hmem
  · obtain ⟨v, hv, rfl⟩ := List.mem_map.mp hmem
    obtain ⟨rfl, hstands⟩ := standsAt_of_tokenAt hleft
    have hbound := (argNumerals_descends opcode text).bounds v.2 (List.mem_map_of_mem hv)
    exact ⟨v.1, (standsAt_of_suffix htext hbound.2).mpr hstands, by rw [h.opcode_eq]; rfl⟩
  · rw [hstale slot hmem] at hleft
    cases hleft

theorem Turn.stands (h : Turn before s (.ok (l, s')))
    (hs : s.rest <:+ file) : l.Stands before file := by
  cases h with
  | read hword hfit hop horigin htakes hopcode =>
    have htext := (word_suffix hword).trans ((skipSpace_suffix s.rest).trans hs)
    constructor
    · intro left hleft
      cases horigin.symm.trans hleft
      rw [← List.suffix_iff_eq_drop.mp ((skipSpace_suffix s.rest).trans hs),
        word_congr (skipSpace_skipSpace s.rest)]
      exact ⟨_, _, hword, by rw [hop, htakes.opcode_eq]⟩
    · exact htakes.slots_stand htext
  | ended hword hop horigin htakes hopcode =>
    constructor
    · intro left hleft
      cases horigin.symm.trans hleft
    · exact htakes.slots_stand List.nil_suffix

def LoadedInst.positions (l : LoadedInst) : List Nat := l.origins.filterMap Origin.left?

theorem filterMap_slotAt_sublist (before : Before) (opcode : InsOpcode) (text : List Char)
    (values : List (Numeral × Nat)) :
    (((values.map (slotAt before opcode text)).map Slot.origin).filterMap Origin.left?).Sublist
      (values.map Prod.snd) := by
  induction values with
  | nil => exact List.Sublist.refl _
  | cons v values ih =>
    simp only [List.map_cons, List.filterMap_cons]
    by_cases hstands : StandsAt text v.2 v.1
    · simp only [slotAt, tokenAt, if_pos hstands, Origin.left?]
      exact ih.cons_cons v.2
    · simp only [slotAt, tokenAt, if_neg hstands, Origin.left?]
      exact ih.cons v.2

theorem Takes.descends (h : Takes before opcode text l s') :
    Descends text.length ((l.slots.map Slot.origin).filterMap Origin.left?) s'.rest.length := by
  obtain ⟨stale, hslots, hstale⟩ := h.slots_eq
  have hnone : (stale.map Slot.origin).filterMap Origin.left? = [] := by
    refine List.filterMap_eq_nil_iff.mpr fun o ho => ?_
    obtain ⟨slot, hslot, rfl⟩ := List.mem_map.mp ho
    rw [hstale slot hslot]
    rfl
  rw [h.rest_eq, hslots, List.map_append, List.filterMap_append, hnone, List.append_nil]
  exact (argNumerals_descends opcode text).sublist (filterMap_slotAt_sublist before opcode text _)

theorem Turn.descends (h : Turn before s (.ok (l, s'))) :
    Descends s.rest.length l.positions s'.rest.length := by
  unfold LoadedInst.positions LoadedInst.origins
  cases h with
  | read hword hfit hop horigin htakes hopcode =>
    rw [horigin]
    exact .cons (skipSpace_suffix s.rest).length_le (word_length_lt hword) htakes.descends
  | ended hword hop horigin htakes hopcode =>
    rw [horigin]
    exact htakes.descends.mono (Nat.zero_le _) (Nat.le_refl _)

theorem Turn.suffix (h : Turn before s (.ok (l, s'))) : s'.rest <:+ s.rest := by
  cases h with
  | read hword hfit hop horigin htakes hopcode =>
    rw [htakes.rest_eq]
    exact (argNumerals_suffix ..).trans ((word_suffix hword).trans (skipSpace_suffix s.rest))
  | ended hword hop horigin htakes hopcode =>
    rw [htakes.rest_eq, argNumerals_nil]
    exact List.nil_suffix

-- ---------------------------------------------------------------------------
-- The loop
-- ---------------------------------------------------------------------------

theorem loadText_succ_ok (h : loadText before (n + 1) i s = .ok text) :
    ∃ l s' rest, Turn before s (.ok (l, s')) ∧ loadText before n (i + 1) s' = .ok rest ∧
      text = .cons l rest := by
  obtain ⟨⟨l, s'⟩, hinst, h⟩ := bind_eq_ok.mp h
  obtain ⟨rest, hrest, h⟩ := bind_eq_ok.mp h
  cases h
  exact ⟨l, s', rest, hinst ▸ loadInst_turn before (before.text i) s, hrest, rfl⟩

theorem loadText_stands (h : loadText before n i s = .ok text) (hs : s.rest <:+ file) :
    ∀ l ∈ text.toList, l.Stands before file := by
  induction n generalizing i s with
  | zero =>
    cases h
    simp
  | succ n ih =>
    obtain ⟨l, s', rest, hturn, hrest, rfl⟩ := loadText_succ_ok h
    intro l' hl'
    rw [List.Vector.toList_cons] at hl'
    rcases List.mem_cons.mp hl' with rfl | hmem
    · exact hturn.stands hs
    · exact ih hrest (hturn.suffix.trans hs) l' hmem

theorem loadText_descends (h : loadText before n i s = .ok text) :
    Descends s.rest.length (text.toList.flatMap LoadedInst.positions) 0 := by
  induction n generalizing i s with
  | zero =>
    cases h
    exact .nil (Nat.zero_le _)
  | succ n ih =>
    obtain ⟨l, s', rest, hturn, hrest, rfl⟩ := loadText_succ_ok h
    rw [List.Vector.toList_cons, List.flatMap_cons]
    exact hturn.descends.append (ih hrest)

end AssignmentOS.Loader
