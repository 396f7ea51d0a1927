import AssignmentOS.Loader.Reading

/-!
# Files that are not read to the end

`load` goes on where a scanning function reads nothing. What it returns then
holds what memory held before, unless it meets an unknown word after that.
-/

namespace AssignmentOS.Loader

open Fallible Scan

/-- Opcodes and arguments in use are tokens of the file, in its order. -/
structure FromTokens (before : Before) (file : List Char) (text : List LoadedInst) : Prop where
  tokens : ∀ l ∈ text, ∀ o ∈ l.origins, ∃ left, o = .token left
  stands : ∀ l ∈ text, l.Stands before file
  ordered : (text.flatMap LoadedInst.positions).Pairwise (· > ·)

/-- `load` has rejected the file or taken all that it returns from it. -/
def Checked (before : Before) (file : List Char) : Except LoadFault (LoadedPcb × UInt32) → Prop
  | .ok (proc, _) => FromTokens before file proc.text
  | .error .exit => True
  | .error .overflow => False

-- ---------------------------------------------------------------------------
-- Texts
-- ---------------------------------------------------------------------------

/-- All arguments of the opcode come next, and none is cut by the end of the buffer. -/
def ArgsStand (opcode : InsOpcode) (text : List Char) : Prop :=
  (argNumerals opcode text).1.length = arity opcode ∧
    ∀ v ∈ (argNumerals opcode text).1, StandsAt text v.2 v.1

def Complete : Nat → List Char → Prop
  | 0, _ => True
  | n + 1, text => ∃ w rest opcode, word text = some (w, rest) ∧ w.length < opcodeSz ∧
      getOpcode w = .ok opcode ∧ ArgsStand opcode rest ∧ Complete n (argNumerals opcode rest).2

/-- An unknown word comes up in the place of one of so many opcodes. No word before
it ends the text or is too long. -/
def MeetsUnknown : Nat → List Char → Prop
  | 0, _ => False
  | n + 1, text => ∃ w rest, word text = some (w, rest) ∧ w.length < opcodeSz ∧
      (getOpcode w = .error .exit ∨
        ∃ opcode, getOpcode w = .ok opcode ∧ MeetsUnknown n (argNumerals opcode rest).2)

/-- The sizes that the header can stand for: any, where it has none in range. -/
def Announces (file : List Char) (size : UInt32) : Prop :=
  ∀ v, (numerals 2 file).1[1]? = some v → v.1.FitsUnsigned → size = v.1.magnitude.toUInt32

-- ---------------------------------------------------------------------------
-- Complete instructions
-- ---------------------------------------------------------------------------

theorem slots_length (l : LoadedInst) : l.slots.length = arity l.opcode :=
  List.length_take_of_le (arity_le l.opcode)

theorem Takes.tokens_iff (h : Takes before opcode text l s') :
    (∀ slot ∈ l.slots, ∃ left, slot.origin = .token left) ↔ ArgsStand opcode text := by
  obtain ⟨stale, hslots, hstale⟩ := h.slots_eq
  have hlength := slots_length l
  rw [h.opcode_eq, hslots, List.length_append, List.length_map] at hlength
  rw [hslots]
  constructor
  · intro htokens
    have hnil : stale = [] := by
      refine List.eq_nil_iff_forall_not_mem.mpr fun slot hmem => ?_
      obtain ⟨left, hleft⟩ := htokens slot (List.mem_append_right _ hmem)
      rw [hstale slot hmem] at hleft
      cases hleft
    refine ⟨by simpa [hnil] using hlength, fun v hv => ?_⟩
    obtain ⟨left, hleft⟩ := htokens _ (List.mem_append_left _ (List.mem_map_of_mem hv))
    exact (standsAt_of_tokenAt hleft).2
  · rintro ⟨hall, hstand⟩ slot hslot
    have hnil : stale = [] := List.length_eq_zero_iff.mp (by omega)
    rw [hnil, List.append_nil] at hslot
    obtain ⟨v, hv, rfl⟩ := List.mem_map.mp hslot
    exact ⟨v.2, tokenAt_of_standsAt (hstand v hv)⟩

theorem Takes.origins_iff (h : Takes before opcode text l s') (horigin : l.origin = .token left) :
    (∀ o ∈ l.origins, ∃ left, o = .token left) ↔ ArgsStand opcode text := by
  rw [← h.tokens_iff]
  simp [LoadedInst.origins, horigin]

theorem complete_of_loadText (h : loadText before n i s = .ok text)
    (htokens : ∀ l ∈ text.toList, ∀ o ∈ l.origins, ∃ left, o = .token left) :
    Complete n s.rest := by
  induction n generalizing i s with
  | zero => exact trivial
  | succ n ih =>
    obtain ⟨l, s', rest, hturn, hrest, rfl⟩ := loadText_succ_ok h
    rw [List.Vector.toList_cons] at htokens
    have hl := htokens l List.mem_cons_self
    cases hturn with
    | read hword hfit hop horigin htakes hopcode =>
      have hcomplete := ih hrest fun l' hl' => htokens l' (List.mem_cons_of_mem l hl')
      rw [htakes.rest_eq] at hcomplete
      exact ⟨_, _, _, hword, hfit, hop, (htakes.origins_iff horigin).mp hl, hcomplete⟩
    | ended hword hop horigin htakes hopcode =>
      obtain ⟨left, hleft⟩ := hl l.origin List.mem_cons_self
      cases horigin.symm.trans hleft

theorem loadText_complete (before : Before) (i : Nat) (h : Complete n s.rest) :
    ∃ text, loadText before n i s = .ok text ∧
      ∀ l ∈ text.toList, ∀ o ∈ l.origins, ∃ left, o = .token left := by
  induction n generalizing i s with
  | zero => exact ⟨.nil, rfl, by simp⟩
  | succ n ih =>
    obtain ⟨w, rest, opcode, hword, hfit, hop, hargs, hcomplete⟩ := h
    obtain ⟨l, s', hinst, horigin, htakes⟩ :=
      (loadInst_turn before (before.text i) s).of_known hword hfit hop
    rw [← htakes.rest_eq] at hcomplete
    obtain ⟨text, htext, htokens⟩ := ih (i + 1) hcomplete
    refine ⟨.cons l text, by simp only [loadText, hinst, htext, ok_bind], ?_⟩
    rw [List.Vector.toList_cons]
    intro l' hl'
    rcases List.mem_cons.mp hl' with rfl | hmem
    · exact (htakes.origins_iff horigin).mpr hargs
    · exact htokens l' hmem

-- ---------------------------------------------------------------------------
-- Unknown words
-- ---------------------------------------------------------------------------

theorem loadText_unknown (before : Before) (i : Nat) (h : MeetsUnknown n s.rest) :
    loadText before n i s = .error .exit := by
  induction n generalizing i s with
  | zero => exact h.elim
  | succ n ih =>
    obtain ⟨w, rest, hword, hfit, hop | ⟨opcode, hop, hmeets⟩⟩ := h
    · have hinst := (loadInst_turn before (before.text i) s).of_unknown hword hfit hop
      simp only [loadText, hinst, error_bind]
    · obtain ⟨l, s', hinst, -, htakes⟩ :=
        (loadInst_turn before (before.text i) s).of_known hword hfit hop
      rw [← htakes.rest_eq] at hmeets
      simp only [loadText, hinst, ok_bind, ih (i + 1) hmeets, error_bind]

/-- At the end of the file every turn repeats the opcode of the last. -/
theorem loadText_end (before : Before) (n i : Nat) (hrest : s.rest = [])
    (hop : getOpcode s.opcode = .ok opcode) :
    ∃ text, loadText before n i s = .ok text := by
  induction n generalizing i s with
  | zero => exact ⟨.nil, rfl⟩
  | succ n ih =>
    have hword : word s.rest = none := by
      rw [hrest]
      rfl
    obtain ⟨l, s', hinst, hrest', hopcode⟩ :=
      (loadInst_turn before (before.text i) s).of_end hword hop
    obtain ⟨text, htext⟩ := ih (i + 1) hrest' (hopcode ▸ hop)
    exact ⟨.cons l text, by simp only [loadText, hinst, htext, ok_bind]⟩

theorem meetsUnknown_of_loadText (hop : getOpcode s.opcode = .ok opcode)
    (h : loadText before n i s = .error .exit) : MeetsUnknown n s.rest := by
  induction n generalizing i s opcode with
  | zero => cases h
  | succ n ih =>
    rcases bind_eq_error.mp h with hinst | ⟨⟨l, s'⟩, hinst, h⟩
    · have hturn : Turn before s (.error .exit) := hinst ▸ loadInst_turn before (before.text i) s
      cases hturn with
      | unknown hword hfit hop' => exact ⟨_, _, hword, hfit, .inl hop'⟩
      | endedUnknown hword hop' => cases hop'.symm.trans hop
    · have hturn : Turn before s (.ok (l, s')) := hinst ▸ loadInst_turn before (before.text i) s
      rcases bind_eq_error.mp h with hrest | ⟨rest, -, h⟩
      · cases hturn with
        | read hword hfit hop' horigin htakes hopcode =>
          have hmeets := ih (hopcode ▸ hop') hrest
          rw [htakes.rest_eq] at hmeets
          exact ⟨_, _, hword, hfit, .inr ⟨_, hop', hmeets⟩⟩
        | ended hword hop' horigin htakes hopcode =>
          obtain ⟨rest, hok⟩ := loadText_end before n (i + 1)
            (by rw [htakes.rest_eq, argNumerals_nil])
            (hopcode ▸ hop)
          cases hrest.symm.trans hok
      · cases h

-- ---------------------------------------------------------------------------
-- Files
-- ---------------------------------------------------------------------------

theorem scanHeader_eq (before : Before) (file : List Char) :
    scanHeader before file =
      ((numerals 2 file).1[0]?.elim before.priority (unsigned before.outsideUnsigned ·.1),
        (numerals 2 file).1[1]?.elim before.size (unsigned before.outsideUnsigned ·.1),
        (numerals 2 file).2) := rfl

theorem scanHeader_announces (before : Before) (file : List Char) :
    ∃ priority size, scanHeader before file = (priority, size, (numerals 2 file).2) ∧
      Announces file size := by
  refine ⟨_, _, scanHeader_eq before file, fun v hv hfits => ?_⟩
  rw [hv, Option.elim_some, unsigned, if_pos hfits]

/-- Memory that makes the header stand for the size, and whose opcode is known. -/
theorem exists_scanHeader (h : Announces file size) :
    ∃ before priority, getOpcode before.opcode = .ok .calc ∧
      scanHeader before file = (priority, size, (numerals 2 file).2) := by
  let before : Before :=
    { Before.zero with size := size, opcode := optCalc, outsideUnsigned := fun _ => size }
  have hsize : (numerals 2 file).1[1]?.elim before.size (unsigned before.outsideUnsigned ·.1) =
      size := by
    cases hv : (numerals 2 file).1[1]? with
    | none => rfl
    | some v =>
      rw [Option.elim_some, unsigned]
      split
      · rename_i hfits
        exact (h v hv hfits).symm
      · rfl
  exact ⟨before, _, rfl, by rw [scanHeader_eq, hsize]⟩

theorem load_checked_iff (file : List Char) :
    (∀ before availPid path, Checked before file (load before availPid path (some file))) ↔
      ∀ size, Announces file size →
        Complete size.toNat (numerals 2 file).2 ∨ MeetsUnknown size.toNat (numerals 2 file).2 := by
  constructor
  · intro hchecked size hsize
    obtain ⟨before, priority, hop, hheader⟩ := exists_scanHeader hsize
    have hload := hchecked before 1 []
    rw [load_of_header 1 [] hheader] at hload
    cases htext : loadText before size.toNat 0 ⟨before.opcode, before.buf, (numerals 2 file).2⟩ with
    | ok text =>
      rw [htext] at hload
      exact .inl (complete_of_loadText htext hload.tokens)
    | error e =>
      rw [htext] at hload
      cases e with
      | exit => exact .inr (meetsUnknown_of_loadText hop htext)
      | overflow => exact hload.elim
  · intro hfile before availPid path
    obtain ⟨priority, size, hheader, hsize⟩ := scanHeader_announces before file
    rw [load_of_header availPid path hheader]
    rcases hfile size hsize with hcomplete | hmeets
    · obtain ⟨text, htext, htokens⟩ :=
        loadText_complete (s := ⟨before.opcode, before.buf, (numerals 2 file).2⟩) before 0 hcomplete
      rw [htext]
      exact ⟨htokens, loadText_stands htext (numerals_suffix 2 file),
        (loadText_descends htext).sorted⟩
    · rw [loadText_unknown (s := ⟨before.opcode, before.buf, (numerals 2 file).2⟩) before 0 hmeets]
      exact trivial

/-- One argument for a system call, fewer lines than announced, and a word of ten characters. -/
theorem load_checked_iff_misread :
    ¬Checked .zero "20 1\nsyscall 0 \n".toList
      (load .zero 1 [] (some "20 1\nsyscall 0 \n".toList)) ∧
      ¬Checked .zero "1 2\ncalc\n".toList (load .zero 1 [] (some "1 2\ncalc\n".toList)) ∧
      ¬Checked .zero "1 1\ncalculates\n".toList
        (load .zero 1 [] (some "1 1\ncalculates\n".toList)) := by
  refine ⟨fun h => ?_, fun h => ?_, fun h => h⟩
  · obtain ⟨left, hleft⟩ := FromTokens.tokens h _ List.mem_cons_self .leftover (by decide)
    cases hleft
  · obtain ⟨left, hleft⟩ :=
      FromTokens.tokens h _ (List.mem_cons_of_mem _ List.mem_cons_self) .leftover (by decide)
    cases hleft

end AssignmentOS.Loader
