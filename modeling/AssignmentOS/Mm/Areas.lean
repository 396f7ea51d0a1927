import AssignmentOS.Mm.Region

/-!
# Looking an area up

`get_vma_by_num` on a NULL-terminated list of areas in the order of their
numbers. It stops at the first number that is not below the one it looks for,
and it looks at the number of the next area before it sees that there is none:
an area that exists is found, and for one that does not the call comes back with
another area or not at all.
-/

namespace AssignmentOS.Mm

open Memory Fallible

def VmAreaStruct.link (vma : VmAreaStruct) : Slot Ptr := .written vma.vmNext

/-- The areas of `s` are `l`, each with a greater number than those before it. -/
structure Areas (s : MmState) (l : List (Addr × VmAreaStruct)) : Prop where
  chain : Chain s.areas VmAreaStruct.link s.mm.mmap l
  increasing : l.Pairwise fun x y => x.2.vmId < y.2.vmId

def Numbered (vmaid : Int) (x : Addr × VmAreaStruct) : Prop := (x.2.vmId.toNat : Int) = vmaid

/-- The search returns the area with the number, or NULL if there is none. -/
def Finds (s : MmState) (l : List (Addr × VmAreaStruct)) (vmaid : Int) : Prop :=
  ∃ p, getVmaByNum s vmaid = .ok p ∧ ∀ a, p = some a ↔ ∃ vma, (a, vma) ∈ l ∧ Numbered vmaid (a, vma)

-- ---------------------------------------------------------------------------
-- What the loop finds
-- ---------------------------------------------------------------------------

def stopsAt (vmaid : Int) (x : Addr × VmAreaStruct) : Bool := vmaid ≤ longToInt x.2.vmId

theorem vmaLoop_chain {areas : Heap VmAreaStruct}
    (hl : Chain areas VmAreaStruct.link (some a) ((a, vma) :: l)) (vmaid : Int)
    (hfuel : l.length < fuel) :
    vmaLoop areas vmaid fuel (some a) (longToInt vma.vmId) =
      need .pointer ((((a, vma) :: l).find? (stopsAt vmaid)).map fun x => some x.1) := by
  induction fuel generalizing a vma l with
  | zero => cases hfuel
  | succ fuel ih =>
    obtain ⟨-, hcell, q, hq, hs⟩ := chain_cons_iff.1 hl
    cases Slot.written.inj hq
    by_cases hlt : longToInt vma.vmId < vmaid
    · have hgo : ¬ stopsAt vmaid (a, vma) = true := by simpa [stopsAt] using hlt
      rw [List.find?_cons_of_neg hgo]
      cases l with
      | nil =>
        -- `pvma` is NULL now, and the loop goes on to read its `vm_id`
        have hend : vma.vmNext = none := chain_nil_iff.1 hs
        simp [vmaLoop, hlt, hcell, hend]
      | cons y l =>
        obtain ⟨b, next⟩ := y
        obtain ⟨hb, hnext, -⟩ := chain_cons_iff.1 hs
        rw [hb] at hs
        simpa [vmaLoop, hlt, hcell, hb, hnext] using ih hs (Nat.lt_of_succ_lt_succ hfuel)
    · have hstop : stopsAt vmaid (a, vma) = true := by simpa [stopsAt] using hlt
      rw [List.find?_cons_of_pos hstop]
      simp [vmaLoop, hlt]

theorem getVmaByNum_chain {s : MmState} (hl : Chain s.areas VmAreaStruct.link s.mm.mmap l)
    (hne : l ≠ []) (vmaid : Int) :
    getVmaByNum s vmaid = need .pointer ((l.find? (stopsAt vmaid)).map fun x => some x.1) := by
  cases l with
  | nil => exact absurd rfl hne
  | cons x l =>
    obtain ⟨a, vma⟩ := x
    have hlen := chain_length_le hl
    obtain ⟨hmmap, hcell, -⟩ := chain_cons_iff.1 hl
    rw [hmmap] at hl
    rw [← vmaLoop_chain hl vmaid (show l.length < s.areas.bound + 1 from Nat.le_succ_of_le hlen)]
    simp [getVmaByNum, hmmap, hcell]

theorem getVmaByNum_empty {s : MmState} (hl : Chain s.areas VmAreaStruct.link s.mm.mmap [])
    (vmaid : Int) :
    getVmaByNum s vmaid = .ok none := by
  simp [getVmaByNum, chain_nil_iff.1 hl]

-- ---------------------------------------------------------------------------
-- Areas that exist
-- ---------------------------------------------------------------------------

theorem longToInt_of_lt {x : UInt64} (h : x.toNat < 0x80000000) : longToInt x = x.toNat := by
  have hcut : longToInt x = asInt x.toUInt32 := rfl
  rw [hcut, asInt_eq, UInt64.toNat_toUInt32]
  omega

theorem Numbered.longToInt {vmaid : Int32} (hx : Numbered vmaid.toInt x) :
    longToInt x.2.vmId = vmaid.toInt := by
  have hlt := Int32.toInt_lt vmaid
  unfold Numbered at hx
  rw [longToInt_of_lt (by omega), hx]

/-- An area with the number is the first one where the loop stops: the numbers before it
are smaller, so none of them is cut off when it is taken as an `int`. -/
theorem find_numbered {l : List (Addr × VmAreaStruct)}
    (hinc : l.Pairwise fun x y => x.2.vmId < y.2.vmId) {vmaid : Int32} (hmem : y ∈ l)
    (hy : Numbered vmaid.toInt y) :
    l.find? (stopsAt vmaid.toInt) = some y := by
  have hstop : stopsAt vmaid.toInt y = true := decide_eq_true (Int.le_of_eq hy.longToInt.symm)
  obtain ⟨before, after, rfl⟩ := List.append_of_mem hmem
  refine List.find?_eq_some_iff_append.mpr ⟨hstop, before, after, rfl, fun x hx => ?_⟩
  have hlt : x.2.vmId.toNat < y.2.vmId.toNat :=
    UInt64.lt_iff_toNat_lt.mp ((List.pairwise_append.mp hinc).2.2 x hx y List.mem_cons_self)
  have hmax := Int32.toInt_lt vmaid
  unfold Numbered at hy
  rw [stopsAt, longToInt_of_lt (by omega)]
  simp only [Bool.not_eq_eq_eq_not, Bool.not_true, decide_eq_false_iff_not]
  omega

theorem get_vma_by_num_finds {s : MmState} (hs : Areas s l) (vmaid : Int32) :
    Finds s l vmaid.toInt ↔ l = [] ∨ ∃ x ∈ l, Numbered vmaid.toInt x := by
  constructor
  · rintro ⟨p, hget, hp⟩
    refine or_iff_not_imp_left.mpr fun hne => ?_
    rw [getVmaByNum_chain hs.chain hne, need_eq_ok, Option.map_eq_some_iff] at hget
    obtain ⟨x, -, hx⟩ := hget
    obtain ⟨vma, hmem, hnum⟩ := (hp x.1).1 hx.symm
    exact ⟨_, hmem, hnum⟩
  · rintro (rfl | ⟨x, hmem, hx⟩)
    · exact ⟨none, getVmaByNum_empty hs.chain _, fun a => by simp⟩
    · have hfind := find_numbered hs.increasing hmem hx
      refine ⟨some x.1, ?_, fun a => ⟨?_, ?_⟩⟩
      · rw [getVmaByNum_chain hs.chain (List.ne_nil_of_mem hmem), hfind]
        rfl
      · rintro ⟨⟩
        exact ⟨x.2, hmem, hx⟩
      · rintro ⟨vma, hmem', hnum⟩
        cases hfind.symm.trans (find_numbered hs.increasing hmem' hnum)
        rfl

def MmState.gap : MmState :=
  { MmState.started (blank 0) .empty with
    areas := (Heap.empty.set 0 ⟨0, 0, 0, 0, some 0, some 1⟩).set 1 ⟨2, 0, 0, 0, none, none⟩ }

def gapAreas : List (Addr × VmAreaStruct) :=
  [(0, ⟨0, 0, 0, 0, some 0, some 1⟩), (1, ⟨2, 0, 0, 0, none, none⟩)]

theorem gap_areas : Areas .gap gapAreas where
  chain := chain_cons_iff.2 ⟨rfl, rfl, some 1, rfl, chain_cons_iff.2 ⟨rfl, rfl, none, rfl, .nil⟩⟩
  increasing := by simp [gapAreas]

theorem get_vma_by_num_finds_two : Finds .gap gapAreas 0 ∧ Finds .gap gapAreas 2 :=
  ⟨(get_vma_by_num_finds gap_areas 0).2 (.inr ⟨_, List.mem_cons_self, rfl⟩),
    (get_vma_by_num_finds gap_areas 2).2 (.inr ⟨_, List.mem_cons_of_mem _ List.mem_cons_self, rfl⟩)⟩

/-- Area 1 is taken to be area 2, and on the way to area 3 a null pointer is followed. -/
theorem get_vma_by_num_finds_gap :
    let l := [(0, ⟨0, 0, 0, 0, some 0, some 1⟩), (1, ⟨2, 0, 0, 0, none, none⟩)]
    Areas .gap l ∧ getVmaByNum .gap 1 = .ok (some 1) ∧ getVmaByNum .gap 3 = .error .pointer ∧
      ¬ Finds .gap l 1 ∧ ¬ Finds .gap l 3 := by
  intro l
  refine ⟨gap_areas, rfl, rfl, ?_, ?_⟩
  · rintro ⟨p, hget, hp⟩
    cases hget
    simpa [l, Numbered] using hp 1
  · rintro ⟨p, hget, -⟩
    cases hget

end AssignmentOS.Mm
