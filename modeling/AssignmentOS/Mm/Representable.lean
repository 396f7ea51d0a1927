import AssignmentOS.Mm.FreeList
import AssignmentOS.Mm.Pte

/-!
# Frames in page-table entries

A device has as many frames as its configured size allows, an entry has 13 bits
for a frame of the RAM and 21 for one of a swap. A frame that does not fit loses
its high bits on the way into the entry.
-/

namespace AssignmentOS.Mm

open Memory Transition

variable {M : FrameMalloc} {h : FrameHeap} {mp : MemphyStruct}

/-- `MEMPHY_get_freefp` can give `f` on the device that `init_memphy` builds. -/
def HandedOut (M : FrameMalloc) (mp : MemphyStruct) (maxSize randomflg : Int) (h : FrameHeap)
    (f : Int) :
    Prop :=
  ∃ mp' h' s retfpn mp'' h'', initMemphy M mp maxSize randomflg h = some (0, mp', h') ∧
    Reachable (frameSystem M mp' h') s ∧ memphyGetFreefp s.mp retfpn s.heap = some (0, f, mp'', h'')

/-- What is written to an entry is read back, whatever the entry was before, and
different frames make different entries. -/
def Faithful (encode : BitVec 32 → Int → BitVec 32) (decode : BitVec 32 → BitVec 32)
    (frame : Int → Prop) :
    Prop :=
  (∀ pte f, frame f → ((decode (encode pte f)).toNat : Int) = f) ∧
  ∀ pte pte' f f', frame f → frame f' → encode pte f = encode pte' f' → f = f'

-- ---------------------------------------------------------------------------
-- The frames that are handed out
-- ---------------------------------------------------------------------------

theorem FreeList.taken {s : FrameState} (hs : Reachable (frameSystem M mp h) s)
    (hf : FreeList s.heap s.mp free) (hmem : f ∈ free) :
    ∃ t mp' h', Reachable (frameSystem M mp h) t ∧
      memphyGetFreefp t.mp 0 t.heap = some (0, f, mp', h') := by
  induction free generalizing s with
  | nil => cases hmem
  | cons g free ih =>
    obtain ⟨q, h', hget, hf'⟩ := getFreefp_cons hf
    rcases List.mem_cons.mp hmem with rfl | hmem
    · exact ⟨s, _, h', hs, hget 0⟩
    · have hnext : frameNext M s (.get 0) =
          some (.get 0, ⟨{ s.mp with freeFpList := q }, h', g :: s.held⟩) := by
        simp [frameNext, hget]
      exact ih (hs.step ⟨.get 0, hnext⟩) hf' hmem

/-- With two frames or more all the frames of the device are handed out, and no others. -/
theorem handedOut_iff (mp : MemphyStruct) (randomflg : Int) (h : FrameHeap)
    (hsz : 2 * pagingPagesz ≤ maxSize) :
    HandedOut M mp maxSize randomflg h f ↔ 0 ≤ f ∧ f < maxSize / pagingPagesz := by
  obtain ⟨mp₀, h₀, hinit, -, hfree⟩ := init_freeList (M := M) mp maxSize randomflg h hsz
  simp only [pagingPagesz] at *
  have hframes : f ∈ frames (maxSize / 256).toNat ↔ 0 ≤ f ∧ f < maxSize / 256 := by
    rw [mem_frames]
    omega
  rw [← hframes]
  constructor
  · rintro ⟨mp', h', s, retfpn, mp'', h'', hinit', hs, hget⟩
    rw [hinit] at hinit'
    cases hinit'
    obtain ⟨⟨free, hf, hperm⟩, -⟩ := reachable_conserved hfree hs
    cases free with
    | nil =>
      rw [getFreefp_nil hf] at hget
      cases hget
    | cons g free =>
      obtain ⟨q, h₁, hget', -⟩ := getFreefp_cons hf
      rw [hget'] at hget
      cases hget
      exact hperm.subset (by simp)
  · intro hmem
    have hinitial : Reachable (frameSystem M mp₀ h₀) ⟨mp₀, h₀, []⟩ := ⟨[], .init rfl⟩
    obtain ⟨s, mp', h', hs, hget⟩ := hfree.taken hinitial hmem
    exact ⟨mp₀, h₀, s, 0, mp', h', hinit, hs, hget⟩

theorem init_one (mp : MemphyStruct) (randomflg : Int) (h : FrameHeap) (h0 : 0 ≤ maxSize)
    (hn : maxSize.tdiv pagingPagesz = 1) :
    ∃ cursor, initMemphy M mp maxSize randomflg h = some (0,
      ⟨List.replicate maxSize.toNat 0, maxSize, if randomflg ≠ 0 then 1 else 0, cursor,
        .written (some (M.addr h))⟩, h.set (M.addr h) ⟨.written 0, .prior (M.prior h).2⟩) := by
  have hfmt : memphyFormat M { mp with storage := List.replicate maxSize.toNat 0, maxsz := maxSize }
      pagingPagesz h = some (0, { mp with
        storage := List.replicate maxSize.toNat 0, maxsz := maxSize,
        freeFpList := .written (some (M.addr h)) },
      h.set (M.addr h) ⟨.written 0, .prior (M.prior h).2⟩) := by
    simp [memphyFormat, hn, Heap.malloc, FramephyStruct.raw, formatLoop]
  exact init_spec mp maxSize randomflg h _ h0 hfmt

/-- With fewer frames `MEMPHY_get_freefp` comes to a pointer nobody has written,
so it can give any number. -/
theorem handedOut_any (randomflg : Int) (h0 : 0 ≤ maxSize) (hsz : maxSize < 2 * pagingPagesz)
    (k : Int) :
    ∃ M mp p h, mp.freeFpList = .prior p ∧ HandedOut M mp maxSize randomflg h k := by
  have hdiv : maxSize.tdiv pagingPagesz = maxSize / 256 := Int.tdiv_eq_ediv_of_nonneg h0
  simp only [pagingPagesz] at hsz
  let mp : MemphyStruct := ⟨[], 0, 0, 0, .prior (some 0)⟩
  let h : FrameHeap := Heap.empty.set 0 ⟨.written k, .written none⟩
  refine ⟨.bump (0, some 0), mp, some 0, h, rfl, ?_⟩
  rcases lt_or_ge maxSize 256 with hzero | hone
  · obtain ⟨cursor, hinit⟩ := init_zero (M := .bump (0, some 0)) mp maxSize randomflg
      h h0 (by omega)
    exact ⟨_, h, ⟨_, h, []⟩, 0, _, _, hinit, ⟨[], .init rfl⟩, rfl⟩
  · have hframes : maxSize.tdiv pagingPagesz = 1 := by omega
    obtain ⟨cursor, hinit⟩ := init_one (M := .bump (0, some 0)) mp randomflg h h0 hframes
    exact ⟨_, _, _, 0, _, _, hinit, Reachable.step ⟨[], .init rfl⟩ ⟨.get 0, rfl⟩, rfl⟩

-- ---------------------------------------------------------------------------
-- The width of a field
-- ---------------------------------------------------------------------------

theorem faithful_iff {encode : BitVec 32 → Int → BitVec 32} {decode : BitVec 32 → BitVec 32}
    {frame : Int → Prop} (bound : Nat) (hb : 0 < bound)
    (hmod : ∀ pte f, ((decode (encode pte f)).toNat : Int) = f % bound) :
    Faithful encode decode frame ↔ ∀ f, frame f → 0 ≤ f ∧ f < bound := by
  constructor
  · rintro ⟨hback, -⟩ f hf
    rw [← hback 0 f hf, hmod]
    exact ⟨Int.emod_nonneg _ (by omega), Int.emod_lt_of_pos _ (by omega)⟩
  · intro hlt
    have hback : ∀ pte f, frame f → ((decode (encode pte f)).toNat : Int) = f := by
      intro pte f hf
      obtain ⟨h0, hfb⟩ := hlt f hf
      rw [hmod, Int.emod_eq_of_lt h0 hfb]
    refine ⟨hback, fun pte pte' f f' hf hf' heq => ?_⟩
    rw [← hback pte f hf, ← hback pte' f' hf', heq]

theorem pagingPteFpn_pteSetFpn (pte : BitVec 32) (f : Int) :
    ((pagingPteFpn (pteSetFpn pte f).2).toNat : Int) = f % (0x2000 : Nat) :=
  getVal_setVal_mod (h := 12) (l := 0) (by decide) (by decide) _ f

theorem pagingPteSwp_pteSetSwap (swptyp : Int) (pte : BitVec 32) (f : Int) :
    ((pagingPteSwp (pteSetSwap pte swptyp f).2).toNat : Int) = f % (0x200000 : Nat) :=
  getVal_setVal_mod (h := 25) (l := 5) (by decide) (by decide) _ f

-- ---------------------------------------------------------------------------
-- Frames that fit
-- ---------------------------------------------------------------------------

def FaithfulSize (encode : BitVec 32 → Int → BitVec 32) (decode : BitVec 32 → BitVec 32)
    (maxSize randomflg : Int) : Prop :=
  ∀ M mp p h, mp.freeFpList = .prior p →
    Faithful encode decode (HandedOut M mp maxSize randomflg h)

theorem faithfulSize_iff {encode : BitVec 32 → Int → BitVec 32} {decode : BitVec 32 → BitVec 32}
    (bound : Nat) (hb : 2 ≤ bound)
    (hmod : ∀ pte f, ((decode (encode pte f)).toNat : Int) = f % bound) (maxSize randomflg : Int) :
    FaithfulSize encode decode maxSize randomflg ↔
      maxSize < 0 ∨ 2 * pagingPagesz ≤ maxSize ∧ maxSize < (bound + 1) * pagingPagesz := by
  have hiff : ∀ frame, Faithful encode decode frame ↔ ∀ f, frame f → 0 ≤ f ∧ f < bound :=
    fun frame => faithful_iff bound (by omega) hmod
  constructor
  · intro hall
    by_contra hsz
    rcases lt_or_ge maxSize (2 * pagingPagesz) with hsmall | hlarge
    · obtain ⟨M, mp, p, h, hp, hout⟩ := handedOut_any randomflg (by omega) hsmall bound
      exact absurd ((hiff _).1 (hall M mp p h hp) _ hout).2 (lt_irrefl _)
    · have hout : HandedOut (.bump (0, none)) ⟨[], 0, 0, 0, .prior none⟩ maxSize randomflg
          .empty bound := by
        rw [handedOut_iff _ randomflg _ hlarge]
        simp only [pagingPagesz] at *
        omega
      exact absurd ((hiff _).1 (hall _ _ none _ rfl) _ hout).2 (lt_irrefl _)
  · rintro (hneg | ⟨hlarge, hsmall⟩) M mp p h -
    · refine (hiff _).2 ?_
      rintro f ⟨_, _, _, _, _, _, hinit, -⟩
      exact absurd (init_nonneg hinit) (Int.not_le.mpr hneg)
    · refine (hiff _).2 fun f hout => ?_
      rw [handedOut_iff _ randomflg _ hlarge] at hout
      simp only [pagingPagesz] at *
      omega

theorem frames_representable (maxSize randomflg : Int) :
    (FaithfulSize (fun pte f => (pteSetFpn pte f).2) pagingPteFpn maxSize randomflg ↔
      maxSize < 0 ∨ 512 ≤ maxSize ∧ maxSize < 0x200100) ∧
    ∀ swptyp, FaithfulSize (fun pte f => (pteSetSwap pte swptyp f).2) pagingPteSwp
      maxSize randomflg ↔
      maxSize < 0 ∨ 512 ≤ maxSize ∧ maxSize < 0x20000100 := by
  refine ⟨?_, fun swptyp => ?_⟩
  · exact faithfulSize_iff 0x2000 (by decide) pagingPteFpn_pteSetFpn maxSize randomflg
  · exact faithfulSize_iff 0x200000 (by decide) (pagingPteSwp_pteSetSwap swptyp) maxSize randomflg

/-- Frame 8192 of a RAM of 2 MiB and one page is written as frame 0 would be. -/
theorem frames_representable_ram :
    HandedOut (.bump (9, some 9)) ⟨[], 0, 0, 0, .prior none⟩ 0x200100 1 .empty 8192 ∧
      (pteSetFpn 0 8192).2 = (pteSetFpn 0 0).2 ∧
      ¬ FaithfulSize (fun pte f => (pteSetFpn pte f).2) pagingPteFpn 0x200100 1 := by
  have hout : HandedOut (.bump (9, some 9)) ⟨[], 0, 0, 0, .prior none⟩ 0x200100 1 .empty 8192 := by
    rw [handedOut_iff _ _ _ (by decide)]
    decide
  refine ⟨hout, by decide, fun hall => ?_⟩
  have hback := (hall _ _ none _ rfl).1 0 8192 hout
  revert hback
  decide

end AssignmentOS.Mm
