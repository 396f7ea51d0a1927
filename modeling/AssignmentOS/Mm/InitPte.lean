import AssignmentOS.Mm.Representable

/-!
# Building an entry

`init_pte` of `mm.c`. It writes an entry only for a page that is present, always
as a clean one, and takes frame 0 for a missing frame, although that is the
first one `MEMPHY_get_freefp` hands out.
-/

namespace AssignmentOS.Mm

open Memory Transition

-- ---------------------------------------------------------------------------
-- init_pte
-- ---------------------------------------------------------------------------

def pagingPteDirtyMask : BitVec 32 := bit 28

/-- `init_pte`: the return value and the entry. The dirty flag is not looked at. -/
def initPte (pte : BitVec 32) (pre fpn _drt swp swptyp swpoff : Int) : Int × BitVec 32 :=
  if pre ≠ 0 then
    if swp = 0 then
      if fpn = 0 then (-1, pte)
      else
        let pte := setBit pte pagingPtePresentMask
        let pte := clrBit pte pagingPteSwappedMask
        let pte := clrBit pte pagingPteDirtyMask
        let pte := setVal pte (.ofInt 32 fpn) pagingPteFpnMask pagingPteFpnLobit
        (0, pte)
    else
      let pte := setBit pte pagingPtePresentMask
      let pte := setBit pte pagingPteSwappedMask
      let pte := clrBit pte pagingPteDirtyMask
      let pte := setVal pte (.ofInt 32 swptyp) pagingPteSwptypMask pagingPteSwptypLobit
      let pte := setVal pte (.ofInt 32 swpoff) pagingPteSwpoffMask pagingPteSwpoffLobit
      (0, pte)
  else (0, pte)

/-- Arguments that fit: three flags, a frame, a swap type and a frame of the swap. -/
structure PteArgs where
  pre : Fin 2
  fpn : Fin (2 ^ 13)
  drt : Fin 2
  swp : Fin 2
  swptyp : Fin (2 ^ 5)
  swpoff : Fin (2 ^ 21)

def PteArgs.init (args : PteArgs) (pte : BitVec 32) : Int × BitVec 32 :=
  initPte pte args.pre.val args.fpn.val args.drt.val args.swp.val args.swptyp.val args.swpoff.val

/-- The call has succeeded, and the entry reads as its arguments say. -/
structure PteArgs.Decoded (args : PteArgs) (ret : Int) (pte : BitVec 32) : Prop where
  ret : ret = 0
  present : pagingPagePresent pte ≠ 0 ↔ args.pre = 1
  swapped : args.pre = 1 → (pte &&& pagingPteSwappedMask ≠ 0 ↔ args.swp = 1)
  dirty : args.pre = 1 → (pte &&& pagingPteDirtyMask ≠ 0 ↔ args.drt = 1)
  fpn : args.pre = 1 → args.swp = 0 → (pagingPteFpn pte).toNat = args.fpn
  swptyp : args.pre = 1 → args.swp = 1 →
    (getVal pte pagingPteSwptypMask pagingPteSwptypLobit).toNat = args.swptyp
  swpoff : args.pre = 1 → args.swp = 1 → (pagingPteSwp pte).toNat = args.swpoff

/-- What `init_pte` can honour: a page that is not present where none was, or a clean
one that is swapped or in a frame other than 0. -/
inductive PteArgs.Honoured (args : PteArgs) (pte : BitVec 32) : Prop
  | absent : args.pre = 0 → pagingPagePresent pte = 0 → args.Honoured pte
  | present : args.pre = 1 → args.drt = 0 → args.swp = 1 ∨ args.fpn ≠ 0 → args.Honoured pte

def Accepted (pte : BitVec 32) (fpn : Int) : Prop :=
  ∀ drt swptyp swpoff, (initPte pte 1 fpn drt 0 swptyp swpoff).1 = 0

-- ---------------------------------------------------------------------------
-- The entry of a page that is present
-- ---------------------------------------------------------------------------

theorem dirty_iff (pte : BitVec 32) : pte &&& pagingPteDirtyMask ≠ 0 ↔ pte.getLsbD 28 = true :=
  and_bit_ne_zero (by decide) pte

theorem clrBit_comm (v m m' : BitVec 32) : clrBit (clrBit v m) m' = clrBit (clrBit v m') m := by
  unfold clrBit
  rw [BitVec.and_assoc, BitVec.and_assoc, BitVec.and_comm (~~~m)]

theorem clrBit_setBit (hn : n < 32) (hm : m < 32) (hne : n ≠ m) (v : BitVec 32) :
    clrBit (setBit v (bit n)) (bit m) = setBit (clrBit v (bit m)) (bit n) := by
  apply BitVec.eq_of_getLsbD_eq
  intro i _
  rw [getLsbD_clrBit hm, getLsbD_setBit hn, getLsbD_setBit hn, getLsbD_clrBit hm]
  by_cases hi : i = n
  · subst hi
    simp [hne]
  · simp [hi]

theorem initPte_online (pte : BitVec 32) (hfpn : fpn ≠ 0) (drt swptyp swpoff : Int) :
    initPte pte 1 fpn drt 0 swptyp swpoff = pteSetFpn (clrBit pte pagingPteDirtyMask) fpn := by
  have hclear : clrBit (clrBit (setBit pte pagingPtePresentMask) pagingPteSwappedMask)
      pagingPteDirtyMask =
      clrBit (setBit (clrBit pte pagingPteDirtyMask) pagingPtePresentMask)
        pagingPteSwappedMask := by
    rw [clrBit_comm, pagingPtePresentMask, pagingPteDirtyMask,
      clrBit_setBit (by decide) (by decide) (by decide)]
  simp [initPte, pteSetFpn, hfpn, hclear]

theorem initPte_swapped (pte : BitVec 32) (fpn drt swptyp swpoff : Int) :
    initPte pte 1 fpn drt 1 swptyp swpoff =
      pteSetSwap (clrBit pte pagingPteDirtyMask) swptyp swpoff := by
  have hclear : clrBit (setBit (setBit pte pagingPtePresentMask) pagingPteSwappedMask)
      pagingPteDirtyMask =
      setBit (setBit (clrBit pte pagingPteDirtyMask) pagingPtePresentMask)
        pagingPteSwappedMask := by
    rw [pagingPtePresentMask, pagingPteSwappedMask, pagingPteDirtyMask,
      clrBit_setBit (by decide) (by decide) (by decide),
        clrBit_setBit (by decide) (by decide) (by decide)]
  simp [initPte, pteSetSwap, hclear]

theorem accepted_iff (pte : BitVec 32) (fpn : Int) : Accepted pte fpn ↔ fpn ≠ 0 := by
  constructor
  · rintro hacc rfl
    have hret := hacc 0 0 0
    simp [initPte] at hret
  · intro hfpn drt swptyp swpoff
    rw [initPte_online pte hfpn]
    rfl

theorem clean (pte : BitVec 32) : (clrBit pte pagingPteDirtyMask).getLsbD 28 = false := by
  rw [pagingPteDirtyMask, getLsbD_clrBit (by decide)]
  simp

theorem init_online {args : PteArgs} (hpre : args.pre = 1) (hswp : args.swp = 0)
    (hfpn : args.fpn ≠ 0) (pte : BitVec 32) :
    args.init pte = pteSetFpn (clrBit pte pagingPteDirtyMask) args.fpn.val := by
  have hne : (args.fpn.val : Int) ≠ 0 := Int.natCast_ne_zero.mpr fun h0 => hfpn (Fin.ext h0)
  rw [PteArgs.init, hpre, hswp]
  exact initPte_online pte hne _ _ _

theorem init_swapped {args : PteArgs} (hpre : args.pre = 1) (hswp : args.swp = 1)
    (pte : BitVec 32) :
    args.init pte = pteSetSwap (clrBit pte pagingPteDirtyMask) args.swptyp.val args.swpoff.val := by
  rw [PteArgs.init, hpre, hswp]
  exact initPte_swapped pte _ _ _ _

/-- The entry of a page that is present never gets the DIRTY bit. -/
theorem init_not_dirty {args : PteArgs} (hpre : args.pre = 1) (hpage : args.swp = 1 ∨ args.fpn ≠ 0)
    (pte : BitVec 32) : ¬ (args.init pte).2 &&& pagingPteDirtyMask ≠ 0 := by
  rw [dirty_iff, Bool.not_eq_true]
  by_cases hswp : args.swp = 0
  · have hfpn := hpage.resolve_left fun h1 => absurd (hswp.symm.trans h1) (by decide)
    rw [init_online hpre hswp hfpn, pteSetFpn_bits _ _ (by decide), clean]
    rfl
  · rw [init_swapped hpre (Fin.eq_one_of_ne_zero _ hswp), pteSetSwap_bits _ _ _ (by decide), clean]
    rfl

theorem decoded_online {args : PteArgs} (hpre : args.pre = 1) (hdrt : args.drt = 0)
    (hswp : args.swp = 0) (hfpn : args.fpn ≠ 0) (pte : BitVec 32) :
    args.Decoded (args.init pte).1 (args.init pte).2 := by
  have hdirty := init_not_dirty hpre (.inr hfpn) pte
  obtain ⟨hpresent, hswapped, hback⟩ :=
    apply_decoded (clrBit pte pagingPteDirtyMask) (.setFpn args.fpn)
  rw [init_online hpre hswp hfpn] at hdirty ⊢
  constructor
  · rfl
  · exact iff_of_true hpresent hpre
  · exact fun _ => iff_of_false (not_not.mpr hswapped) (by simp [hswp])
  · exact fun _ => iff_of_false hdirty (by simp [hdrt])
  · exact fun _ _ => hback
  · exact fun _ h1 => absurd (hswp.symm.trans h1) (by decide)
  · exact fun _ h1 => absurd (hswp.symm.trans h1) (by decide)

theorem decoded_swapped {args : PteArgs} (hpre : args.pre = 1) (hdrt : args.drt = 0)
    (hswp : args.swp = 1) (pte : BitVec 32) : args.Decoded (args.init pte).1 (args.init pte).2 := by
  have hdirty := init_not_dirty hpre (.inl hswp) pte
  obtain ⟨hpresent, hswapped, hoff, htyp⟩ :=
    apply_decoded (clrBit pte pagingPteDirtyMask) (.setSwap args.swptyp args.swpoff)
  rw [init_swapped hpre hswp] at hdirty ⊢
  constructor
  · rfl
  · exact iff_of_true hpresent hpre
  · exact fun _ => iff_of_true hswapped hswp
  · exact fun _ => iff_of_false hdirty (by simp [hdrt])
  · exact fun _ h0 => absurd (hswp.symm.trans h0) (by decide)
  · exact fun _ _ => htyp
  · exact fun _ _ => hoff

theorem init_absent {args : PteArgs} (hpre : args.pre = 0) (pte : BitVec 32) :
    args.init pte = (0, pte) := by
  rw [PteArgs.init, hpre]
  rfl

theorem decoded_iff (args : PteArgs) (pte : BitVec 32) :
    args.Decoded (args.init pte).1 (args.init pte).2 ↔ args.Honoured pte := by
  constructor
  · intro hdec
    by_cases hpre : args.pre = 0
    · have hpresent := hdec.present
      rw [init_absent hpre] at hpresent
      refine .absent hpre (by_contra fun hp => ?_)
      exact absurd (hpre.symm.trans (hpresent.1 hp)) (by decide)
    · have hpre := Fin.eq_one_of_ne_zero _ hpre
      have hpage : args.swp = 1 ∨ args.fpn ≠ 0 := by
        by_contra hnone
        rw [not_or, ne_eq, not_not] at hnone
        have hswp : args.swp = 0 := by_contra fun h0 => hnone.1 (Fin.eq_one_of_ne_zero _ h0)
        have hret := hdec.ret
        rw [PteArgs.init, hpre, hswp, hnone.2] at hret
        cases hret
      refine .present hpre (by_contra fun hdrt => ?_) hpage
      exact init_not_dirty hpre hpage pte ((hdec.dirty hpre).2 (Fin.eq_one_of_ne_zero _ hdrt))
  · rintro (⟨hpre, hp⟩ | ⟨hpre, hdrt, hpage⟩)
    · have h01 : args.pre ≠ 1 := by simp [hpre]
      rw [init_absent hpre]
      constructor
      · rfl
      · exact iff_of_false (not_not.mpr hp) h01
      all_goals exact fun h1 => absurd h1 h01
    · by_cases hswp : args.swp = 0
      · have hfpn := hpage.resolve_left fun h1 => absurd (hswp.symm.trans h1) (by decide)
        exact decoded_online hpre hdrt hswp hfpn pte
      · exact decoded_swapped hpre hdrt (Fin.eq_one_of_ne_zero _ hswp) pte

-- ---------------------------------------------------------------------------
-- The frames that are handed out
-- ---------------------------------------------------------------------------

theorem built_first (hb : Built h (some head) (f :: fpns) fst next) :
    ∃ v, h.cell head = some v ∧ v.fpn = .written f := by
  obtain ⟨l, fpn, hs, -, hc, hmap⟩ := hb
  cases hs with
  | nil =>
    simp only [List.map_nil, List.nil_append, List.map_cons, List.cons.injEq] at hmap
    exact ⟨_, hc, hmap.1⟩
  | cons hc' _ _ =>
    simp only [List.map_cons, List.cons_append, List.cons.injEq] at hmap
    exact ⟨_, hc', hmap.1⟩

/-- Every device with a frame hands out frame 0, and that at once. -/
theorem handedOut_zero (M : FrameMalloc) (mp : MemphyStruct) (randomflg : Int) (h : FrameHeap)
    (hsz : pagingPagesz ≤ maxSize) : HandedOut M mp maxSize randomflg h 0 := by
  simp only [pagingPagesz] at hsz
  have hdiv : maxSize.tdiv pagingPagesz = ((maxSize / 256 - 1).toNat : Int) + 1 := by
    rw [Int.tdiv_eq_ediv_of_nonneg (by omega), pagingPagesz]
    omega
  obtain ⟨cursor, head, last, h', hinit, hb⟩ :=
    init_built (M := M) mp maxSize randomflg h _ (by omega) hdiv
  rw [frames_succ] at hb
  obtain ⟨v, hcell, hfpn⟩ := built_first hb
  have hget : ∀ mp : MemphyStruct, mp.freeFpList.get = some head →
      memphyGetFreefp mp 0 h' = some (0, 0, { mp with freeFpList := v.fpNext }, h'.free head) := by
    intro mp hp
    rw [getFreefp_node hp hcell, hfpn]
    rfl
  exact ⟨_, h', ⟨_, h', []⟩, 0, _, _, hinit, ⟨[], .init rfl⟩, hget _ rfl⟩

/-- The entry reads as the arguments say exactly if they can be honoured. Of the frames
that are handed out all but the first one are accepted. -/
theorem init_pte_decodes (pte : BitVec 32) (args : PteArgs) :
    (args.Decoded (args.init pte).1 (args.init pte).2 ↔ args.Honoured pte) ∧
    (∀ fpn, Accepted pte fpn ↔ fpn ≠ 0) ∧
    ∀ M mp maxSize randomflg h, pagingPagesz ≤ maxSize → HandedOut M mp maxSize randomflg h 0 :=
  ⟨decoded_iff args pte, accepted_iff pte,
    fun M mp _ randomflg h => handedOut_zero M mp randomflg h⟩

theorem init_pte_decodes_seven :
    (pagingPteFpn (PteArgs.init ⟨1, 7, 0, 0, 0, 0⟩ 0).2).toNat = 7 ∧ Accepted 0 7 ∧
      HandedOut (.bump (0, none)) ⟨[], 0, 0, 0, .prior none⟩ 256 1 .empty 0 := by
  obtain ⟨hdec, hacc, hzero⟩ := init_pte_decodes 0 ⟨1, 7, 0, 0, 0, 0⟩
  refine ⟨(hdec.2 (.present rfl rfl (.inr (by decide)))).fpn rfl rfl, (hacc 7).2 (by decide), ?_⟩
  exact hzero _ _ 256 1 _ (by decide)

/-- Frame 0 is handed out and refused; a PRESENT bit that is to go and a DIRTY bit that is
to be set stay as they are. -/
theorem init_pte_decodes_refused :
    HandedOut (.bump (0, none)) ⟨[], 0, 0, 0, .prior none⟩ 256 1 .empty 0 ∧
    initPte 0 1 0 0 0 0 0 = (-1, 0) ∧
    ¬ PteArgs.Decoded ⟨1, 0, 0, 0, 0, 0⟩ (PteArgs.init ⟨1, 0, 0, 0, 0, 0⟩ 0).1
      (PteArgs.init ⟨1, 0, 0, 0, 0, 0⟩ 0).2 ∧
    ¬ PteArgs.Decoded ⟨0, 0, 0, 0, 0, 0⟩ (PteArgs.init ⟨0, 0, 0, 0, 0, 0⟩ pagingPtePresentMask).1
      (PteArgs.init ⟨0, 0, 0, 0, 0, 0⟩ pagingPtePresentMask).2 ∧
    ¬ PteArgs.Decoded ⟨1, 5, 1, 0, 0, 0⟩ (PteArgs.init ⟨1, 5, 1, 0, 0, 0⟩ 0).1
      (PteArgs.init ⟨1, 5, 1, 0, 0, 0⟩ 0).2 := by
  refine ⟨handedOut_zero _ _ _ _ (by decide), rfl, fun hdec => ?_, fun hdec => ?_, fun hdec => ?_⟩
  · exact absurd hdec.ret (by decide)
  · exact absurd hdec.present (by decide)
  · exact absurd (hdec.dirty rfl) (by decide)

end AssignmentOS.Mm
