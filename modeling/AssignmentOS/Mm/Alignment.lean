import AssignmentOS.Mm.Limit
import Mathlib.Order.Bounds.Basic

/-!
# Aligning the growth of an area

The two lengths that `inc_vma_limit` computes from the register of the call.
`PAGING_PAGE_ALIGNSZ` rounds an `int` up with a division towards zero: right for
sizes whose sum with a page is an `int` (`roundUp_isLeast`), 0 or less for the
sizes that the conversion makes negative (`roundUp_nonpos`).
-/

namespace AssignmentOS.Mm

open Fallible

-- ---------------------------------------------------------------------------
-- Rounding up
-- ---------------------------------------------------------------------------

section
variable {n d : Int}

theorem roundUp_isLeast (hd : 0 < d) (hn : 0 ≤ n) :
    IsLeast {m : Int | d ∣ m ∧ n ≤ m} ((n + d - 1).tdiv d * d) := by
  have hdiv : (n + d - 1).tdiv d = (n + d - 1) / d := Int.tdiv_eq_ediv_of_nonneg (by omega)
  rw [hdiv]
  constructor
  · have hlt : n + d - 1 < ((n + d - 1) / d + 1) * d := Int.lt_ediv_add_one_mul_self _ hd
    rw [Int.add_mul, Int.one_mul] at hlt
    exact ⟨Int.dvd_mul_left _ _, by omega⟩
  · rintro m ⟨⟨k, rfl⟩, hle⟩
    have hk : (n + d - 1) / d < k + 1 := by
      rw [Int.ediv_lt_iff_lt_mul hd, Int.add_mul, Int.one_mul, Int.mul_comm k]
      omega
    rw [Int.mul_comm d]
    exact Int.mul_le_mul_of_nonneg_right (Int.lt_add_one_iff.mp hk) (Int.le_of_lt hd)

theorem roundUp_nonpos (hd : 0 < d) (hn : n < 0) : (n + d - 1).tdiv d * d ≤ 0 := by
  apply Int.mul_nonpos_of_nonpos_of_nonneg _ (Int.le_of_lt hd)
  rcases Int.lt_or_le (n + d - 1) 0 with hneg | hpos
  · have hopp : 0 ≤ (-(n + d - 1)).tdiv d := Int.tdiv_nonneg (by omega) (Int.le_of_lt hd)
    rw [Int.neg_tdiv] at hopp
    exact Int.neg_nonneg.mp hopp
  · rw [Int.tdiv_eq_ediv_of_nonneg hpos, Int.ediv_eq_zero_of_lt hpos (by omega)]

end

-- ---------------------------------------------------------------------------
-- mm-vm.c
-- ---------------------------------------------------------------------------

/-- What `inc_vma_limit` computes first. -/
structure Growth where
  incAmt : Int
  incnumpage : Int

def growth (incSz : Int) : Option Growth := do
  let incAmt ← pagingPageAlignsz incSz
  some ⟨incAmt, incAmt.tdiv pagingPagesz⟩

/-- An overflow stops the call; otherwise what it maps is `incnumpage` pages. -/
theorem incVmaLimit_growth (env : Env) (caller : PcbDevices) (vmaid incSz : Int) (s : MmState) :
    (growth incSz = none → incVmaLimit env caller vmaid incSz s = .error .overflow) ∧
    ∀ ret s', incVmaLimit env caller vmaid incSz s = .ok (ret, s') →
      ∃ g mapstart s₁, growth incSz = some g ∧
        vmMapRam env caller mapstart g.incnumpage s₁ = .ok (ret, s') := by
  constructor
  · intro hnone
    have halign : pagingPageAlignsz incSz = none := by
      cases h : pagingPageAlignsz incSz with
      | none => rfl
      | some incAmt => simp [growth, h] at hnone
    simp [incVmaLimit, halign]
  · intro ret s' h
    have hret := incVmaLimit_ok h
    subst hret
    simp only [incVmaLimit, validateOverlapVmArea, Int.lt_irrefl, if_false, bind_eq_ok,
      need_eq_ok] at h
    obtain ⟨incAmt, halign, _, -, vma, -, _, -, ⟨ret, s''⟩, hmap, h⟩ := h
    have hret : ret = 0 := by
      rw [vmMapRam_eq] at hmap
      obtain ⟨_, -, hmap⟩ := bind_eq_ok.mp hmap
      cases hmap
      rfl
    subst hret
    cases h
    exact ⟨⟨incAmt, incAmt.tdiv pagingPagesz⟩, _, _, by simp [growth, halign], hmap⟩

theorem cint_eq_some (hlo : -0x80000000 ≤ x) (hhi : x < 0x80000000) : cint x = some x :=
  if_pos ⟨hlo, hhi⟩

theorem cint_lt (h : cint x = some y) : y < 0x80000000 := by
  unfold cint at h
  split at h
  · rename_i hint
    cases h
    exact hint.2
  · cases h

/-- Only the addition of `PAGING_PAGE_ALIGNSZ` can overflow. -/
theorem pagingPageAlignsz_checked (hlo : -0x80000000 ≤ sz) :
    pagingPageAlignsz sz = (do
      let sum ← cint (sz + pagingPagesz)
      let pred ← cint (sum - 1)
      cint (pred.tdiv pagingPagesz * pagingPagesz)) := by
  unfold pagingPageAlignsz
  cases hsum : cint (sz + pagingPagesz) with
  | none => rfl
  | some sum =>
    have hlt := cint_lt hsum
    have heq := cint_some hsum
    simp only [pagingPagesz] at heq ⊢
    have hpred : cint (sum - 1) = some (sum - 1) := cint_eq_some (by omega) (by omega)
    -- the product is `sum - 1` without its remainder, which has the sign of `sum - 1`
    have hdiv := Int.tdiv_mul_add_tmod (sum - 1) 256
    have hup : (sum - 1).tmod 256 < 256 := Int.tmod_lt_of_pos _ (by decide)
    have hdown : -256 < (sum - 1).tmod 256 := Int.lt_tmod_of_pos _ (by decide)
    have hsign : 0 ≤ sum - 1 → 0 ≤ (sum - 1).tmod 256 := Int.tmod_nonneg 256
    have hprod : cint ((sum - 1).tdiv 256 * 256) = some ((sum - 1).tdiv 256 * 256) :=
      cint_eq_some (by omega) (by omega)
    simp [hpred, hprod]

-- ---------------------------------------------------------------------------
-- Growth of the requested size
-- ---------------------------------------------------------------------------

/-- The lengths are computed without an overflow, and are those of the least number of pages that
the size fits in. -/
def Aligned (size : UInt32) : Prop :=
  ∃ g, growth (asInt size) = some g ∧
    IsLeast {m : Int | pagingPagesz ∣ m ∧ (size.toNat : Int) ≤ m} g.incAmt ∧
    g.incnumpage * pagingPagesz = g.incAmt ∧ (g.incnumpage = 0 → size = 0)

/-- `SYSMEM_INC_OP` of this size ends with an error, in the call or in `inc_vma_limit`. -/
def IncRejected (env : Env) (caller : PcbDevices) (vmaid size : UInt32) (s : MmState) : Prop :=
  (∃ ret s', incVmaLimit env caller (asInt vmaid) (asInt size) s = .ok (ret, s') ∧ ret ≠ 0) ∨
    ∃ ret regs s', memmapCall env caller ⟨2, vmaid, size⟩ s = .ok (ret, regs, s') ∧ ret ≠ 0

theorem not_incRejected (env : Env) (caller : PcbDevices) (vmaid size : UInt32) (s : MmState) :
    ¬ IncRejected env caller vmaid size s := by
  rintro (⟨ret, s', hinc, hne⟩ | ⟨ret, regs, s', hcall, hne⟩)
  · exact hne (incVmaLimit_ok hinc)
  · exact hne (memmapCall_ok hcall)

theorem growth_some (h : growth sz = some g) :
    sz + pagingPagesz < 0x80000000 ∧
      g.incAmt = (sz + pagingPagesz - 1).tdiv pagingPagesz * pagingPagesz ∧
      g.incnumpage = (sz + pagingPagesz - 1).tdiv pagingPagesz := by
  simp only [growth, pagingPageAlignsz, Option.bind_eq_bind, Option.bind_eq_some_iff] at h
  obtain ⟨incAmt, ⟨sum, hsum, hamt⟩, hg⟩ := h
  have heq := cint_some hsum
  subst heq
  cases hamt
  cases hg
  exact ⟨cint_lt hsum, rfl, Int.mul_tdiv_cancel _ (by decide)⟩

theorem growth_eq_some {sz : Int} (hlo : 0 ≤ sz) (hhi : sz + pagingPagesz < 0x80000000) :
    ∃ g, growth sz = some g := by
  have hsum : cint (sz + pagingPagesz) = some (sz + pagingPagesz) :=
    cint_eq_some (by simp only [pagingPagesz]; omega) hhi
  exact ⟨_, by simp [growth, pagingPageAlignsz, hsum]; rfl⟩

theorem aligned_of_lt (h : size.toNat + pagingPagesz < 0x80000000) : Aligned size := by
  have hint : asInt size = size.toNat := by
    rw [asInt_eq, if_pos]
    simp only [pagingPagesz] at h
    omega
  have hpos : 0 ≤ asInt size := by
    rw [hint]
    exact Int.natCast_nonneg _
  have hsum : asInt size + pagingPagesz < 0x80000000 := by
    simp only [hint]
    exact h
  obtain ⟨g, hg⟩ := growth_eq_some hpos hsum
  obtain ⟨-, hamt, hnum⟩ := growth_some hg
  have hleast := roundUp_isLeast (d := pagingPagesz) (by decide) (Int.natCast_nonneg size.toNat)
  rw [← hint, ← hamt] at hleast
  refine ⟨g, hg, ?_, ?_, ?_⟩
  · rw [← hint]
    exact hleast
  · rw [hnum, hamt]
  · intro hzero
    have hsize := hleast.1.2
    rw [hamt, ← hnum, hzero, hint] at hsize
    apply UInt32.toNat_inj.mp
    simpa using hsize

theorem aligned_lt (h : Aligned size) : size.toNat + pagingPagesz < 0x80000000 := by
  obtain ⟨g, hg, hleast, -, -⟩ := h
  obtain ⟨hsum, hamt, -⟩ := growth_some hg
  have hsize := hleast.1.2
  rw [asInt_eq] at hsum hamt
  split at hsum
  · exact hsum
  · -- the `int` is negative, so the rounded length is not above 0
    rename_i hbig
    rw [if_neg hbig] at hamt
    have hneg : (size.toNat : Int) - 0x100000000 < 0 := by
      have := size.toNat_lt
      omega
    have hle := roundUp_nonpos (d := pagingPagesz) (by decide) hneg
    rw [← hamt] at hle
    omega

theorem inc_aligned_iff (env : Env) (caller : PcbDevices) (vmaid size : UInt32) (s : MmState) :
    IncRejected env caller vmaid size s ∨ Aligned size ↔
      size.toNat + pagingPagesz < 0x80000000 := by
  constructor
  · rintro (hrej | halign)
    · exact absurd hrej (not_incRejected env caller vmaid size s)
    · exact aligned_lt halign
  · intro h
    exact .inr (aligned_of_lt h)

/-- A request of almost 4 GiB is granted without a page. -/
theorem inc_aligned_negative :
    growth (asInt 0xFFFFFF00) = some ⟨0, 0⟩ ∧
      (∃ s', incVmaLimit (.filled 0) ⟨some 0, some 1⟩ (asInt 0) (asInt 0xFFFFFF00)
        (.started (blank 256) .empty) = .ok (0, s')) ∧
      ¬ (IncRejected (.filled 0) ⟨some 0, some 1⟩ 0 0xFFFFFF00 (.started (blank 256) .empty) ∨
        Aligned 0xFFFFFF00) := by
  refine ⟨rfl, ⟨_, rfl⟩, ?_⟩
  rintro (hrej | halign)
  · exact not_incRejected _ _ _ _ _ hrej
  · exact absurd (aligned_lt halign) (by decide)

/-- The largest `int` overflows the addition. -/
example : growth (asInt 0x7FFFFFFF) = none := rfl

end AssignmentOS.Mm
