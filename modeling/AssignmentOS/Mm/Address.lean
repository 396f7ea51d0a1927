import AssignmentOS.Mm.Page

/-!
# Virtual addresses

How `mm.h` splits an address into page and offset. The positions of the two
fields are computed from the page size by the `NBITS` macros, which find the
highest bit of their operand by halves.
-/

namespace AssignmentOS.Mm

open BitField Fallible

-- ---------------------------------------------------------------------------
-- bitops.h
-- ---------------------------------------------------------------------------

def divRoundUp (n d : Nat) : Nat := (n + d - 1) / d

def nbits2 (n : Nat) : Nat := if n &&& 2 ≠ 0 then 1 else 0
def nbits4 (n : Nat) : Nat := if n &&& 0xC ≠ 0 then 2 + nbits2 (n >>> 2) else nbits2 n
def nbits8 (n : Nat) : Nat := if n &&& 0xF0 ≠ 0 then 4 + nbits4 (n >>> 4) else nbits4 n
def nbits16 (n : Nat) : Nat := if n &&& 0xFF00 ≠ 0 then 8 + nbits8 (n >>> 8) else nbits8 n
def nbits32 (n : Nat) : Nat := if n &&& 0xFFFF0000 ≠ 0 then 16 + nbits16 (n >>> 16) else nbits16 n

def nbits (n : Nat) : Nat := if n = 0 then 0 else nbits32 n

theorem nbits2_eq (n : Nat) (hn : n < 2 ^ 2) : nbits2 n = n.log2 := by
  have hone : ∀ m, m < 2 ^ 1 → 0 = m.log2 := by
    intro m hm
    rw [Nat.log2_def, if_neg (show ¬ 2 ≤ m from Nat.not_le.mpr hm)]
  exact log2_halves (k := 1) (f := fun _ => 0) hone hn

theorem nbits4_eq (n : Nat) (hn : n < 2 ^ 4) :
    nbits4 n = n.log2 := log2_halves (k := 2) nbits2_eq hn

theorem nbits8_eq (n : Nat) (hn : n < 2 ^ 8) :
    nbits8 n = n.log2 := log2_halves (k := 4) nbits4_eq hn

theorem nbits16_eq (n : Nat) (hn : n < 2 ^ 16) :
    nbits16 n = n.log2 := log2_halves (k := 8) nbits8_eq hn

theorem nbits32_eq (n : Nat) (hn : n < 2 ^ 32) :
    nbits32 n = n.log2 := log2_halves (k := 16) nbits16_eq hn

/-- `NBITS` of a 32-bit number is the position of its highest bit. -/
theorem nbits_eq (n : Nat) (hn : n < 2 ^ 32) : nbits n = n.log2 := by
  unfold nbits
  split
  · rename_i h0
    rw [h0, Nat.log2_zero]
  · exact nbits32_eq n hn

-- ---------------------------------------------------------------------------
-- mm.h
-- ---------------------------------------------------------------------------

def pagingCpuBusWidth : Nat := 22

def pagingAddrOffstLobit : Nat := 0
def pagingAddrOffstHibit : Nat := nbits pagingPagesz.toNat - 1

def pagingOffstMask : BitVec 32 := genMask pagingAddrOffstHibit pagingAddrOffstLobit

/-- `PAGING_OFFST` of an `int`. -/
def pagingOffst (addr : Int) : Int :=
  (getVal (.ofInt 32 addr) pagingOffstMask pagingAddrOffstLobit).toNat

theorem nbits_pagesz : nbits pagingPagesz.toNat = 8 := rfl

theorem pagingAddrPgnLobit_eq : pagingAddrPgnLobit = nbits pagingPagesz.toNat := rfl

theorem pagingAddrPgnHibit_eq : pagingAddrPgnHibit = pagingCpuBusWidth - 1 := rfl

theorem pagingMaxPgn_eq :
    pagingMaxPgn = divRoundUp (bit pagingCpuBusWidth).toNat pagingPagesz.toNat := rfl

-- ---------------------------------------------------------------------------
-- Page and offset
-- ---------------------------------------------------------------------------

theorem pagingPgn_toInt (a : BitVec 32) :
    pagingPgn a.toInt = ((a.toNat / 256 % 16384 : Nat) : Int) := by
  have hfield := toNat_get (h := pagingAddrPgnHibit) (l := pagingAddrPgnLobit)
    (by decide) (by decide) a
  rw [pagingPgn, BitVec.ofInt_toInt, getVal_eq, pagingPgnMask, genMask_eq]
  exact congrArg _ hfield

theorem pagingOffst_toInt (a : BitVec 32) :
    pagingOffst a.toInt = ((a.toNat % 256 : Nat) : Int) := by
  have hfield := toNat_get (h := pagingAddrOffstHibit) (l := pagingAddrOffstLobit)
    (by decide) (by decide) a
  rw [pagingOffst, BitVec.ofInt_toInt, getVal_eq, pagingOffstMask, genMask_eq, hfield]
  exact congrArg (fun n : Nat => ((n % 256 : Nat) : Int)) (Nat.div_one _)

theorem pagingPgn_nonneg (addr : Int) : 0 ≤ pagingPgn addr := Int.natCast_nonneg _

theorem pagingPgn_lt (addr : Int) : pagingPgn addr < pagingMaxPgn := by
  have hcast : pagingPgn addr = pagingPgn (BitVec.ofInt 32 addr).toInt := by
    rw [pagingPgn, pagingPgn, BitVec.ofInt_toInt]
  rw [hcast, pagingPgn_toInt, pagingMaxPgn]
  omega

theorem pte_pagingPgn (mm : MmStruct) (addr : Int) : ∃ pte, mm.pte (pagingPgn addr) = some pte := by
  have hlt := pagingPgn_lt addr
  have hidx : (pagingPgn addr).toNat < pagingMaxPgn := by
    have h0 := pagingPgn_nonneg addr
    omega
  exact ⟨mm.pgd[(pagingPgn addr).toNat], by simp [MmStruct.pte, pagingPgn_nonneg, hidx]⟩

theorem pgAccess_inTable (env : Env) (caller : PcbDevices) (addr : Int) (s : MmState) :
    pgAccess env caller addr s ≠ .error .pgd := by
  have hfails : FailsOnly (· = .pointer) (pgAccess env caller addr s) := by
    obtain ⟨pte, hpte⟩ := pte_pagingPgn s.mm addr
    refine failsOnly_bind ?_ fun _ _ => failsOnly_ok _ _
    rw [pgGetpage, hpte, need_some, ok_bind]
    by_cases hp : pagingPagePresent pte = 0
    · rw [if_pos hp]
      refine failsOnly_bind (pgMiss_fails env caller _ s) fun s₁ hmiss => ?_
      rw [MmStruct.pte_congr (pgMiss_pgd hmiss), hpte]
      exact failsOnly_ok _ _
    · rw [if_neg hp, ok_bind, hpte]
      exact failsOnly_ok _ _
  intro hpgd
  cases hfails _ hpgd

theorem page_offset (a : BitVec 32) :
    pagingPgn a.toInt * pagingPagesz + pagingOffst a.toInt = ((a.toNat % 2 ^ 22 : Nat) : Int) := by
  rw [pagingPgn_toInt, pagingOffst_toInt, pagingPagesz]
  omega

theorem same_page_offset_iff (a b : BitVec 32) :
    pagingPgn a.toInt = pagingPgn b.toInt ∧ pagingOffst a.toInt = pagingOffst b.toInt ↔
      a.toNat % 2 ^ 22 = b.toNat % 2 ^ 22 := by
  constructor
  · rintro ⟨hpgn, hoffst⟩
    have ha := page_offset a
    rw [hpgn, hoffst, page_offset b] at ha
    exact (Int.natCast_inj.mp ha).symm
  · rw [pagingPgn_toInt, pagingPgn_toInt, pagingOffst_toInt, pagingOffst_toInt]
    omega

/-- The page of byte `i` of a run that does not reach the end of the address space. -/
theorem pagingPgn_add (hi : a.toNat + i < 2 ^ 22) :
    pagingPgn (a + BitVec.ofNat 32 i).toInt = (((a.toNat + i) / 256 : Nat) : Int) := by
  have hsum : (a + BitVec.ofNat 32 i).toNat = a.toNat + i := by
    rw [BitVec.toNat_add, BitVec.toNat_ofNat]
    omega
  rw [pagingPgn_toInt, hsum]
  omega

theorem run_pages (a : BitVec 32) (h0 : 0 < n) (hn : a.toNat + n ≤ 2 ^ 22) (pgn : Int) :
    (∃ i < n, pagingPgn (a + BitVec.ofNat 32 i).toInt = pgn) ↔
      pagingPgn a.toInt ≤ pgn ∧ pgn ≤ pagingPgn (a + BitVec.ofNat 32 (n - 1)).toInt := by
  have hfirst : pagingPgn a.toInt = ((a.toNat / 256 : Nat) : Int) := by
    rw [pagingPgn_toInt]
    omega
  rw [hfirst, pagingPgn_add (i := n - 1) (by omega)]
  constructor
  · rintro ⟨i, hi, rfl⟩
    rw [pagingPgn_add (by omega)]
    constructor
    · exact Int.ofNat_le.mpr (Nat.div_le_div_right (Nat.le_add_right _ _))
    · exact Int.ofNat_le.mpr (Nat.div_le_div_right (by omega))
  · rintro ⟨hlo, hhi⟩
    -- its first byte on that page is byte 0 of the run or the first one of the page
    have hbyte : 256 * pgn.toNat - a.toNat < n := by omega
    refine ⟨256 * pgn.toNat - a.toNat, hbyte, ?_⟩
    rw [pagingPgn_add (by omega)]
    omega

/-- An address is its page and its offset, up to the width of the bus. -/
theorem address_split (a : BitVec 32) :
    pagingPgn a.toInt < pagingMaxPgn ∧
    (∀ env caller data s, pgGetval env caller a.toInt data s ≠ .error .pgd ∧
      pgSetval env caller a.toInt data s ≠ .error .pgd) ∧
    pagingOffst a.toInt < pagingPagesz ∧
    pagingPgn a.toInt * pagingPagesz + pagingOffst a.toInt = ((a.toNat % 2 ^ 22 : Nat) : Int) ∧
    (∀ b : BitVec 32, pagingPgn a.toInt = pagingPgn b.toInt ∧
      pagingOffst a.toInt = pagingOffst b.toInt ↔ a.toNat % 2 ^ 22 = b.toNat % 2 ^ 22) ∧
    ∀ n, 0 < n → a.toNat + n ≤ 2 ^ 22 → ∀ pgn : Int,
      (∃ i < n, pagingPgn (a + BitVec.ofNat 32 i).toInt = pgn) ↔
        pagingPgn a.toInt ≤ pgn ∧ pgn ≤ pagingPgn (a + BitVec.ofNat 32 (n - 1)).toInt := by
  have hoffst : pagingOffst a.toInt < pagingPagesz := by
    rw [pagingOffst_toInt, pagingPagesz]
    omega
  refine ⟨pagingPgn_lt _, fun env caller _ s => ?_, hoffst, page_offset a,
    same_page_offset_iff a, ?_⟩
  · exact ⟨pgAccess_inTable env caller _ s, pgAccess_inTable env caller _ s⟩
  · exact fun n h0 hn => run_pages a h0 hn

theorem address_split_two :
    0 < 12 ∧ (250#32).toNat + 12 ≤ 2 ^ 22 ∧
      ∃ i < 12, pagingPgn (250#32 + BitVec.ofNat 32 i).toInt = 1 := by
  refine ⟨by decide, by decide, ?_⟩
  exact ((address_split 250#32).2.2.2.2.2 12 (by decide) (by decide) 1).2 ⟨by decide, by decide⟩

-- the last byte of the last page
example : pagingPgn (-1) = 16383 ∧ pagingOffst (-1) = 255 := by decide

end AssignmentOS.Mm
