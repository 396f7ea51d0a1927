import AssignmentOS.Lib.BitField

/-!
# Page-table entries

The macros of `bitops.h` and `mm.h` on `uint32_t` words, and the two functions
that write an entry. `SETVAL` and `GETVAL` obey the laws of fields at every bit
range (`setVal_laws`). The frame number shares its bits with the swap type and
part of the swap offset, so an entry means what the last write made it mean
(`pte_last_write_wins`).
-/

namespace AssignmentOS.Mm

-- ---------------------------------------------------------------------------
-- bitops.h
-- ---------------------------------------------------------------------------

def bitsPerLong : Nat := 32

def bit (nr : Nat) : BitVec 32 := 1#32 <<< nr

def genMask (h l : Nat) : BitVec 32 := (~~~0#32 <<< l) &&& (~~~0#32 >>> (bitsPerLong - h - 1))

theorem genMask_eq (h l : Nat) : genMask h l = BitField.mask 32 h l := rfl

theorem getLsbD_bit (hn : nr < 32) (i : Nat) : (bit nr).getLsbD i = decide (i = nr) := by
  rw [bit, BitVec.shiftLeft_eq_mul_twoPow, BitVec.one_mul, BitVec.getLsbD_twoPow]
  simp [hn, eq_comm]

-- ---------------------------------------------------------------------------
-- mm.h
-- ---------------------------------------------------------------------------

def setBit (v mask : BitVec 32) : BitVec 32 := v ||| mask

def clrBit (v mask : BitVec 32) : BitVec 32 := v &&& ~~~mask

/-- `SETVAL`. An `int` value is converted before the shift, which is the same
where the shift of the `int` is defined. -/
def setVal (v value mask : BitVec 32) (offst : Nat) : BitVec 32 :=
  (v &&& ~~~mask) ||| ((value <<< offst) &&& mask)

def getVal (v mask : BitVec 32) (offst : Nat) : BitVec 32 := (v &&& mask) >>> offst

theorem setVal_eq (v value mask : BitVec 32) (offst : Nat) :
    setVal v value mask offst = BitField.set v value mask offst := rfl

theorem getVal_eq (v mask : BitVec 32) (offst : Nat) :
    getVal v mask offst = BitField.get v mask offst := rfl

def pagingPtePresentMask : BitVec 32 := bit 31
def pagingPteSwappedMask : BitVec 32 := bit 30

def pagingPteFpnLobit : Nat := 0
def pagingPteFpnHibit : Nat := 12
def pagingPteSwptypLobit : Nat := 0
def pagingPteSwptypHibit : Nat := 4
def pagingPteSwpoffLobit : Nat := 5
def pagingPteSwpoffHibit : Nat := 25
def pagingSwpfpnOffset : Nat := 5

def pagingPteFpnMask : BitVec 32 := genMask pagingPteFpnHibit pagingPteFpnLobit
def pagingPteSwptypMask : BitVec 32 := genMask pagingPteSwptypHibit pagingPteSwptypLobit
def pagingPteSwpoffMask : BitVec 32 := genMask pagingPteSwpoffHibit pagingPteSwpoffLobit

def pagingPagePresent (pte : BitVec 32) : BitVec 32 := pte &&& pagingPtePresentMask

def pagingPteFpn (pte : BitVec 32) : BitVec 32 := getVal pte pagingPteFpnMask pagingPteFpnLobit

def pagingPteSwp (pte : BitVec 32) : BitVec 32 := getVal pte pagingPteSwpoffMask pagingSwpfpnOffset

-- ---------------------------------------------------------------------------
-- mm.c
-- ---------------------------------------------------------------------------

/-- `pte_set_fpn`: the return value and the entry. -/
def pteSetFpn (pte : BitVec 32) (fpn : Int) : Int × BitVec 32 :=
  let pte := setBit pte pagingPtePresentMask
  let pte := clrBit pte pagingPteSwappedMask
  let pte := setVal pte (.ofInt 32 fpn) pagingPteFpnMask pagingPteFpnLobit
  (0, pte)

/-- `pte_set_swap`: the return value and the entry. -/
def pteSetSwap (pte : BitVec 32) (swptyp swpoff : Int) : Int × BitVec 32 :=
  let pte := setBit pte pagingPtePresentMask
  let pte := setBit pte pagingPteSwappedMask
  let pte := setVal pte (.ofInt 32 swptyp) pagingPteSwptypMask pagingPteSwptypLobit
  let pte := setVal pte (.ofInt 32 swpoff) pagingPteSwpoffMask pagingPteSwpoffLobit
  (0, pte)

-- ---------------------------------------------------------------------------
-- The bits an operation writes
-- ---------------------------------------------------------------------------

theorem getLsbD_setBit (hn : nr < 32) (v : BitVec 32) (i : Nat) :
    (setBit v (bit nr)).getLsbD i = (v.getLsbD i || decide (i = nr)) := by
  rw [setBit, BitVec.getLsbD_or, getLsbD_bit hn]

theorem getLsbD_clrBit (hn : nr < 32) (v : BitVec 32) (i : Nat) :
    (clrBit v (bit nr)).getLsbD i = (v.getLsbD i && !decide (i = nr)) := by
  rw [clrBit, BitVec.getLsbD_and, BitVec.getLsbD_not, getLsbD_bit hn]
  cases hv : v.getLsbD i with
  | true =>
    have hi : i < 32 := BitVec.lt_of_getLsbD hv
    simp [hi]
  | false => simp

theorem getLsbD_setVal_of_not_mem (hh : h < 32) (v value : BitVec 32) (offst : Nat)
    (hi : i < l ∨ h < i) :
    (setVal v value (genMask h l) offst).getLsbD i = v.getLsbD i := by
  rw [setVal_eq, genMask_eq, BitField.getLsbD_set, BitField.getLsbD_mask hh, if_neg]
  simp only [Bool.and_eq_true, decide_eq_true_eq]
  omega

theorem and_bit_ne_zero (hn : nr < 32) (v : BitVec 32) :
    v &&& bit nr ≠ 0 ↔ v.getLsbD nr = true := by
  constructor
  · intro hne
    by_contra hv
    apply hne
    apply BitVec.eq_of_getLsbD_eq
    intro i _
    rw [BitVec.getLsbD_and, getLsbD_bit hn]
    by_cases hi : i = nr
    · subst hi
      simp [hv]
    · simp [hi]
  · intro hv hz
    have hbit : (v &&& bit nr).getLsbD nr = true := by
      rw [BitVec.getLsbD_and, getLsbD_bit hn]; simp [hv]
    rw [hz] at hbit
    simp at hbit

-- ---------------------------------------------------------------------------
-- The laws of fields
-- ---------------------------------------------------------------------------

theorem disjoint_genMask (hh : h ≤ 31) (hh' : h' ≤ 31) (hd : h < l' ∨ h' < l) :
    BitField.Disjoint (genMask h l) (genMask h' l') := by
  rw [genMask_eq, genMask_eq]
  exact BitField.disjoint_mask (Nat.lt_succ_of_le hh) (Nat.lt_succ_of_le hh') hd

/-- What `SETVAL` and `GETVAL` promise each other, for a field and every other field of the word. -/
theorem setVal_laws (hl : l ≤ h) (hh : h ≤ 31) :
    (∀ i, (genMask h l).getLsbD i = true ↔ l ≤ i ∧ i ≤ h) ∧
    (∀ v x, (getVal (setVal v x (genMask h l) l) (genMask h l) l).toNat =
      x.toNat % 2 ^ (h - l + 1)) ∧
    (∀ h' l', l' ≤ h' → h' ≤ 31 → (h < l' ∨ h' < l) → ∀ v x,
      getVal (setVal v x (genMask h l) l) (genMask h' l') l' = getVal v (genMask h' l') l') ∧
    (∀ h' l', l' ≤ h' → h' ≤ 31 → (h < l' ∨ h' < l) → ∀ v x x',
      setVal (setVal v x (genMask h l) l) x' (genMask h' l') l' =
        setVal (setVal v x' (genMask h' l') l') x (genMask h l) l) ∧
    (∀ v x x', setVal (setVal v x (genMask h l) l) x' (genMask h l) l =
      setVal v x' (genMask h l) l) := by
  have hlt : h < 32 := Nat.lt_succ_of_le hh
  refine ⟨?_, ?_, ?_, ?_, ?_⟩
  · intro i
    rw [genMask_eq, BitField.getLsbD_mask hlt, Bool.and_eq_true, decide_eq_true_eq,
      decide_eq_true_eq]
  · intro v x
    rw [setVal_eq, getVal_eq, genMask_eq]
    exact BitField.get_set hl hlt v x
  · intro h' l' _ hh' hd v x
    exact BitField.get_set_of_disjoint (disjoint_genMask hh hh' hd) v x l l'
  · intro h' l' _ hh' hd v x x'
    exact BitField.set_comm_of_disjoint (disjoint_genMask hh hh' hd) v x x' l l'
  · intro v x x'
    exact BitField.set_set v x x' (genMask h l) l

theorem setVal_laws_ends :
    ((genMask 31 31).getLsbD 31 = true ↔ 31 ≤ 31 ∧ 31 ≤ 31) ∧
    ((genMask 31 0).getLsbD 31 = true ↔ 0 ≤ 31 ∧ 31 ≤ 31) ∧
    ∀ v x, getVal (setVal v x (genMask 31 31) 31) (genMask 30 0) 0 = getVal v (genMask 30 0) 0 :=
  ⟨(setVal_laws (h := 31) (l := 31) (by decide) (by decide)).1 31,
    (setVal_laws (h := 31) (l := 0) (by decide) (by decide)).1 31,
    (setVal_laws (h := 31) (l := 31) (by decide) (by decide)).2.2.1 30 0 (by decide) (by decide)
      (.inr (by decide))⟩

-- ---------------------------------------------------------------------------
-- Sequences of writes
-- ---------------------------------------------------------------------------

/-- A write of an entry with arguments that fit: a frame of a RAM of at most
2^21 bytes, a swap type, and a frame of a swap of at most 2^29 bytes. -/
inductive PteOp
  | setFpn (fpn : Fin (2 ^ 13))
  | setSwap (swptyp : Fin (2 ^ 5)) (swpoff : Fin (2 ^ 21))

def PteOp.apply (pte : BitVec 32) : PteOp → BitVec 32
  | .setFpn fpn => (pteSetFpn pte fpn.val).2
  | .setSwap swptyp swpoff => (pteSetSwap pte swptyp.val swpoff.val).2

def PteOp.run (pte : BitVec 32) (ops : List PteOp) : BitVec 32 := ops.foldl PteOp.apply pte

def PteOp.Decoded (pte : BitVec 32) : PteOp → Prop
  | .setFpn fpn =>
    pagingPagePresent pte ≠ 0 ∧ pte &&& pagingPteSwappedMask = 0 ∧ (pagingPteFpn pte).toNat = fpn
  | .setSwap swptyp swpoff =>
    pagingPagePresent pte ≠ 0 ∧ pte &&& pagingPteSwappedMask ≠ 0 ∧
      (pagingPteSwp pte).toNat = swpoff ∧
      (getVal pte pagingPteSwptypMask pagingPteSwptypLobit).toNat = swptyp

theorem getVal_setVal_mod (hl : l ≤ h) (hh : h < 32) (v : BitVec 32) (k : Int) :
    ((getVal (setVal v (.ofInt 32 k) (genMask h l) l) (genMask h l) l).toNat : Int) =
      k % ((2 ^ (h - l + 1) : Nat) : Int) := by
  have hdvd : 2 ^ (h - l + 1) ∣ 2 ^ 32 := Nat.pow_dvd_pow 2 (by omega)
  have hpos : (0 : Int) ≤ k % ((2 ^ 32 : Nat) : Int) := Int.emod_nonneg _ (by decide)
  rw [setVal_eq, getVal_eq, genMask_eq, BitField.get_set hl hh, BitVec.toNat_ofInt, Int.natCast_mod,
    Int.toNat_of_nonneg hpos, Int.emod_emod_of_dvd _ (Int.natCast_dvd_natCast.mpr hdvd)]

theorem toNat_ofInt_of_lt {k : Nat} (h : k < 2 ^ 32) : (BitVec.ofInt 32 k).toNat = k := by
  rw [BitVec.ofInt_natCast, BitVec.toNat_ofNat, Nat.mod_eq_of_lt h]

theorem getVal_setVal (hl : l ≤ h) (hh : h < 32) (v : BitVec 32) (k : Fin (2 ^ (h - l + 1))) :
    (getVal (setVal v (.ofInt 32 k.val) (genMask h l) l) (genMask h l) l).toNat = k := by
  have hk : k.val < 2 ^ 32 :=
    Nat.lt_of_lt_of_le k.isLt (Nat.pow_le_pow_right Nat.two_pos (by omega))
  rw [setVal_eq, getVal_eq, genMask_eq, BitField.get_set_of_lt hl hh, toNat_ofInt_of_lt hk]
  rw [toNat_ofInt_of_lt hk]
  exact k.isLt

theorem present_iff (pte : BitVec 32) : pagingPagePresent pte ≠ 0 ↔ pte.getLsbD 31 = true :=
  and_bit_ne_zero (by decide) pte

theorem swapped_iff (pte : BitVec 32) : pte &&& pagingPteSwappedMask ≠ 0 ↔ pte.getLsbD 30 = true :=
  and_bit_ne_zero (by decide) pte

theorem pteSetFpn_bits (pte : BitVec 32) (fpn : Int) (hi : 12 < i) :
    (pteSetFpn pte fpn).2.getLsbD i = ((pte.getLsbD i || decide (i = 31)) && !decide (i = 30)) := by
  simp only [pteSetFpn, pagingPteFpnMask, pagingPteFpnHibit]
  rw [getLsbD_setVal_of_not_mem (by decide) _ _ _ (.inr hi), pagingPteSwappedMask,
    getLsbD_clrBit (by decide), pagingPtePresentMask, getLsbD_setBit (by decide)]

theorem pteSetSwap_bits (pte : BitVec 32) (swptyp swpoff : Int) (hi : 25 < i) :
    (pteSetSwap pte swptyp swpoff).2.getLsbD i =
      ((pte.getLsbD i || decide (i = 31)) || decide (i = 30)) := by
  simp only [pteSetSwap, pagingPteSwptypMask, pagingPteSwptypHibit, pagingPteSwpoffMask,
    pagingPteSwpoffHibit]
  rw [getLsbD_setVal_of_not_mem (by decide) _ _ _ (.inr hi),
    getLsbD_setVal_of_not_mem (by decide) _ _ _ (.inr (Nat.lt_trans (by decide) hi)),
    pagingPteSwappedMask, getLsbD_setBit (by decide), pagingPtePresentMask,
      getLsbD_setBit (by decide)]

theorem pteSetFpn_fpn (pte : BitVec 32) (fpn : Fin (2 ^ 13)) :
    (pagingPteFpn (pteSetFpn pte fpn.val).2).toNat = fpn :=
  getVal_setVal (h := 12) (l := 0) (by decide) (by decide) _ fpn

theorem pteSetSwap_swpoff (pte : BitVec 32) (swptyp : Int) (swpoff : Fin (2 ^ 21)) :
    (pagingPteSwp (pteSetSwap pte swptyp swpoff.val).2).toNat = swpoff :=
  getVal_setVal (h := 25) (l := 5) (by decide) (by decide) _ swpoff

/-- The write of the offset does not touch the type written before it. -/
theorem pteSetSwap_swptyp (pte : BitVec 32) (swptyp : Fin (2 ^ 5)) (swpoff : Int) :
    (getVal (pteSetSwap pte swptyp.val swpoff).2 pagingPteSwptypMask pagingPteSwptypLobit).toNat =
      swptyp := by
  have hd : BitField.Disjoint (BitField.mask 32 25 5) (BitField.mask 32 4 0) :=
    BitField.disjoint_mask (by decide) (by decide) (.inr (by decide))
  have htyp := fun v => getVal_setVal (h := 4) (l := 0) (by decide) (by decide) v swptyp
  simp only [pteSetSwap, pagingPteSwptypMask, pagingPteSwpoffMask, genMask_eq, setVal_eq, getVal_eq,
    pagingPteSwpoffHibit, pagingPteSwpoffLobit, pagingPteSwptypHibit,
      pagingPteSwptypLobit] at htyp ⊢
  rw [BitField.get_set_of_disjoint hd]
  exact htyp _

theorem apply_decoded (pte : BitVec 32) (op : PteOp) : op.Decoded (op.apply pte) := by
  cases op with
  | setFpn fpn =>
    simp only [PteOp.Decoded, PteOp.apply]
    refine ⟨?_, ?_, pteSetFpn_fpn pte fpn⟩
    · rw [present_iff, pteSetFpn_bits pte fpn.val (by decide)]
      simp
    · rw [← not_ne_iff, swapped_iff, pteSetFpn_bits pte fpn.val (by decide)]
      simp
  | setSwap swptyp swpoff =>
    simp only [PteOp.Decoded, PteOp.apply]
    refine ⟨?_, ?_, pteSetSwap_swpoff pte swptyp.val swpoff,
      pteSetSwap_swptyp pte swptyp swpoff.val⟩
    · rw [present_iff, pteSetSwap_bits pte swptyp.val swpoff.val (by decide)]
      simp
    · rw [swapped_iff, pteSetSwap_bits pte swptyp.val swpoff.val (by decide)]
      simp

theorem apply_keeps (pte : BitVec 32) (op : PteOp) (hlo : 26 ≤ i) (hhi : i ≤ 29) :
    (op.apply pte).getLsbD i = pte.getLsbD i := by
  have h30 : i ≠ 30 := by omega
  have h31 : i ≠ 31 := by omega
  cases op with
  | setFpn fpn =>
    rw [PteOp.apply, pteSetFpn_bits pte fpn.val (by omega)]
    simp [h30, h31]
  | setSwap swptyp swpoff =>
    rw [PteOp.apply, pteSetSwap_bits pte swptyp.val swpoff.val (by omega)]
    simp [h30, h31]

theorem pte_last_write_wins (pte : BitVec 32) (ops : List PteOp) :
    (∀ op, ops.getLast? = some op → op.Decoded (PteOp.run pte ops)) ∧
    ∀ i, 26 ≤ i → i ≤ 29 → (PteOp.run pte ops).getLsbD i = pte.getLsbD i := by
  constructor
  · intro op hop
    obtain ⟨init, rfl⟩ := List.getLast?_eq_some_iff.mp hop
    rw [PteOp.run, List.foldl_append]
    exact apply_decoded _ op
  · intro i hlo hhi
    induction ops generalizing pte with
    | nil => rfl
    | cons op ops ih => exact (ih (op.apply pte)).trans (apply_keeps pte op hlo hhi)

/-- A swapped entry with every bit of its fields set, brought back to frame 5. -/
theorem pte_last_write_wins_broughtBack :
    (pagingPteFpn (PteOp.run 0#32 [.setSwap 31 2097151, .setFpn 5])).toNat = 5 :=
  ((pte_last_write_wins 0#32 [.setSwap 31 2097151, .setFpn 5]).1 (.setFpn 5) rfl).2.2

end AssignmentOS.Mm
