import Mathlib.Data.Nat.Bitwise

/-!
# Bit fields of a word

A field is a contiguous mask with the position of its lowest bit. `set` and
`get` write and read it; both are described bit by bit, and the laws of fields
(read what was written, leave the other fields alone) follow. The position of
the highest bit can be found by halves (`log2_halves`).
-/

namespace BitField

variable {w : Nat}

/-- The mask with the bits `l` to `h` set. -/
def mask (w h l : Nat) : BitVec w := (~~~0#w <<< l) &&& (~~~0#w >>> (w - h - 1))

def set (v x m : BitVec w) (l : Nat) : BitVec w := (v &&& ~~~m) ||| ((x <<< l) &&& m)

def get (v m : BitVec w) (l : Nat) : BitVec w := (v &&& m) >>> l

def Disjoint (m m' : BitVec w) : Prop := ∀ i, m.getLsbD i = true → m'.getLsbD i = false

theorem getLsbD_mask (hh : h < w) (l i : Nat) :
    (mask w h l).getLsbD i = (decide (l ≤ i) && decide (i ≤ h)) := by
  simp only [mask, BitVec.getLsbD_and, BitVec.getLsbD_shiftLeft, BitVec.getLsbD_ushiftRight,
    BitVec.getLsbD_not, BitVec.getLsbD_zero, Bool.not_false, Bool.and_true]
  by_cases hl : l ≤ i <;> by_cases hi : i ≤ h <;> simp [hl, hi] <;> omega

theorem disjoint_mask (hh : h < w) (hh' : h' < w) (hd : h < l' ∨ h' < l) :
    Disjoint (mask w h l) (mask w h' l') := by
  intro i hi
  rw [getLsbD_mask hh] at hi
  rw [getLsbD_mask hh']
  simp only [Bool.and_eq_true, decide_eq_true_eq] at hi
  simp only [Bool.and_eq_false_iff, decide_eq_false_iff_not]
  omega

theorem getLsbD_set (v x m : BitVec w) (l i : Nat) :
    (set v x m l).getLsbD i =
      if m.getLsbD i then !decide (i < l) && x.getLsbD (i - l) else v.getLsbD i := by
  simp only [set, BitVec.getLsbD_or, BitVec.getLsbD_and, BitVec.getLsbD_not,
    BitVec.getLsbD_shiftLeft]
  cases hm : m.getLsbD i with
  | true =>
    have hi : i < w := BitVec.lt_of_getLsbD hm
    simp [hi]
  | false =>
    cases hv : v.getLsbD i with
    | true =>
      have hi : i < w := BitVec.lt_of_getLsbD hv
      simp [hi]
    | false => simp

theorem getLsbD_get (v m : BitVec w) (l i : Nat) :
    (get v m l).getLsbD i = (v.getLsbD (l + i) && m.getLsbD (l + i)) := by
  simp [get]

theorem get_set_of_disjoint {m m' : BitVec w} (hd : Disjoint m m') (v x : BitVec w) (l l' : Nat) :
    get (set v x m l) m' l' = get v m' l' := by
  apply BitVec.eq_of_getLsbD_eq
  intro i _
  simp only [getLsbD_get, getLsbD_set]
  cases hm : m.getLsbD (l' + i) with
  | false => simp
  | true => simp [hd _ hm]

theorem set_comm_of_disjoint {m m' : BitVec w} (hd : Disjoint m m') (v x x' : BitVec w)
    (l l' : Nat) :
    set (set v x m l) x' m' l' = set (set v x' m' l') x m l := by
  apply BitVec.eq_of_getLsbD_eq
  intro i _
  simp only [getLsbD_set]
  cases hm : m.getLsbD i with
  | false => simp
  | true => simp [hd i hm]

theorem set_set (v x x' m : BitVec w) (l : Nat) : set (set v x m l) x' m l = set v x' m l := by
  apply BitVec.eq_of_getLsbD_eq
  intro i _
  simp only [getLsbD_set]
  cases hm : m.getLsbD i with
  | false => simp
  | true => simp

theorem toNat_mask (hk : k < w) : (mask w k 0).toNat = 2 ^ (k + 1) - 1 := by
  apply Nat.eq_of_testBit_eq
  intro i
  rw [BitVec.testBit_toNat, getLsbD_mask hk, Nat.testBit_two_pow_sub_one]
  exact decide_eq_decide.mpr Nat.lt_succ_iff.symm

theorem get_set (hl : l ≤ h) (hh : h < w) (v x : BitVec w) :
    (get (set v x (mask w h l) l) (mask w h l) l).toNat = x.toNat % 2 ^ (h - l + 1) := by
  have hand : get (set v x (mask w h l) l) (mask w h l) l = x &&& mask w (h - l) 0 := by
    apply BitVec.eq_of_getLsbD_eq
    intro i _
    simp only [getLsbD_get, getLsbD_set, BitVec.getLsbD_and, getLsbD_mask hh,
      getLsbD_mask (show h - l < w by omega)]
    by_cases hi : l + i ≤ h
    · simp [hi, show i ≤ h - l by omega]
    · simp [hi, show ¬ i ≤ h - l by omega]
  rw [hand, BitVec.toNat_and, toNat_mask (by omega), Nat.and_two_pow_sub_one_eq_mod]

theorem get_set_of_lt (hl : l ≤ h) (hh : h < w) (v x : BitVec w) (hx : x.toNat < 2 ^ (h - l + 1)) :
    (get (set v x (mask w h l) l) (mask w h l) l).toNat = x.toNat := by
  rw [get_set hl hh, Nat.mod_eq_of_lt hx]

theorem toNat_get (hl : l ≤ h) (hh : h < w) (v : BitVec w) :
    (get v (mask w h l) l).toNat = v.toNat / 2 ^ l % 2 ^ (h - l + 1) := by
  have hand : get v (mask w h l) l = (v >>> l) &&& mask w (h - l) 0 := by
    apply BitVec.eq_of_getLsbD_eq
    intro i _
    rw [getLsbD_get, BitVec.getLsbD_and, BitVec.getLsbD_ushiftRight, getLsbD_mask hh,
      getLsbD_mask (show h - l < w by omega)]
    have hhi : l + i ≤ h ↔ i ≤ h - l := by omega
    simp [hhi]
  rw [hand, BitVec.toNat_and, toNat_mask (by omega), Nat.and_two_pow_sub_one_eq_mod,
    BitVec.toNat_ushiftRight, Nat.shiftRight_eq_div_pow]

-- ---------------------------------------------------------------------------
-- The highest bit
-- ---------------------------------------------------------------------------

theorem and_upper_eq_zero_iff (hn : n < 2 ^ (k + k)) : n &&& (2 ^ k - 1) <<< k = 0 ↔ n < 2 ^ k := by
  have hhalf : n / 2 ^ k < 2 ^ k := by
    rw [Nat.div_lt_iff_lt_mul (Nat.two_pow_pos k), ← Nat.pow_add]
    exact hn
  have hshift : (n &&& (2 ^ k - 1) <<< k) >>> k = n / 2 ^ k := by
    rw [Nat.shiftRight_and_distrib, Nat.shiftLeft_shiftRight, Nat.and_two_pow_sub_one_eq_mod,
      Nat.shiftRight_eq_div_pow, Nat.mod_eq_of_lt hhalf]
  constructor
  · intro hz
    rw [hz, Nat.zero_shiftRight, eq_comm, Nat.div_eq_zero_iff_lt (Nat.two_pow_pos k)] at hshift
    exact hshift
  · intro hlt
    apply Nat.eq_of_testBit_eq
    intro i
    rw [Nat.testBit_and, Nat.testBit_shiftLeft, Nat.zero_testBit]
    by_cases hi : k ≤ i
    · simp [Nat.testBit_lt_two_pow (Nat.lt_of_lt_of_le hlt (Nat.pow_le_pow_right Nat.two_pos hi))]
    · simp [hi]

theorem log2_upper (hn : 2 ^ k ≤ n) : n.log2 = k + (n >>> k).log2 := by
  have hq : 1 ≤ n / 2 ^ k := (Nat.one_le_div_iff (Nat.two_pow_pos k)).2 hn
  have hn0 : n ≠ 0 := by have := Nat.two_pow_pos k; omega
  have hq0 : n / 2 ^ k ≠ 0 := by omega
  rw [Nat.shiftRight_eq_div_pow, Nat.log2_eq_iff hn0]
  obtain ⟨hlo, hhi⟩ := (Nat.log2_eq_iff hq0).1 rfl
  rw [Nat.le_div_iff_mul_le (Nat.two_pow_pos k)] at hlo
  rw [Nat.div_lt_iff_lt_mul (Nat.two_pow_pos k)] at hhi
  constructor
  · rwa [Nat.add_comm, Nat.pow_add]
  · rwa [show k + (n / 2 ^ k).log2 + 1 = (n / 2 ^ k).log2 + 1 + k by omega, Nat.pow_add]

/-- One step of a search for the highest bit by halves. -/
theorem log2_halves {f : Nat → Nat} (hf : ∀ m, m < 2 ^ k → f m = m.log2) (hn : n < 2 ^ (k + k)) :
    (if n &&& (2 ^ k - 1) <<< k ≠ 0 then k + f (n >>> k) else f n) = n.log2 := by
  split
  · rename_i hup
    rw [ne_eq, and_upper_eq_zero_iff hn, Nat.not_lt] at hup
    have hlt : n >>> k < 2 ^ k := by
      rw [Nat.shiftRight_eq_div_pow, Nat.div_lt_iff_lt_mul (Nat.two_pow_pos k), ← Nat.pow_add]
      exact hn
    rw [hf _ hlt, log2_upper hup]
  · rename_i hup
    rw [ne_eq, not_not, and_upper_eq_zero_iff hn] at hup
    exact hf n hup

end BitField
