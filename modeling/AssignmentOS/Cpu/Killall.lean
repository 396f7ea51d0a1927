import AssignmentOS.Cpu.Run
import AssignmentOS.Lib.Held

/-!
# The name in killall

`__sys_killall` with any `libread` that stores a byte or nothing. Its loop ends
at -1 alone: the name has to be closed by one among the first 100 reads, and a
read that fails copies the byte before once more.
-/

namespace AssignmentOS.Cpu

open Memory Fallible Mm Held

-- ---------------------------------------------------------------------------
-- Bytes in registers
-- ---------------------------------------------------------------------------

@[simp] theorem asByte_ofByte (v : Byte) : asByte (ofByte v) = v := by
  have hext : (asByte (ofByte v)).toBitVec = (v.toBitVec.signExtend 32).setWidth 8 := rfl
  apply Int8.toBitVec_inj.1
  rw [hext]
  ext i hi
  have hlt : i < 32 := by omega
  rw [BitVec.getElem_setWidth, BitVec.getLsbD_signExtend]
  simp [hi, hlt, BitVec.getLsbD_eq_getElem]

theorem ofByte_eq_end {v : Byte} : ofByte v = -1 ↔ v = -1 := by
  constructor
  · intro h
    have hv := congrArg asByte h
    rwa [asByte_ofByte] at hv
  · rintro rfl
    rfl

-- ---------------------------------------------------------------------------
-- What killall is to do
-- ---------------------------------------------------------------------------

section
variable {σ : Type}

/-- `data` after the reads at the offsets below `n`; `bytes` has nothing where the read fails. -/
def shown (bytes : Nat → Option Byte) : (n : Nat) → UInt32
  | 0 => 0
  | n + 1 => ((bytes n).map ofByte).getD (shown bytes n)

/-- Read after read `libread` stores these bytes through its destination, or leaves it alone. -/
def Delivers (libread : Libread σ) (memrg : UInt32) (s : Nat → σ)
    (bytes : Nat → Option Byte) : Prop :=
  ∀ i < procNameSz, ∃ ret,
    libread memrg (.ofNat i) (shown bytes i) (s i) = .ok (ret, shown bytes (i + 1), s (i + 1))

def nameBytes (bytes : Nat → Option Byte) : List Byte :=
  ((List.range (procNameSz - 1)).filterMap bytes).takeWhile (· ≠ -1)

/-- The call returns with the name in `proc_name`, closed by a zero. -/
def NameBounded (libread : Libread σ) (regs : ScRegs) (s : σ) (bytes : Nat → Option Byte) : Prop :=
  ∃ ret procName s', sysKillall libread regs s = .ok (ret, procName, s') ∧
    procName.length ≤ procNameSz ∧ nameBytes bytes ++ [0] <+: procName

/-- The first -1 comes with the read at offset `k`, the last one that has room at the latest. -/
structure EndsAt (bytes : Nat → Option Byte) (k : Nat) : Prop where
  lt : k < procNameSz
  found : bytes k = some (-1)
  before : ∀ i < k, bytes i ≠ some (-1)

def ZeroFromFailure (reads : List (Option Byte)) : Prop :=
  ∀ (l : List Byte) (after : List (Option Byte)), reads = l.map some ++ none :: after →
    l.getLastD 0 = 0 ∧ ∀ v ∈ after.reduceOption, v = 0

def reads (bytes : Nat → Option Byte) (n : Nat) : List (Option Byte) := (List.range n).map bytes

-- ---------------------------------------------------------------------------
-- What it does
-- ---------------------------------------------------------------------------

variable {libread : Libread σ} {memrg : UInt32} {s : Nat → σ}
  {bytes : Nat → Option Byte} {i k : Nat}

theorem shown_ne_end (h : ∀ i < n, bytes i ≠ some (-1)) : shown bytes n ≠ -1 := by
  induction n with
  | zero => exact show (0 : UInt32) ≠ -1 by decide
  | succ n ih =>
    have hlast := h n (Nat.lt_succ_self n)
    rw [shown]
    cases hb : bytes n with
    | none => exact ih fun i hi => h i (Nat.lt_succ_of_lt hi)
    | some v =>
      rw [hb] at hlast
      exact fun hv => hlast (congrArg some (ofByte_eq_end.1 hv))

def copied (bytes : Nat → Option Byte) (n : Nat) : List Byte := held 0 (reads bytes n)

theorem reads_succ (bytes : Nat → Option Byte) (n : Nat) :
    reads bytes (n + 1) = reads bytes n ++ [bytes n] := by
  simp [reads, List.range_succ]

theorem copied_last (bytes : Nat → Option Byte) (n : Nat) :
    (copied bytes n).getLastD 0 = asByte (shown bytes n) := by
  induction n with
  | zero => rfl
  | succ n ih =>
    rw [copied, reads_succ, held_append, ← copied, ih, shown]
    cases bytes n <;> simp [held]

theorem copied_succ (bytes : Nat → Option Byte) (n : Nat) :
    copied bytes (n + 1) = copied bytes n ++ [asByte (shown bytes (n + 1))] := by
  rw [copied, reads_succ, held_append, ← copied, copied_last, shown]
  cases bytes n <;> simp [held]

theorem killallLoop_turn (hread : Delivers libread memrg s bytes) (hi : i < procNameSz)
    (hgo : shown bytes i ≠ -1) (left : Nat) (procName : List Byte) :
    killallLoop libread memrg (left + 1) (.ofNat i) (shown bytes i) procName (s i) =
      killallLoop libread memrg left (.ofNat (i + 1)) (shown bytes (i + 1))
        (procName ++ [if shown bytes (i + 1) = -1 then 0 else asByte (shown bytes (i + 1))])
          (s (i + 1)) := by
  obtain ⟨ret, hret⟩ := hread i hi
  rw [killallLoop, if_neg hgo, hret, ok_bind, UInt32.ofNat_add]
  rfl

theorem killallLoop_ends (hread : Delivers libread memrg s bytes) (hk : EndsAt bytes k)
    (more left : Nat) (hi : i + more = k) (hleft : more < left) :
    killallLoop libread memrg left (.ofNat i) (shown bytes i) (copied bytes i) (s i) =
      .ok (copied bytes k ++ [0], s (k + 1)) := by
  have hgo : ∀ n ≤ k, shown bytes n ≠ -1 :=
    fun n hn => shown_ne_end fun j hj => hk.before j (Nat.lt_of_lt_of_le hj hn)
  induction more generalizing i left with
  | zero =>
    obtain rfl : i = k := hi
    obtain ⟨left, rfl⟩ := Nat.exists_eq_succ_of_ne_zero (Nat.pos_iff_ne_zero.mp hleft)
    have hend : shown bytes (i + 1) = -1 := by rw [shown, hk.found]; rfl
    rw [killallLoop_turn hread hk.lt (hgo i (Nat.le_refl i)), if_pos hend, hend]
    cases left <;> simp [killallLoop]
  | succ more ih =>
    obtain ⟨left, rfl⟩ := Nat.exists_eq_succ_of_ne_zero
      (Nat.pos_iff_ne_zero.mp (Nat.zero_lt_of_lt hleft))
    have hlt : i < k := by omega
    rw [killallLoop_turn hread (Nat.lt_trans hlt hk.lt) (hgo i hlt.le), if_neg (hgo (i + 1) hlt),
      ← copied_succ]
    exact ih left (by omega) (Nat.lt_of_succ_lt_succ hleft)

theorem killallLoop_overruns (hread : Delivers libread memrg s bytes)
    (hnone : ∀ i < procNameSz, bytes i ≠ some (-1)) (left : Nat) (hi : i + left = procNameSz)
    (procName : List Byte) :
    killallLoop libread memrg left (.ofNat i) (shown bytes i) procName (s i) ≠ .ok r := by
  have hgo : ∀ n ≤ procNameSz, shown bytes n ≠ -1 :=
    fun n hn => shown_ne_end fun j hj => hnone j (Nat.lt_of_lt_of_le hj hn)
  induction left generalizing i procName with
  | zero =>
    rw [killallLoop, if_neg (hgo i (by omega)), Ne, bind_eq_ok]
    rintro ⟨_, -, h⟩
    cases h
  | succ left ih =>
    rw [killallLoop_turn hread (by omega) (hgo i (by omega))]
    exact ih (by omega) _

theorem nameBytes_eq (hk : EndsAt bytes k) : nameBytes bytes = (reads bytes k).reduceOption := by
  obtain ⟨more, hmore⟩ : ∃ more, procNameSz - 1 = k + more :=
    Nat.exists_eq_add_of_le (Nat.le_sub_one_of_lt hk.lt)
  have hreads : (List.range k).filterMap bytes = (reads bytes k).reduceOption := by
    simp [reads, List.reduceOption, List.filterMap_map]
  have hbefore : ∀ v ∈ (reads bytes k).reduceOption, decide (v ≠ -1) = true := by
    intro v hv
    rw [← hreads, List.mem_filterMap] at hv
    obtain ⟨i, hi, hv⟩ := hv
    refine decide_eq_true fun he => hk.before i (List.mem_range.mp hi) ?_
    rw [hv, he]
  rw [nameBytes, hmore, List.range_add, List.filterMap_append, hreads,
    List.takeWhile_append_of_pos hbefore]
  cases more with
  | zero => simp
  | succ more => simp [List.range_succ_eq_map, hk.found]

theorem endsAt_of_mem (h : ∃ i, i < procNameSz ∧ bytes i = some (-1)) : ∃ k, EndsAt bytes k := by
  refine ⟨Nat.find h, (Nat.find_spec h).1, (Nat.find_spec h).2, fun i hi hend => ?_⟩
  exact Nat.find_min h hi ⟨Nat.lt_trans hi (Nat.find_spec h).1, hend⟩

theorem sysKillall_ends (hread : Delivers libread regs.a1 s bytes) (hk : EndsAt bytes k) :
    sysKillall libread regs (s 0) = .ok (0, copied bytes k ++ [0], s (k + 1)) := by
  have hloop : killallLoop libread regs.a1 procNameSz 0 0 [] (s 0) =
      .ok (copied bytes k ++ [0], s (k + 1)) :=
    killallLoop_ends hread hk k procNameSz (Nat.zero_add k) hk.lt
  rw [sysKillall, hloop]
  rfl

theorem sysKillall_overruns (hread : Delivers libread regs.a1 s bytes)
    (hnone : ∀ i < procNameSz, bytes i ≠ some (-1)) : sysKillall libread regs (s 0) ≠ .ok r := by
  rw [sysKillall, Ne, bind_eq_ok]
  rintro ⟨_, hloop, -⟩
  exact killallLoop_overruns hread hnone procNameSz (Nat.zero_add _) [] hloop

/-- The name is closed in time, and no read before its end has failed, or none of them matters. -/
theorem killall_name_bounded (hread : Delivers libread regs.a1 s bytes) :
    NameBounded libread regs (s 0) bytes ↔ ∃ k, EndsAt bytes k ∧
      ZeroFromFailure (reads bytes k) := by
  constructor
  · rintro ⟨ret, procName, s', hcall, -, hname⟩
    have hend : ∃ i, i < procNameSz ∧ bytes i = some (-1) := by
      by_contra hnone
      exact sysKillall_overruns hread (fun i hi he => hnone ⟨i, hi, he⟩) hcall
    obtain ⟨k, hk⟩ := endsAt_of_mem hend
    rw [sysKillall_ends hread hk] at hcall
    cases hcall
    rw [nameBytes_eq hk] at hname
    exact ⟨k, hk, (prefix_held_iff 0 _).1 hname⟩
  · rintro ⟨k, hk, hzero⟩
    refine ⟨0, _, _, sysKillall_ends hread hk, ?_, ?_⟩
    · simpa [copied, reads] using Nat.succ_le_of_lt hk.lt
    · rw [nameBytes_eq hk]
      exact (prefix_held_iff 0 _).2 hzero

end

def storing (bytes : Nat → Option Byte) : Libread Unit := fun _ offset destination _ =>
  match bytes offset.toNat with
  | some v => .ok (0, ofByte v, ())
  | none => .ok (-1, destination, ())

theorem storing_delivers (bytes : Nat → Option Byte) (memrg : UInt32) :
    Delivers (storing bytes) memrg (fun _ => ()) bytes := by
  intro i hi
  have hoffset : (UInt32.ofNat i).toNat = i :=
    UInt32.toNat_ofNat_of_lt (Nat.lt_trans hi (by decide))
  rw [storing, hoffset, shown]
  cases bytes i with
  | none => exact ⟨-1, rfl⟩
  | some v => exact ⟨0, rfl⟩

/-- What the program sc2 writes: the name P0 and its end. -/
def sc2Name (i : Nat) : Option Byte := [80, 48, -1][i]?

theorem killall_name_bounded_sc2 : NameBounded (storing sc2Name) ⟨1, 0, 0⟩ () sc2Name := by
  have hend : EndsAt sc2Name 2 := ⟨by decide, rfl, by decide⟩
  have hread : Delivers (storing sc2Name) (⟨1, 0, 0⟩ : ScRegs).a1 (fun _ => ()) sc2Name :=
    storing_delivers sc2Name 1
  refine (killall_name_bounded hread).2 ⟨2, hend, fun l after h => ?_⟩
  have hfail : none ∈ reads sc2Name 2 := h ▸ List.mem_append_right _ List.mem_cons_self
  exact absurd hfail (by decide)

/-- `syscall 101 31` names no region: every read fails, and the loop runs past the array. -/
theorem killall_name_bounded_noRegion :
    Delivers (libread (.filled 0) ⟨some 0, some 1⟩) 31 (fun _ => .started (blank 0) .empty)
      (fun _ => none) ∧
      sysKillall (libread (.filled 0) ⟨some 0, some 1⟩) ⟨31, 0, 0⟩ (.started (blank 0) .empty) =
        .error .procName ∧
      ¬ NameBounded (libread (.filled 0) ⟨some 0, some 1⟩) ⟨31, 0, 0⟩ (.started (blank 0) .empty)
        fun _ => none := by
  have hread : ∀ i data, libread (.filled 0) ⟨some 0, some 1⟩ 31 i data
      (.started (blank 0) .empty) =
      .ok (-1, data, .started (blank 0) .empty) := fun _ _ => rfl
  have hloop : ∀ left i procName, killallLoop (libread (.filled 0) ⟨some 0, some 1⟩) 31
    left i 0 procName
      (.started (blank 0) .empty) = .error .procName := by
    intro left
    induction left with
    | zero =>
      intro i procName
      rw [killallLoop, hread]
      rfl
    | succ left ih =>
      intro i procName
      rw [killallLoop, hread]
      exact ih _ _
  have hcall : sysKillall (libread (.filled 0) ⟨some 0, some 1⟩) ⟨31, 0, 0⟩
      (.started (blank 0) .empty) =
      .error .procName := by rw [sysKillall, hloop]; rfl
  refine ⟨fun i _ => ⟨-1, ?_⟩, hcall, ?_⟩
  · exact hread _ _
  · rintro ⟨_, _, _, hok, -⟩
    rw [hcall] at hok
    cases hok

end AssignmentOS.Cpu
