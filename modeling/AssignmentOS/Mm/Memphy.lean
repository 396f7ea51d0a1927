import AssignmentOS.Lib.Memory

/-!
# Physical memory devices

`mm-memphy.c`: the storage of a device, the cursor of a sequential one, and the
list of its free frames, which is a list of `framephy_struct` objects on the
heap. A function gives `none` where it follows a pointer to no object or
indexes outside the storage.
-/

namespace AssignmentOS.Mm

open Memory

def pagingPagesz : Int := 256

/-- `BYTE` is `char`. -/
abbrev Byte := Int8

structure FramephyStruct where
  fpn : Slot Int
  fpNext : Slot Ptr
  deriving DecidableEq, Repr

abbrev FrameHeap := Heap FramephyStruct

/-- The memory of a new node holds some number and some pointer. -/
abbrev FrameMalloc := Malloc FramephyStruct (Int × Ptr)

def FramephyStruct.raw (b : Int × Ptr) : FramephyStruct := ⟨.prior b.1, .prior b.2⟩

structure MemphyStruct where
  storage : List Byte
  maxsz : Int
  rdmflg : Int
  cursor : Int
  freeFpList : Slot Ptr
  deriving DecidableEq, Repr

def loadByte (storage : List Byte) (i : Int) : Option Byte :=
  if 0 ≤ i then storage[i.toNat]? else none

def storeByte (storage : List Byte) (i : Int) (v : Byte) : Option (List Byte) :=
  if 0 ≤ i ∧ i.toNat < storage.length then some (storage.set i.toNat v) else none

-- ---------------------------------------------------------------------------
-- Access
-- ---------------------------------------------------------------------------

abbrev DevId := Nat

/-- The devices; a `struct memphy_struct *` is `Option DevId`. -/
abbrev Devices := DevId → MemphyStruct

/-- The loop of `MEMPHY_mv_csr`; it makes at most `maxsz` turns. -/
def mvCsrLoop (maxsz offset : Int) : (fuel : Nat) → (numstep cursor : Int) → Int
  | 0, _, cursor => cursor
  | fuel + 1, numstep, cursor =>
    if numstep < offset ∧ numstep < maxsz then
      mvCsrLoop maxsz offset fuel (numstep + 1) ((cursor + 1).tmod maxsz)
    else cursor

def memphyMvCsr (mp : MemphyStruct) (offset : Int) : Int × MemphyStruct :=
  (0, { mp with cursor := mvCsrLoop mp.maxsz offset mp.maxsz.toNat 0 0 })

/-- `MEMPHY_seq_read`: the return value, `*value` and the devices. -/
def memphySeqRead (devs : Devices) (mp : Option DevId) (addr : Int) (value : Byte) :
    Option (Int × Byte × Devices) :=
  match mp with
  | none => some (-1, value, devs)
  | some d =>
    -- Not compatible mode for sequential read
    if (devs d).rdmflg = 0 then some (-1, value, devs)
    else do
      let devs := Function.update devs d (memphyMvCsr (devs d) addr).2
      let v ← loadByte (devs d).storage addr
      some (0, v, devs)

def memphyRead (devs : Devices) (mp : Option DevId) (addr : Int) (value : Byte) :
    Option (Int × Byte × Devices) :=
  match mp with
  | none => some (-1, value, devs)
  | some d =>
    if (devs d).rdmflg ≠ 0 then do
      let v ← loadByte (devs d).storage addr
      some (0, v, devs)
    else memphySeqRead devs mp addr value

def memphySeqWrite (devs : Devices) (mp : Option DevId) (addr : Int) (value : Byte) :
    Option (Int × Devices) :=
  match mp with
  | none => some (-1, devs)
  | some d =>
    if (devs d).rdmflg = 0 then some (-1, devs)
    else do
      let devs := Function.update devs d (memphyMvCsr (devs d) addr).2
      let storage ← storeByte (devs d).storage addr value
      some (0, Function.update devs d { devs d with storage := storage })

def memphyWrite (devs : Devices) (mp : Option DevId) (addr : Int) (data : Byte) :
    Option (Int × Devices) :=
  match mp with
  | none => some (-1, devs)
  | some d =>
    if (devs d).rdmflg ≠ 0 then do
      let storage ← storeByte (devs d).storage addr data
      some (0, Function.update devs d { devs d with storage := storage })
    else memphySeqWrite devs mp addr data

-- ---------------------------------------------------------------------------
-- Frames
-- ---------------------------------------------------------------------------

variable (M : FrameMalloc)

/-- The loop of `MEMPHY_format`, `left` turns before its end. -/
def formatLoop : (left : Nat) → (iter : Int) → (fst : Addr) → FrameHeap → Option FrameHeap
  | 0, _, _, h => some h
  | left + 1, iter, fst, h => do
    let (newfst, h) := h.malloc M FramephyStruct.raw
    let h ← h.modify newfst fun fp => { fp with fpn := .written iter }
    let h ← h.modify newfst fun fp => { fp with fpNext := .written none }
    let h ← h.modify fst fun fp => { fp with fpNext := .written (some newfst) }
    formatLoop left (iter + 1) newfst h

def memphyFormat (mp : MemphyStruct) (pagesz : Int) (h : FrameHeap) :
    Option (Int × MemphyStruct × FrameHeap) :=
  let numfp := mp.maxsz.tdiv pagesz
  if numfp ≤ 0 then some (-1, mp, h)
  else do
    -- Init head of free framephy list
    let (fst, h) := h.malloc M FramephyStruct.raw
    let h ← h.modify fst fun fp => { fp with fpn := .written 0 }
    let mp := { mp with freeFpList := .written (some fst) }
    let h ← formatLoop M (numfp - 1).toNat 1 fst h
    some (0, mp, h)

/-- `MEMPHY_get_freefp`: the return value, `*retfpn`, the device and the heap. -/
def memphyGetFreefp (mp : MemphyStruct) (retfpn : Int) (h : FrameHeap) :
    Option (Int × Int × MemphyStruct × FrameHeap) :=
  match mp.freeFpList.get with
  | none => some (-1, retfpn, mp, h)
  | some fp => do
    let node ← h.cell fp
    some (0, node.fpn.get, { mp with freeFpList := node.fpNext }, h.free fp)

def memphyPutFreefp (mp : MemphyStruct) (fpn : Int) (h : FrameHeap) :
    Option (Int × MemphyStruct × FrameHeap) := do
  let fp := mp.freeFpList
  let (newnode, h) := h.malloc M FramephyStruct.raw
  let h ← h.modify newnode fun node => { node with fpn := .written fpn }
  let h ← h.modify newnode fun node => { node with fpNext := fp }
  some (0, { mp with freeFpList := .written (some newnode) }, h)

/-- `init_memphy`; what `MEMPHY_format` returns is not looked at. A negative size
is too much for `malloc` once it is a `size_t`, and the `memset` goes through the
NULL that `malloc` gives. -/
def initMemphy (mp : MemphyStruct) (maxSize randomflg : Int) (h : FrameHeap) :
    Option (Int × MemphyStruct × FrameHeap) :=
  if maxSize < 0 then none
  else do
    let mp := { mp with storage := List.replicate maxSize.toNat 0, maxsz := maxSize }
    let (_, mp, h) ← memphyFormat M mp pagingPagesz h
    let mp := { mp with rdmflg := if randomflg ≠ 0 then 1 else 0 }
    let mp := if mp.rdmflg = 0 then { mp with cursor := 0 } else mp
    some (0, mp, h)

variable {M : FrameMalloc}

theorem format_frame (hfmt : memphyFormat M mp pagesz h = some (ret, mp', h')) :
    ∃ q, mp' = { mp with freeFpList := q } := by
  simp only [memphyFormat] at hfmt
  split at hfmt
  · cases hfmt
    exact ⟨mp.freeFpList, rfl⟩
  · simp only [Option.bind_eq_bind, Option.bind_eq_some_iff] at hfmt
    obtain ⟨_, _, _, _, hfmt⟩ := hfmt
    cases hfmt
    exact ⟨_, rfl⟩

theorem init_nonneg (hinit : initMemphy M mp maxSize randomflg h = some (ret, mp', h')) :
    0 ≤ maxSize := by
  by_contra hneg
  rw [initMemphy, if_pos (Int.not_le.mp hneg)] at hinit
  cases hinit

theorem init_format (hinit : initMemphy M mp maxSize randomflg h = some (ret, mp', h')) :
    ∃ fmt mp₁, memphyFormat M { mp with
        storage := List.replicate maxSize.toNat 0, maxsz := maxSize } pagingPagesz h =
          some (fmt, mp₁, h') ∧
      ∃ cursor, mp' = { mp₁ with rdmflg := if randomflg ≠ 0 then 1 else 0, cursor := cursor } := by
  rw [initMemphy, if_neg (Int.not_lt.mpr (init_nonneg hinit))] at hinit
  simp only [Option.bind_eq_bind, Option.bind_eq_some_iff] at hinit
  obtain ⟨⟨fmt, mp₁, h₁⟩, hfmt, hinit⟩ := hinit
  refine ⟨fmt, mp₁, ?_⟩
  by_cases hr : randomflg = 0
  · simp only [hr, ne_eq, not_true_eq_false, if_false, if_true] at hinit ⊢
    cases hinit
    exact ⟨hfmt, 0, rfl⟩
  · simp only [hr, ne_eq, not_false_eq_true, if_true, Int.reduceEq, if_false] at hinit ⊢
    cases hinit
    exact ⟨hfmt, mp₁.cursor, rfl⟩

theorem init_device (hinit : initMemphy M mp maxSize randomflg h = some (ret, mp', h')) :
    mp'.storage = List.replicate maxSize.toNat 0 ∧ mp'.maxsz = maxSize ∧
      mp'.rdmflg = if randomflg ≠ 0 then 1 else 0 := by
  obtain ⟨_, mp₁, hfmt, cursor, rfl⟩ := init_format hinit
  obtain ⟨q, rfl⟩ := format_frame hfmt
  exact ⟨rfl, rfl, rfl⟩

end AssignmentOS.Mm
