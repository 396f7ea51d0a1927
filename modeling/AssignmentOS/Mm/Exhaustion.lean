import AssignmentOS.Mm.FreeList
import AssignmentOS.Mm.Limit

/-!
# Running out of frames

`alloc_pages_range` and `vm_map_ram` on a RAM with any list of free frames. The
code -3000 is looked for but never given: without a frame the loop goes on, and
a frame that it does get is stored through a null pointer.
-/

namespace AssignmentOS.Mm

open Memory Fallible

/-- `alloc_pages_range` with its frame list, which it does not write. -/
def allocFrmLst (env : Env) (caller : PcbDevices) (reqPgnum : Int) (frmLst : Ptr) (s : MmState) :
    Except Fault (Int × Ptr × MmState) := do
  let (ret, s) ← allocPagesRange env caller reqPgnum s
  .ok (ret, frmLst, s)

-- ---------------------------------------------------------------------------
-- What an allocation of frames is to do
-- ---------------------------------------------------------------------------

def FrameList (h : FrameHeap) (p : Ptr) (fpns : List Int) : Prop :=
  ∃ l, Chain h FramephyStruct.fpNext p l ∧ l.map (fun x => x.2.fpn) = fpns.map .written

/-- `n` distinct frames have gone from the free list of the device to the list, the others
stayed. -/
def Taken (s' : MmState) (r : DevId) (free : List Int) (n : Nat) (frmLst : Ptr) : Prop :=
  ∃ taken rest, FrameList s'.frames frmLst taken ∧ taken.length = n ∧ taken.Nodup ∧
    FreeList s'.frames (s'.devs r) rest ∧ (taken ++ rest).Perm free

/-- All frames are free again; the page table and the pages are the same. -/
structure Undone (s s' : MmState) (r : DevId) (free : List Int) : Prop where
  free : ∃ free', FreeList s'.frames (s'.devs r) free' ∧ free'.Perm free
  pgd : s'.mm.pgd = s.mm.pgd
  fifoPgn : s'.mm.fifoPgn = s.mm.fifoPgn
  pages : s'.pages.cell = s.pages.cell

/-- Too few free frames are an error that changes nothing, enough of them go to the caller. In
both cases every frame is on the free list or on the caller's. -/
structure OomSafe (env : Env) (caller : PcbDevices) (r : DevId) (s : MmState) (free : List Int)
    (mapstart incpgnum : Int) : Prop where
  short : free.length < incpgnum → ∃ ret s', vmMapRam env caller mapstart incpgnum s =
    .ok (ret, s') ∧
    ret < 0 ∧ Undone s s' r free
  enough : incpgnum ≤ free.length → ∃ ret frmLst s',
    allocFrmLst env caller incpgnum none s = .ok (ret, frmLst, s') ∧
    Taken s' r free incpgnum.toNat frmLst

-- ---------------------------------------------------------------------------
-- What it does
-- ---------------------------------------------------------------------------

section
variable {env : Env} {caller : PcbDevices} {r : DevId} {s : MmState} {free : List Int} {f : Int}

theorem stateGetFreefp_nil (hram : caller.mram = some r) (hf : FreeList s.frames (s.devs r) [])
    (retfpn : Int) :
    s.getFreefp caller.mram retfpn = .ok (-1, retfpn, s) := by
  simp [MmState.getFreefp, hram, getFreefp_nil hf]

theorem stateGetFreefp_cons (hram : caller.mram = some r)
    (hf : FreeList s.frames (s.devs r) (f :: free)) (retfpn : Int) :
    ∃ s', s.getFreefp caller.mram retfpn = .ok (0, f, s') ∧
      FreeList s'.frames (s'.devs r) free := by
  obtain ⟨q, frames, hget, hfree⟩ := getFreefp_cons hf
  refine ⟨{ s with
    devs := Function.update s.devs r { s.devs r with freeFpList := q }
    frames := frames }, ?_, ?_⟩
  · simp [MmState.getFreefp, hram, hget]
  · simpa using hfree

theorem allocPagesLoop_nil (env : Env) (hram : caller.mram = some r)
    (hf : FreeList s.frames (s.devs r) []) (left : Nat) :
    allocPagesLoop env caller left s = .ok s := by
  induction left with
  | zero => rfl
  | succ left ih =>
    simp only [allocPagesLoop, stateGetFreefp_nil hram hf, ok_bind]
    exact ih

theorem allocPagesLoop_cons (env : Env) (hram : caller.mram = some r)
    (hf : FreeList s.frames (s.devs r) (f :: free)) (left : Nat) :
    allocPagesLoop env caller (left + 1) s = .error .pointer := by
  obtain ⟨s', hget, -⟩ := stateGetFreefp_cons hram hf env.int
  simp only [allocPagesLoop, hget, ok_bind, if_true]

theorem vmMapRam_nil (env : Env) (hram : caller.mram = some r)
    (hf : FreeList s.frames (s.devs r) []) (mapstart incpgnum : Int) :
    vmMapRam env caller mapstart incpgnum s =
      .ok (0, (enlistPgnNode env (pagingPgn mapstart) s).2) := by
  rw [vmMapRam_eq, allocPagesLoop_nil env hram hf, ok_bind]
  simp [vmapPageRange]

theorem not_oomSafe_nil (env : Env) (hram : caller.mram = some r)
    (hf : FreeList s.frames (s.devs r) []) (hinc : 1 ≤ incpgnum) (mapstart : Int) :
    ¬ OomSafe env caller r s [] mapstart incpgnum := by
  intro hsafe
  have hshort : (([] : List Int).length : Int) < incpgnum := Int.lt_of_lt_of_le Int.zero_lt_one hinc
  obtain ⟨ret, s', hmap, hret, -⟩ := hsafe.short hshort
  rw [vmMapRam_nil env hram hf] at hmap
  cases hmap
  exact Int.lt_irrefl 0 hret

theorem not_oomSafe_cons (env : Env) (hram : caller.mram = some r)
    (hf : FreeList s.frames (s.devs r) (f :: free)) (hinc : 1 ≤ incpgnum) (mapstart : Int) :
    ¬ OomSafe env caller r s (f :: free) mapstart incpgnum := by
  intro hsafe
  obtain ⟨left, hleft⟩ : ∃ left : Nat, incpgnum.toNat = left + 1 := ⟨incpgnum.toNat - 1, by omega⟩
  have hloop := allocPagesLoop_cons env hram hf left
  rcases Int.lt_or_le ((f :: free).length : Int) incpgnum with hshort | henough
  · obtain ⟨ret, s', hmap, -⟩ := hsafe.short hshort
    rw [vmMapRam_eq, hleft, hloop] at hmap
    cases hmap
  · obtain ⟨ret, frmLst, s', halloc, -⟩ := hsafe.enough henough
    simp only [allocFrmLst, allocPagesRange, hleft, hloop] at halloc
    cases halloc

theorem vm_map_ram_unsound (env : Env) (hram : caller.mram = some r)
    (hf : FreeList s.frames (s.devs r) free) (hinc : 1 ≤ incpgnum) (mapstart : Int) :
    ¬ OomSafe env caller r s free mapstart incpgnum := by
  cases free with
  | nil => exact not_oomSafe_nil env hram hf hinc mapstart
  | cons f free => exact not_oomSafe_cons env hram hf hinc mapstart

end

def MmState.oneFrame : MmState :=
  .started (fun d => { blank 256 d with freeFpList := .written (some 0) })
    (Heap.empty.set 0 ⟨.written 0, .written none⟩)

theorem oneFrame_freeList (r : DevId) :
    FreeList MmState.oneFrame.frames (MmState.oneFrame.devs r) [0] :=
  ⟨some 0, [(0, ⟨.written 0, .written none⟩)], rfl, .cons rfl rfl .nil, rfl⟩

theorem vm_map_ram_unsound_one : ¬ OomSafe (.filled 0) ⟨some 0, some 1⟩ 0 .oneFrame [0] 0 1 :=
  vm_map_ram_unsound (.filled 0) rfl (oneFrame_freeList 0) (Int.le_refl 1) 0

/-- Without a frame a page is asked for, and the answer is 0 with the page on the list. -/
theorem vm_map_ram_unsound_none : ∃ s',
    vmMapRam (.filled 0) ⟨some 0, some 1⟩ 0 1 (.started (blank 256) .empty) = .ok (0, s') ∧
      FreeList (MmState.started (blank 256) .empty).frames (blank 256 0) [] ∧
      (MmState.started (blank 256) .empty).mm.fifoPgn = none ∧ s'.mm.fifoPgn = some 0 ∧
      ¬ OomSafe (.filled 0) ⟨some 0, some 1⟩ 0 (.started (blank 256) .empty) [] 0 1 := by
  have hf : FreeList (MmState.started (blank 256) .empty).frames (blank 256 0) [] :=
    ⟨none, [], rfl, .nil, rfl⟩
  have hram : (⟨some 0, some 1⟩ : PcbDevices).mram = some 0 := rfl
  have hmap := vmMapRam_nil (s := .started (blank 256) .empty) (.filled 0) hram hf 0 1
  have hnot := not_oomSafe_nil (.filled 0) hram hf (Int.le_refl 1) 0
  exact ⟨_, hmap, hf, rfl, rfl, hnot⟩

end AssignmentOS.Mm
