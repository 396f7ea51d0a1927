import AssignmentOS.Mm.Region

/-!
# Allocating a region

`__alloc` as `liballoc` calls it. `get_free_vmrg_area` does not search the free
regions: it reports success for every list that is not empty, with a region that
starts and ends at -1, and `__alloc` returns 0 for an empty one too.
-/

namespace AssignmentOS.Mm

open Memory Fallible

-- ---------------------------------------------------------------------------
-- What an allocation is to do
-- ---------------------------------------------------------------------------

def VmRgStruct.Disjoint (rg rg' : VmRgStruct) : Prop :=
  rg.rgEnd ≤ rg'.rgStart ∨ rg'.rgEnd ≤ rg.rgStart

/-- Region `rgid` of the table has room for `size` bytes from `addr` on, inside the area and apart
from all other regions that have addresses. -/
structure Allocated (mm : MmStruct) (vma : VmAreaStruct) (rgid : Int) (size : Nat) (addr : Int) :
    Prop where
  room : ∃ rg, mm.symrg rgid = some rg ∧ addr = rg.rgStart.toNat ∧
    rg.rgStart.toNat + size ≤ rg.rgEnd.toNat ∧
    vma.vmStart ≤ rg.rgStart ∧ rg.rgEnd ≤ vma.vmEnd
  apart : ∀ i rg rg', i ≠ rgid → mm.symrg rgid = some rg → mm.symrg i = some rg' → ¬ rg'.Empty →
    rg.Disjoint rg'

/-- The symbol table, the areas with their lists of free regions, and the page table are the
same. -/
structure SameRegions (s s' : MmState) : Prop where
  symrgtbl : s'.mm.symrgtbl = s.mm.symrgtbl
  areas : s'.areas.cell = s.areas.cell
  regions : s'.regions.cell = s.regions.cell
  pgd : s'.mm.pgd = s.mm.pgd

def SearchFails (env : Env) (s : MmState) (size : UInt32) : Prop :=
  ∃ ret rg, getFreeVmrgArea s 0 (asInt size) env.rgnode = .ok (ret, rg) ∧ ret ≠ 0

/-- Success means that the region has been allocated, and nothing found means no success. -/
structure AllocSound (env : Env) (s : MmState) (a : Addr) (size regIndex : UInt32) (ret addr : Int)
    (s' : MmState) : Prop where
  success : ret = 0 → ∃ vma, s'.areas.cell a = some vma ∧
    Allocated s'.mm vma (asInt regIndex) size.toNat addr
  failure : SearchFails env s size → ret ≠ 0 ∧ SameRegions s s'

-- ---------------------------------------------------------------------------
-- What it does
-- ---------------------------------------------------------------------------

section
variable {env : Env} {s s' : MmState} {a : Addr} {vma : VmAreaStruct} {size regIndex : UInt32}

theorem symrg_setSymrg {mm : MmStruct} (hrg : mm.symrg rgid = some rg)
    (f : VmRgStruct → VmRgStruct) :
    ∃ mm', mm.setSymrg rgid f = some mm' ∧ mm'.symrg rgid = some (f rg) := by
  obtain ⟨h0, hlt⟩ : InTable rgid := by
    by_contra hout
    rw [symrg_of_not_inTable hout] at hrg
    cases hrg
  have hidx : rgid.toNat < pagingMaxSymtblSz := by omega
  refine ⟨_, by simp only [MmStruct.setSymrg, hrg]; rfl, ?_⟩
  simp [MmStruct.symrg, h0, hidx]

theorem search_noList (hvma : getVmaByNum s vmaid = .ok (some a))
    (hcell : s.areas.cell a = some vma) (hlist : vma.vmFreergList = none) (size : Int)
    (newrg : VmRgStruct) :
    getFreeVmrgArea s vmaid size newrg = .ok (-1, newrg) := by
  simp [getFreeVmrgArea, hvma, hcell, hlist]

theorem mmAlloc_noList (env : Env) (hvma : getVmaByNum s vmaid = .ok (some a))
    (hcell : s.areas.cell a = some vma) (hlist : vma.vmFreergList = none)
    (rgid size allocAddr : Int) :
    mmAlloc env s vmaid rgid size allocAddr = .ok (0, allocAddr, s) := by
  simp [mmAlloc, search_noList hvma hcell hlist]

/-- Whatever regions the list holds, the one that is entered in the table is [-1, -1). -/
theorem mmAlloc_list (env : Env) (hvma : getVmaByNum s vmaid = .ok (some a))
    (hcell : s.areas.cell a = some vma) (hlist : vma.vmFreergList = some p) (hi : InTable rgid)
    (size allocAddr : Int) :
    ∃ mm rg, mmAlloc env s vmaid rgid size allocAddr = .ok (0, -1, { s with mm := mm }) ∧
      mm.symrg rgid = some rg ∧ rg.rgStart = -1 ∧ rg.rgEnd = -1 := by
  obtain ⟨rg, hrg⟩ := symrg_of_inTable hi s.mm
  obtain ⟨mm, hset, hmm⟩ := symrg_setSymrg hrg fun rg => { rg with rgStart := -1, rgEnd := -1 }
  have hstart : longToInt (-1) = -1 := by decide
  refine ⟨mm, _, ?_, hmm, rfl, rfl⟩
  simp [mmAlloc, getFreeVmrgArea, hvma, hcell, hlist, hset, hstart]

theorem liballoc_of_mmAlloc
    (h : mmAlloc env s 0 (asInt regIndex) (asInt size) env.int = .ok (ret, addr, s')) :
    liballoc env s size regIndex = .ok (ret, s') := by
  simp [liballoc, h]

theorem not_allocSound_of_empty (hrg : s'.mm.symrg (asInt regIndex) = some rg) (he : rg.Empty)
    (hsize : 0 < size) (addr : Int) : ¬ AllocSound env s a size regIndex 0 addr s' := by
  intro hsound
  obtain ⟨vma', -, ⟨rg', hrg', -, hroom, -⟩, -⟩ := hsound.success rfl
  obtain rfl := Option.some.inj (hrg.symm.trans hrg')
  have hle : rg.rgEnd.toNat ≤ rg.rgStart.toNat := UInt64.le_iff_toNat_le.mp he
  have hpos : 0 < size.toNat := UInt32.lt_iff_toNat_lt.mp hsize
  omega

/-- With an empty list there is success without a region, with any other list a region without
room. -/
theorem alloc_unsound (env : Env) (hvma : getVmaByNum s 0 = .ok (some a))
    (hcell : s.areas.cell a = some vma) (hi : InTable (asInt regIndex)) (hsize : 0 < size) :
    ∃ ret addr s', mmAlloc env s 0 (asInt regIndex) (asInt size) env.int = .ok (ret, addr, s') ∧
      liballoc env s size regIndex = .ok (ret, s') ∧
        ¬ AllocSound env s a size regIndex ret addr s' := by
  cases hlist : vma.vmFreergList with
  | none =>
    have halloc := mmAlloc_noList env hvma hcell hlist (asInt regIndex) (asInt size) env.int
    refine ⟨0, env.int, s, halloc, liballoc_of_mmAlloc halloc, fun hsound => ?_⟩
    have hfails : SearchFails env s size :=
      ⟨-1, env.rgnode, search_noList hvma hcell hlist _ _, by decide⟩
    exact (hsound.failure hfails).1 rfl
  | some p =>
    obtain ⟨mm, rg, halloc, hrg, hstart, hend⟩ :=
      mmAlloc_list env hvma hcell hlist hi (asInt size) env.int
    have hempty : rg.Empty := UInt64.le_of_eq (hend.trans hstart.symm)
    exact ⟨0, -1, { s with mm := mm }, halloc, liballoc_of_mmAlloc halloc,
      not_allocSound_of_empty hrg hempty hsize (-1)⟩

end

theorem alloc_unsound_sixteen : ∃ ret addr s',
    mmAlloc (.filled 0) (.started (blank 0) .empty) 0 7 16 0 = .ok (ret, addr, s') ∧
      liballoc (.filled 0) (.started (blank 0) .empty) 16 7 = .ok (ret, s') ∧
      ¬ AllocSound (.filled 0) (.started (blank 0) .empty) 0 16 7 ret addr s' := by
  have hvma : getVmaByNum (.started (blank 0) .empty) 0 = .ok (some 0) := rfl
  have hcell : (MmState.started (blank 0) .empty).areas.cell 0 = some ⟨0, 0, 0, 0, some 0, none⟩ :=
    rfl
  have hin : InTable (asInt 7) := ⟨by decide, by decide⟩
  have hsize : (0 : UInt32) < 16 := by decide
  have hseven : asInt 7 = 7 := by decide
  have hsixteen : asInt 16 = 16 := by decide
  have hunsound := alloc_unsound (.filled 0) hvma hcell hin hsize
  rw [hseven, hsixteen] at hunsound
  exact hunsound

/-- `alloc 100 0` in a process as `init_mm` is to make it succeeds, and the region has no byte. -/
theorem alloc_unsound_hundred : ∃ s' rg,
    mmAlloc (.filled 0) (.started (blank 0) .empty) 0 0 100 0 = .ok (0, -1, s') ∧
      s'.mm.symrg 0 = some rg ∧
      rg.Empty ∧ ¬ AllocSound (.filled 0) (.started (blank 0) .empty) 0 100 0 0 (-1) s' := by
  have hcell : (MmState.started (blank 0) .empty).areas.cell 0 = some ⟨0, 0, 0, 0, some 0, none⟩ :=
    rfl
  have hvma : getVmaByNum (.started (blank 0) .empty) 0 = .ok (some 0) := rfl
  have hin : InTable 0 := ⟨by decide, by decide⟩
  obtain ⟨mm, rg, halloc, hrg, hstart, hend⟩ := mmAlloc_list (.filled 0) hvma hcell rfl hin 100 0
  have hempty : rg.Empty := UInt64.le_of_eq (hend.trans hstart.symm)
  have hsize : (0 : UInt32) < 100 := by decide
  exact ⟨_, rg, halloc, hrg, hempty, not_allocSound_of_empty hrg hempty hsize (-1)⟩

end AssignmentOS.Mm
