import AssignmentOS.Lib.Transition
import AssignmentOS.Mm.Space

/-!
# Lists of free regions

`enlist_vm_freerg_list` and `enlist_vm_rg_node` put a region at the head of the
list of an area. Over any sequence of their calls the list is to hold what they
have accepted, newest first. The first leaves the link of the region alone when
the list is empty, the second takes regions without an address.
-/

namespace AssignmentOS.Mm

open Memory Fallible Transition

-- ---------------------------------------------------------------------------
-- The calls
-- ---------------------------------------------------------------------------

/-- `enlist_vm_freerg_list`. -/
def enlistVmFreergList (rgElmt : Addr) (s : MmState) : Except Fault (Int × MmState) := do
  let a ← need .pointer s.mm.mmap
  let vma ← need .pointer (s.areas.cell a)
  let rg ← need .pointer (s.regions.cell rgElmt)
  if rg.rgEnd ≤ rg.rgStart then .ok (-1, s)
  else
    let regions := match vma.vmFreergList with
      | none => s.regions
      | some rgNode => s.regions.set rgElmt { rg with rgNext := some rgNode }
    .ok (0, { s with
      regions := regions, areas := s.areas.set a { vma with vmFreergList := some rgElmt } })

/-- `enlist_vm_rg_node(&mm->mmap->vm_freerg_list, rgnode)`. -/
def enlistRgNode (rgnode : Addr) (s : MmState) : Except Fault (Int × MmState) := do
  let a ← need .pointer s.mm.mmap
  let vma ← need .pointer (s.areas.cell a)
  let (rglist, regions) ← enlistVmRgNode vma.vmFreergList rgnode s.regions
  .ok (0, { s with regions := regions, areas := s.areas.set a { vma with vmFreergList := rglist } })

/-- `write` is whatever the owner of a region does to it while it is not on the list. -/
inductive RegionAct
  | freergList (rgElmt : Addr)
  | rgNode (rgnode : Addr)
  | write (a : Addr) (rg : VmRgStruct)

/-- `accepted` are the regions that a call has returned 0 for, with their bounds, newest first. -/
structure RegionState where
  mm : MmState
  accepted : List (Addr × UInt64 × UInt64)

def RegionState.Listed (s : RegionState) (a : Addr) : Prop := a ∈ s.accepted.map Prod.fst

instance (s : RegionState) (a : Addr) :
    Decidable (s.Listed a) := inferInstanceAs (Decidable (_ ∈ _))

def RegionState.enlist (s : RegionState) (a : Addr)
    (call : Addr → MmState → Except Fault (Int × MmState)) : Option (Int × RegionState) :=
  match s.mm.regions.cell a, call a s.mm with
  | some rg, .ok (ret, mm) =>
    some (ret, ⟨mm, if ret = 0 then (a, rg.rgStart, rg.rgEnd) :: s.accepted else s.accepted⟩)
  | _, _ => none

def regionNext (s : RegionState) : RegionAct → Option (Int × RegionState)
  | .freergList rgElmt => s.enlist rgElmt enlistVmFreergList
  | .rgNode rgnode => s.enlist rgnode enlistRgNode
  | .write a rg =>
    if s.Listed a then none
    else some (0, { s with mm := { s.mm with regions := s.mm.regions.set a rg } })

-- ---------------------------------------------------------------------------
-- What the list is to be
-- ---------------------------------------------------------------------------

def bounds (x : Addr × VmRgStruct) : Addr × UInt64 × UInt64 := (x.1, x.2.rgStart, x.2.rgEnd)

structure MmState.Regions (s : MmState) (a : Addr) (vma : VmAreaStruct)
    (l : List (Addr × VmRgStruct)) :
    Prop where
  mmap : s.mm.mmap = some a
  area : s.areas.cell a = some vma
  chain : Chain s.regions VmRgStruct.link vma.vmFreergList l

/-- The list ends in NULL and holds exactly the accepted regions, newest first, and none is
empty. -/
def RegionState.WellFormed (s : RegionState) : Prop :=
  ∃ a vma l, s.mm.Regions a vma l ∧ l.map bounds = s.accepted ∧ ∀ x ∈ l, ¬ x.2.Empty

/-- Calls that leave the list well formed: the region is not on it yet, `enlist_vm_freerg_list`
gets an unlinked one for an empty list, `enlist_vm_rg_node` gets none without an address. -/
def RegionState.Meets (s : RegionState) : RegionAct → Prop
  | .freergList rgElmt => ∀ rg, s.mm.regions.cell rgElmt = some rg →
    rg.Empty ∨ ¬ s.Listed rgElmt ∧ (s.accepted = [] → rg.rgNext = none)
  | .rgNode rgnode => ∀ rg, s.mm.regions.cell rgnode = some rg → ¬ rg.Empty ∧ ¬ s.Listed rgnode
  | .write _ _ => True

def carefulSystem (s₀ : MmState) : System RegionState RegionAct where
  init s := s = ⟨s₀, []⟩
  step s act t := s.Meets act ∧ ∃ ret, regionNext s act = some (ret, t)

-- ---------------------------------------------------------------------------
-- One call
-- ---------------------------------------------------------------------------

def MmState.push (s : MmState) (a : Addr) (vma : VmAreaStruct) (rg : Addr)
    (v : VmRgStruct) : MmState :=
  { s with
    regions := s.regions.set rg v, areas := s.areas.set a { vma with vmFreergList := some rg } }

section
variable {s : MmState} {a rg : Addr} {vma : VmAreaStruct} {v : VmRgStruct}
  {l : List (Addr × VmRgStruct)}

theorem enlistRgNode_spec (hs : s.Regions a vma l) (hc : s.regions.cell rg = some v) :
    enlistRgNode rg s = .ok (0, s.push a vma rg { v with rgNext := vma.vmFreergList }) := by
  simp [enlistRgNode, enlistVmRgNode, hs.mmap, hs.area, modify_some hc, MmState.push]

theorem enlistVmFreergList_refused (hs : s.Regions a vma l) (hc : s.regions.cell rg = some v)
    (he : v.Empty) : enlistVmFreergList rg s = .ok (-1, s) := by
  unfold VmRgStruct.Empty at he
  simp [enlistVmFreergList, hs.mmap, hs.area, hc, he]

/-- The link of the region is written only if there is a list to link it to. -/
theorem enlistVmFreergList_spec (hs : s.Regions a vma l) (hc : s.regions.cell rg = some v)
    (hne : ¬ v.Empty) :
    enlistVmFreergList rg s =
      .ok (0, s.push a vma rg { v with rgNext := vma.vmFreergList.or v.rgNext }) := by
  unfold VmRgStruct.Empty at hne
  cases hlist : vma.vmFreergList with
  | none => simp [enlistVmFreergList, hs.mmap, hs.area, hc, hne, hlist, MmState.push,
      set_of_cell hc]
  | some p => simp [enlistVmFreergList, hs.mmap, hs.area, hc, hne, hlist, MmState.push]

theorem push_regions (hs : s.Regions a vma l) (hmem : rg ∉ l.map Prod.fst)
    (hlink : v.rgNext = vma.vmFreergList) :
    (s.push a vma rg v).Regions a { vma with vmFreergList := some rg } ((rg, v) :: l) where
  mmap := hs.mmap
  area := set_cell_self _ _ _
  chain := chain_push hs.chain hmem (congrArg _ hlink)

theorem RegionState.addrs {s : RegionState} (hl : l.map bounds = s.accepted) :
    s.accepted.map Prod.fst = l.map Prod.fst := by
  rw [← hl, List.map_map]
  rfl

theorem push_wellFormed_iff {s : RegionState} (hs : s.mm.Regions a vma l)
    (hl : l.map bounds = s.accepted) (hne : ∀ x ∈ l, ¬ x.2.Empty) (v : VmRgStruct) :
    RegionState.WellFormed ⟨s.mm.push a vma rg v, (rg, v.rgStart, v.rgEnd) :: s.accepted⟩ ↔
      ¬ v.Empty ∧ ¬ s.Listed rg ∧ v.rgNext = vma.vmFreergList := by
  rw [RegionState.Listed, RegionState.addrs hl]
  constructor
  · rintro ⟨a', vma', l', hs', hl', hne'⟩
    have hmmap : a = a' := Option.some.inj (hs.mmap.symm.trans hs'.mmap)
    subst hmmap
    have harea := (set_cell_self s.mm.areas a { vma with vmFreergList := some rg }).symm.trans
      hs'.area
    obtain rfl := Option.some.inj harea
    cases l' with
    | nil => cases hl'
    | cons x l' =>
      obtain ⟨b, w⟩ := x
      obtain ⟨hb, hcell, q, hq, hrest⟩ := chain_cons_iff.1 hs'.chain
      cases hb
      obtain rfl := Option.some.inj ((set_cell_self s.mm.regions rg v).symm.trans hcell)
      simp only [List.map_cons, List.cons.injEq] at hl'
      have haddrs : l'.map Prod.fst = l.map Prod.fst := by
        rw [← RegionState.addrs hl, ← hl'.2, List.map_map]
        rfl
      refine ⟨hne' _ List.mem_cons_self, ?_, ?_⟩
      · rw [← haddrs]
        exact chain_head_not_mem hs'.chain
      · rw [chain_head hs.chain, ← haddrs, ← chain_head hrest]
        exact Slot.written.inj hq
  · rintro ⟨hv, hmem, hlink⟩
    refine ⟨a, _, (rg, v) :: l, push_regions hs hmem hlink, ?_, ?_⟩
    · rw [List.map_cons, hl]
      rfl
    · exact List.forall_mem_cons.mpr ⟨hv, hne⟩

theorem accepted_nil_iff {s : RegionState} (hs : s.mm.Regions a vma l)
    (hl : l.map bounds = s.accepted) :
    s.accepted = [] ↔ vma.vmFreergList = none := by
  rw [chain_head hs.chain, ← RegionState.addrs hl, List.head?_eq_none_iff, List.map_eq_nil_iff]

end

-- ---------------------------------------------------------------------------
-- Sequences of calls
-- ---------------------------------------------------------------------------

theorem enlist_eq_some {s : RegionState} {call : Addr → MmState → Except Fault (Int × MmState)} :
    s.enlist a call = some (ret, t) ↔ ∃ rg mm, s.mm.regions.cell a = some rg ∧
      call a s.mm = .ok (ret, mm) ∧
      t = ⟨mm, if ret = 0 then (a, rg.rgStart, rg.rgEnd) :: s.accepted else s.accepted⟩ := by
  unfold RegionState.enlist
  constructor
  · intro h
    split at h
    · rename_i rg ret mm hc hcall
      cases h
      exact ⟨rg, mm, hc, hcall, rfl⟩
    · cases h
  · rintro ⟨rg, mm, hc, hcall, rfl⟩
    rw [hc, hcall]

theorem meets_freergList {s : RegionState} (hc : s.mm.regions.cell a = some rg) :
    s.Meets (.freergList a) ↔ rg.Empty ∨ ¬ s.Listed a ∧ (s.accepted = [] → rg.rgNext = none) := by
  simp [RegionState.Meets, hc]

theorem meets_rgNode {s : RegionState} (hc : s.mm.regions.cell a = some rg) :
    s.Meets (.rgNode a) ↔ ¬ rg.Empty ∧ ¬ s.Listed a := by
  simp [RegionState.Meets, hc]

theorem link_kept_iff (p q : Ptr) : p.or q = p ↔ (p = none → q = none) := by
  cases p <;> simp

theorem write_wellFormed {s : RegionState} (hs : s.WellFormed) (ha : ¬ s.Listed a)
    (v : VmRgStruct) :
    RegionState.WellFormed { s with mm := { s.mm with regions := s.mm.regions.set a v } } := by
  obtain ⟨b, vma, l, hr, hl, hne⟩ := hs
  rw [RegionState.Listed, RegionState.addrs hl] at ha
  exact ⟨b, vma, l, ⟨hr.mmap, hr.area, hr.chain.frame_set ha v⟩, hl, hne⟩

theorem wellFormed_step {s t : RegionState} (hs : s.WellFormed)
    (h : regionNext s act = some (ret, t)) :
    t.WellFormed ↔ s.Meets act := by
  have hwf := hs
  obtain ⟨b, vma, l, hr, hl, hne⟩ := hs
  cases act with
  | freergList a =>
    obtain ⟨v, mm, hc, hcall, rfl⟩ := enlist_eq_some.1 h
    rw [meets_freergList hc]
    by_cases he : v.Empty
    · rw [enlistVmFreergList_refused hr hc he] at hcall
      cases hcall
      exact iff_of_true hwf (.inl he)
    · rw [enlistVmFreergList_spec hr hc he] at hcall
      cases hcall
      refine (push_wellFormed_iff hr hl hne _).trans ?_
      rw [accepted_nil_iff hr hl]
      constructor
      · rintro ⟨-, hmem, hlink⟩
        exact .inr ⟨hmem, (link_kept_iff _ _).1 hlink⟩
      · intro hmeets
        obtain ⟨hmem, hlink⟩ := hmeets.resolve_left he
        exact ⟨he, hmem, (link_kept_iff _ _).2 hlink⟩
  | rgNode a =>
    obtain ⟨v, mm, hc, hcall, rfl⟩ := enlist_eq_some.1 h
    rw [meets_rgNode hc]
    rw [enlistRgNode_spec hr hc] at hcall
    cases hcall
    refine (push_wellFormed_iff hr hl hne _).trans ?_
    constructor
    · exact fun ⟨he, hmem, _⟩ => ⟨he, hmem⟩
    · exact fun ⟨he, hmem⟩ => ⟨he, hmem, rfl⟩
  | write a v =>
    simp only [regionNext, Option.ite_none_left_eq_some] at h
    obtain ⟨ha, h⟩ := h
    cases h
    exact iff_of_true (write_wellFormed hwf ha v) trivial

def MmState.NoRegions (s : MmState) : Prop := ∃ a vma, s.Regions a vma []

theorem careful_wellFormed {s₀ : MmState} (h₀ : s₀.NoRegions)
    (hr : Reachable (carefulSystem s₀) s) :
    s.WellFormed := by
  refine hr.invariant (P := RegionState.WellFormed) ?_ ?_
  · rintro _ rfl
    obtain ⟨a, vma, hs⟩ := h₀
    exact ⟨a, vma, [], hs, rfl, fun _ hx => nomatch hx⟩
  · rintro s act t - hs ⟨hmeets, ret, hnext⟩
    exact (wellFormed_step hs hnext).2 hmeets

/-- The two functions do the same to a region exactly if it meets the condition of both. -/
theorem enlist_agree_iff {s : RegionState} (hs : s.WellFormed) (hc : s.mm.regions.cell a = some v)
    (ha : ¬ s.Listed a) :
    enlistVmFreergList a s.mm = enlistRgNode a s.mm ↔ s.Meets (.freergList a) ∧
      s.Meets (.rgNode a) := by
  obtain ⟨b, vma, l, hr, hl, -⟩ := hs
  rw [meets_freergList hc, meets_rgNode hc, enlistRgNode_spec hr hc, accepted_nil_iff hr hl,
    ← link_kept_iff vma.vmFreergList v.rgNext]
  by_cases he : v.Empty
  · rw [enlistVmFreergList_refused hr hc he]
    refine iff_of_false (fun hsame => ?_) fun hmeets => hmeets.2.1 he
    cases congrArg (Except.map Prod.fst) hsame
  · rw [enlistVmFreergList_spec hr hc he]
    constructor
    · intro hsame
      have hcell := congrArg (fun t : MmState => t.regions.cell a)
        (Prod.mk.inj (Except.ok.inj hsame)).2
      simp only [MmState.push, set_cell_self, Option.some.injEq, VmRgStruct.mk.injEq,
        true_and] at hcell
      exact ⟨.inr ⟨ha, hcell⟩, he, ha⟩
    · rintro ⟨hmeets, -⟩
      rw [(hmeets.resolve_left he).2]

theorem free_regions_wellFormed {s₀ : MmState} (h₀ : s₀.NoRegions) :
    (∀ acts s, Run (carefulSystem s₀) acts s → s.WellFormed) ∧
    (∀ s act ret t, Reachable (carefulSystem s₀) s → regionNext s act = some (ret, t) →
      (t.WellFormed ↔ s.Meets act)) ∧
    ∀ s a v, Reachable (carefulSystem s₀) s → s.mm.regions.cell a = some v → ¬ s.Listed a →
      (enlistVmFreergList a s.mm = enlistRgNode a s.mm ↔ s.Meets (.freergList a) ∧
        s.Meets (.rgNode a)) :=
  ⟨fun _ _ hr => careful_wellFormed h₀ hr.reachable,
    fun _ _ _ _ hr => wellFormed_step (careful_wellFormed h₀ hr),
    fun _ _ _ hr => enlist_agree_iff (careful_wellFormed h₀ hr)⟩

/-- An area without regions, and two regions that are on no list of it: one of 16 bytes that is
still linked, and the one without an address that `init_mm` starts with. -/
def MmState.loose : MmState :=
  { MmState.filled (blank 0) .empty 0 with
    areas := Heap.empty.set 0 ⟨0, 0, 0, 0, none, none⟩
    regions := (Heap.empty.set 0 ⟨0, 16, some 1⟩).set 1 ⟨0, 0, none⟩
    mm := ⟨.replicate pagingMaxPgn 0, some 0, .replicate pagingMaxSymtblSz ⟨0, 0, none⟩, none⟩ }

theorem loose_noRegions : MmState.loose.NoRegions := ⟨0, _, rfl, rfl, .nil⟩

/-- Two regions enlisted by the two functions, the second of them made in between, and then the
one without an address refused. -/
theorem free_regions_wellFormed_three :
    ∃ t, Run (carefulSystem .loose) [.rgNode 0, .write 2 ⟨32, 48, none⟩, .freergList 2,
      .freergList 1] t ∧
      t.accepted = [(2, 32, 48), (0, 0, 16)] ∧ t.WellFormed := by
  have hrun₁ : Run (carefulSystem .loose) [.rgNode 0] _ :=
    .step (.init rfl) ⟨(meets_rgNode rfl).2 ⟨by decide, by decide⟩, 0, rfl⟩
  have hrun₂ : Run (carefulSystem .loose) [.rgNode 0, .write 2 ⟨32, 48, none⟩] _ :=
    hrun₁.step ⟨trivial, 0, rfl⟩
  have hrun₃ : Run (carefulSystem .loose) [.rgNode 0, .write 2 ⟨32, 48, none⟩, .freergList 2] _ :=
    hrun₂.step ⟨(meets_freergList rfl).2 (.inr ⟨by decide, fun hnil => by cases hnil⟩), 0, rfl⟩
  have hrun₄ : Run (carefulSystem .loose)
      [.rgNode 0, .write 2 ⟨32, 48, none⟩, .freergList 2, .freergList 1] _ :=
    hrun₃.step ⟨(meets_freergList rfl).2 (.inl (by decide)), -1, rfl⟩
  exact ⟨_, hrun₄, rfl, (free_regions_wellFormed loose_noRegions).1 _ _ hrun₄⟩

/-- The list of one accepted region goes on to the one it was linked to before; the other function
takes the region without an address. -/
theorem free_regions_wellFormed_stale :
    (∃ t, regionNext ⟨.loose, []⟩ (.freergList 0) = some (0, t) ∧ ¬ t.WellFormed) ∧
    ∃ t, regionNext ⟨.loose, []⟩ (.rgNode 1) = some (0, t) ∧ ¬ t.WellFormed := by
  have hempty : RegionState.WellFormed ⟨.loose, []⟩ :=
    careful_wellFormed loose_noRegions ⟨[], .init rfl⟩
  refine ⟨⟨_, rfl, fun hwf => ?_⟩, ⟨_, rfl, fun hwf => ?_⟩⟩
  · have hmeets := (wellFormed_step hempty (show regionNext _ (.freergList 0) = _ from rfl)).1 hwf
    rw [meets_freergList rfl] at hmeets
    exact absurd ((hmeets.resolve_left (by decide)).2 rfl) (by decide)
  · have hmeets := (wellFormed_step hempty (show regionNext _ (.rgNode 1) = _ from rfl)).1 hwf
    rw [meets_rgNode rfl] at hmeets
    exact hmeets.1 (by decide)

end AssignmentOS.Mm
