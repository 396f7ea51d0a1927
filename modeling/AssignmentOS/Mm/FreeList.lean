import AssignmentOS.Lib.Transition
import AssignmentOS.Mm.Memphy

/-!
# The list of free frames

`FreeList h mp free`: the free list of the device is NULL-terminated and holds
the frames `free`, in this order. `MEMPHY_get_freefp` takes its head,
`MEMPHY_put_freefp` puts a new one, so over any run the free frames and those
handed out together stay the frames of the device.
-/

namespace AssignmentOS.Mm

open Memory Transition

variable {M : FrameMalloc} {h : FrameHeap} {mp : MemphyStruct}

def FreeList (h : FrameHeap) (mp : MemphyStruct) (free : List Int) : Prop :=
  ∃ p l, mp.freeFpList = .written p ∧ Chain h FramephyStruct.fpNext p l ∧
    l.map (fun x => x.2.fpn) = free.map .written

-- ---------------------------------------------------------------------------
-- One call
-- ---------------------------------------------------------------------------

theorem getFreefp_nil (hf : FreeList h mp []) (retfpn : Int) :
    memphyGetFreefp mp retfpn h = some (-1, retfpn, mp, h) := by
  obtain ⟨p, l, hp, hl, hmap⟩ := hf
  simp only [List.map_nil, List.map_eq_nil_iff] at hmap
  subst hmap
  cases hl
  simp [memphyGetFreefp, hp, Slot.get]

theorem getFreefp_node (hp : mp.freeFpList.get = some a) (hc : h.cell a = some v) (retfpn : Int) :
    memphyGetFreefp mp retfpn h = some
      (0, v.fpn.get, { mp with freeFpList := v.fpNext }, h.free a) := by
  simp [memphyGetFreefp, hp, hc]

theorem getFreefp_cons (hf : FreeList h mp (f :: free)) :
    ∃ q h', (∀ retfpn, memphyGetFreefp mp retfpn h = some (0, f, { mp with freeFpList := q }, h')) ∧
      FreeList h' { mp with freeFpList := q } free := by
  obtain ⟨p, l, hp, hl, hmap⟩ := hf
  cases hl with
  | nil => cases hmap
  | @cons a v q l _ hc hv hs =>
    simp only [List.map_cons, List.cons.injEq] at hmap
    refine ⟨v.fpNext, h.free a, fun retfpn => ?_, q, l, hv, ?_, hmap.2⟩
    · rw [getFreefp_node (congrArg Slot.get hp) hc retfpn, hmap.1]
      rfl
    · exact hs.frame_free (chain_head_not_mem (.cons hc hv hs))

theorem putFreefp_spec (hf : FreeList h mp free) (fpn : Int) :
    ∃ q h', memphyPutFreefp M mp fpn h = some (0, { mp with freeFpList := q }, h') ∧
      FreeList h' { mp with freeFpList := q } (fpn :: free) := by
  obtain ⟨p, l, hp, hl, hmap⟩ := hf
  have hfresh := hl.fresh_not_mem (M.fresh h)
  refine ⟨.written (some (M.addr h)), h.set (M.addr h) ⟨.written fpn, mp.freeFpList⟩, ?_,
    some (M.addr h), (M.addr h, ⟨.written fpn, mp.freeFpList⟩) :: l, rfl, ?_, ?_⟩
  · simp [memphyPutFreefp, Heap.malloc]
  · exact .cons (set_cell_self _ _ _) hp (hl.frame_set hfresh _)
  · simp [hmap]

theorem FreeList.putFreefp_frame (hf : FreeList h mp free)
    (hput : memphyPutFreefp M mp₂ fpn h = some (ret, mp₂', h')) : FreeList h' mp free := by
  obtain ⟨p, l, hp, hl, hmap⟩ := hf
  have hfresh := hl.fresh_not_mem (M.fresh h)
  simp only [memphyPutFreefp, Heap.malloc, modify_set, Option.bind_eq_bind, Option.bind_some,
    Option.some.injEq, Prod.mk.injEq] at hput
  obtain ⟨-, -, rfl⟩ := hput
  exact ⟨p, l, hp, hl.frame_set hfresh _, hmap⟩

theorem FreeList.unique (hf : FreeList h mp free) (hf' : FreeList h mp free') : free = free' := by
  obtain ⟨p, l, hp, hl, hmap⟩ := hf
  obtain ⟨p', l', hp', hl', hmap'⟩ := hf'
  rw [hp] at hp'
  cases hp'
  obtain rfl := chain_unique hl hl'
  exact List.map_injective_iff.mpr (fun _ _ => Slot.written.inj) (hmap.symm.trans hmap')

-- ---------------------------------------------------------------------------
-- The list MEMPHY_format builds
-- ---------------------------------------------------------------------------

def frames (n : Nat) : List Int := (List.range n).map fun i : Nat => (i : Int)

/-- The list so far, from its head to its last node `fst`, whose link is `next`. -/
def Built (h : FrameHeap) (head : Ptr) (fpns : List Int) (fst : Addr) (next : Slot Ptr) : Prop :=
  ∃ l fpn, Segment h FramephyStruct.fpNext head l (some fst) ∧ fst ∉ l.map Prod.fst ∧
    h.cell fst = some ⟨fpn, next⟩ ∧ l.map (fun x => x.2.fpn) ++ [fpn] = fpns.map .written

theorem Built.snoc (hb : Built h head fpns fst next) (ha : h.cell a = none) (iter : Int) :
    ∃ h', (h.set a ⟨.written iter, .written none⟩).modify fst
        (fun fp => { fp with fpNext := .written (some a) }) = some h' ∧
      Built h' head (fpns ++ [iter]) a (.written none) := by
  obtain ⟨l, fpn, hs, hfst, hc, hmap⟩ := hb
  have hne : fst ≠ a := fun he => by
    rw [he, ha] at hc
    cases hc
  have hl := hs.fresh_not_mem ha
  have hs' := ((hs.frame_set hl ⟨.written iter, .written none⟩).frame_set hfst
    ⟨fpn, .written (some a)⟩).snoc (set_cell_self _ _ _) rfl
  refine ⟨_, modify_some ((set_cell_of_ne h _ hne).trans hc) _,
    l ++ [(fst, ⟨fpn, .written (some a)⟩)], .written iter, hs', ?_, ?_, ?_⟩
  · simpa [Ne.symm hne] using hl
  · rw [set_cell_of_ne _ _ (Ne.symm hne), set_cell_self]
  · rw [List.map_append, List.map_append, ← hmap]
    rfl

theorem formatLoop_spec (hb : Built h head fpns fst next) (left : Nat) (iter : Int) :
    ∃ h' last, formatLoop M left iter fst h = some h' ∧
      Built h' head (fpns ++ (List.range left).map fun i : Nat => iter + i) last
        (if left = 0 then next else .written none) := by
  induction left generalizing h fpns fst next iter with
  | zero => exact ⟨h, fst, rfl, by simpa using hb⟩
  | succ left ih =>
    obtain ⟨h₁, hmod, hb₁⟩ := hb.snoc (M.fresh h) iter
    obtain ⟨h', last, hloop, hb'⟩ := ih hb₁ (iter + 1)
    refine ⟨h', last, ?_, ?_⟩
    · simp [formatLoop, Heap.malloc, hmod, hloop]
    · have hrange : (iter :: (List.range left).map fun i : Nat => iter + 1 + i) =
          (List.range (left + 1)).map fun i : Nat => iter + i := by
        rw [List.range_succ_eq_map, List.map_cons, List.map_map, Int.natCast_zero, Int.add_zero]
        refine congrArg (iter :: ·) (List.map_congr_left fun i _ => ?_)
        simp only [Function.comp_apply, Int.natCast_succ]
        omega
      have hnext : (if left = 0 then Slot.written (none : Ptr) else .written none) =
          .written none := by
        split <;> rfl
      rw [hnext, List.append_assoc, List.singleton_append, hrange] at hb'
      simpa using hb'

theorem frames_succ (n : Nat) :
    frames (n + 1) = 0 :: (List.range n).map fun i : Nat => (1 : Int) + i := by
  rw [frames, List.range_succ_eq_map, List.map_cons, List.map_map, Int.natCast_zero]
  refine congrArg (0 :: ·) (List.map_congr_left fun i _ => ?_)
  simp only [Function.comp_apply, Int.natCast_succ]
  omega

/-- What `MEMPHY_format` does when there is a frame at all: the last node's link
is `NULL` only if the loop has set it. -/
theorem format_built (mp : MemphyStruct) (h : FrameHeap) (n : Nat)
    (hn : mp.maxsz.tdiv pagingPagesz = n + 1) :
    ∃ h' head last, memphyFormat M mp pagingPagesz h =
        some (0, { mp with freeFpList := .written (some head) }, h') ∧
      Built h' (some head) (frames (n + 1)) last
        (if n = 0 then .prior (M.prior h).2 else .written none) := by
  have hb : Built (h.set (M.addr h) ⟨.written 0, .prior (M.prior h).2⟩)
    (some (M.addr h)) [0] (M.addr h)
      (.prior (M.prior h).2) :=
    ⟨[], .written 0, .nil, by simp, by simp, rfl⟩
  obtain ⟨h', last, hloop, hb'⟩ := formatLoop_spec (M := M) hb n 1
  refine ⟨h', M.addr h, last, ?_, ?_⟩
  · have hpos : ¬ (n : Int) + 1 ≤ 0 := by omega
    simp only [memphyFormat, hn, hpos, if_false, Int.add_sub_cancel, Int.toNat_natCast]
    simp [Heap.malloc, FramephyStruct.raw, hloop]
  · rw [frames_succ]
    exact hb'

theorem Built.freeList (hb : Built h (some head) fpns last (.written none))
    (hmp : mp.freeFpList = .written (some head)) : FreeList h mp fpns := by
  obtain ⟨l, fpn, hs, -, hc, hmap⟩ := hb
  exact ⟨some head, l ++ [(last, ⟨fpn, .written none⟩)], hmp, hs.snoc hc rfl, by simpa using hmap⟩

-- ---------------------------------------------------------------------------
-- init_memphy
-- ---------------------------------------------------------------------------

def FollowsWritten (mp : MemphyStruct) (h : FrameHeap) : Prop :=
  mp.freeFpList.Written ∧
    ∀ a v, mp.freeFpList.get = some a → h.cell a = some v → v.fpn.Written

/-- Calls of `MEMPHY_get_freefp` give these frames, one after the other, and
then fail for ever, without following what was never written. -/
def Yields (mp : MemphyStruct) (h : FrameHeap) : List Int → Prop
  | [] => FollowsWritten mp h ∧ ∀ retfpn, memphyGetFreefp mp retfpn h = some (-1, retfpn, mp, h)
  | f :: rest => FollowsWritten mp h ∧ ∃ mp' h',
      (∀ retfpn, memphyGetFreefp mp retfpn h = some (0, f, mp', h')) ∧ Yields mp' h' rest

theorem FreeList.followsWritten (hf : FreeList h mp free) : FollowsWritten mp h := by
  obtain ⟨p, l, hp, hl, hmap⟩ := hf
  refine ⟨by rw [hp]; trivial, fun a v ha hc => ?_⟩
  rw [hp] at ha
  cases hl with
  | nil => cases ha
  | @cons a' v' q l _ hc' _ _ =>
    cases ha
    obtain rfl := Option.some.inj (hc.symm.trans hc')
    cases free with
    | nil => cases hmap
    | cons f free =>
      simp only [List.map_cons, List.cons.injEq] at hmap
      rw [hmap.1]
      trivial

theorem FreeList.yields (hf : FreeList h mp free) : Yields mp h free := by
  induction free generalizing h mp with
  | nil => exact ⟨hf.followsWritten, getFreefp_nil hf⟩
  | cons f free ih =>
    obtain ⟨q, h', hget, hf'⟩ := getFreefp_cons hf
    exact ⟨hf.followsWritten, _, _, hget, ih hf'⟩

theorem init_spec (mp : MemphyStruct) (maxSize randomflg : Int) (h : FrameHeap) (q : Slot Ptr)
    (h0 : 0 ≤ maxSize)
    (hfmt : memphyFormat M { mp with storage := List.replicate maxSize.toNat 0, maxsz := maxSize }
      pagingPagesz h = some (ret, { mp with
        storage := List.replicate maxSize.toNat 0, maxsz := maxSize, freeFpList := q }, h')) :
    ∃ cursor, initMemphy M mp maxSize randomflg h = some (0,
      ⟨List.replicate maxSize.toNat 0, maxSize, if randomflg ≠ 0 then 1 else 0, cursor, q⟩,
        h') := by
  rw [initMemphy, if_neg (Int.not_lt.mpr h0)]
  by_cases hr : randomflg = 0
  · exact ⟨0, by simp [hfmt, hr]⟩
  · exact ⟨mp.cursor, by simp [hfmt, hr]⟩

theorem init_zero (mp : MemphyStruct) (maxSize randomflg : Int) (h : FrameHeap) (h0 : 0 ≤ maxSize)
    (hn : maxSize.tdiv pagingPagesz ≤ 0) :
    ∃ cursor, initMemphy M mp maxSize randomflg h = some (0,
      ⟨List.replicate maxSize.toNat 0, maxSize, if randomflg ≠ 0 then 1 else 0, cursor,
        mp.freeFpList⟩, h) :=
  init_spec mp maxSize randomflg h _ h0 (by simp [memphyFormat, hn]; rfl)

theorem init_built (mp : MemphyStruct) (maxSize randomflg : Int) (h : FrameHeap) (n : Nat)
    (h0 : 0 ≤ maxSize) (hn : maxSize.tdiv pagingPagesz = n + 1) :
    ∃ cursor head last h', initMemphy M mp maxSize randomflg h = some (0,
        ⟨List.replicate maxSize.toNat 0, maxSize, if randomflg ≠ 0 then 1 else 0, cursor,
          .written (some head)⟩, h') ∧
      Built h' (some head) (frames (n + 1)) last
        (if n = 0 then .prior (M.prior h).2 else .written none) := by
  obtain ⟨h', head, last, hfmt, hb⟩ := format_built (M := M)
    { mp with storage := List.replicate maxSize.toNat 0, maxsz := maxSize } h n hn
  obtain ⟨cursor, hinit⟩ := init_spec mp maxSize randomflg h _ h0 hfmt
  exact ⟨cursor, head, last, h', hinit, hb⟩

theorem init_freeList (mp : MemphyStruct) (maxSize randomflg : Int) (h : FrameHeap)
    (hsz : 2 * pagingPagesz ≤ maxSize) :
    ∃ mp' h', initMemphy M mp maxSize randomflg h = some (0, mp', h') ∧ mp'.maxsz = maxSize ∧
      FreeList h' mp' (frames (maxSize / pagingPagesz).toNat) := by
  simp only [pagingPagesz] at hsz
  obtain ⟨n, hn⟩ : ∃ n : Nat, maxSize / pagingPagesz = n + 2 :=
    ⟨(maxSize / 256 - 2).toNat, by simp only [pagingPagesz]; omega⟩
  have hdiv : maxSize.tdiv pagingPagesz = ((n + 1 : Nat) : Int) + 1 := by
    rw [Int.tdiv_eq_ediv_of_nonneg (by omega), hn]
    push_cast
    omega
  obtain ⟨cursor, head, last, h', hinit, hb⟩ :=
    init_built (M := M) mp maxSize randomflg h (n + 1) (by omega) hdiv
  refine ⟨_, h', hinit, rfl, ?_⟩
  rw [hn]
  exact Built.freeList hb rfl

theorem Yields.written {l : List Int} (hy : Yields mp h l) : mp.freeFpList.Written := by
  cases l with
  | nil => exact hy.1.1
  | cons => exact hy.1.1

theorem Built.single (hb : Built h (some head) [f] last next) :
    h.cell head = some ⟨.written f, next⟩ := by
  obtain ⟨l, fpn, hs, -, hc, hmap⟩ := hb
  cases l with
  | nil =>
    simp only [List.map_nil, List.nil_append, List.map_cons, List.cons.injEq, and_true] at hmap
    cases hs
    rw [hc, hmap]
  | cons x l =>
    have hlen := congrArg List.length hmap
    simp at hlen

theorem not_yields_single (hb : Built h (some head) [f] last (.prior p))
    (hmp : mp.freeFpList = .written (some head)) : ¬ Yields mp h [f] := by
  rintro ⟨-, mp', h', hget, hy⟩
  have hnode := getFreefp_node (congrArg Slot.get hmp) hb.single 0
  rw [hget] at hnode
  cases hnode
  exact hy.written

theorem device_frames (M : FrameMalloc) (mp : MemphyStruct) (p : Ptr)
    (hp : mp.freeFpList = .prior p) (maxSize randomflg : Int) (h0 : 0 ≤ maxSize) (h : FrameHeap) :
    (∃ mp' h', initMemphy M mp maxSize randomflg h = some (0, mp', h') ∧
      Yields mp' h' (frames (maxSize / pagingPagesz).toNat)) ↔ 2 * pagingPagesz ≤ maxSize := by
  constructor
  · rintro ⟨mp', h', hinit, hy⟩
    by_contra hsmall
    simp only [pagingPagesz] at hsmall hy
    have hdiv : maxSize.tdiv pagingPagesz = maxSize / 256 := Int.tdiv_eq_ediv_of_nonneg h0
    rcases lt_or_ge maxSize 256 with hzero | hone
    · obtain ⟨cursor, hinit'⟩ := init_zero (M := M) mp maxSize randomflg h h0 (by omega)
      rw [hinit'] at hinit
      cases hinit
      have hw := hy.written
      rw [hp] at hw
      exact hw
    · obtain ⟨cursor, head, last, h'', hinit', hb⟩ :=
        init_built (M := M) mp maxSize randomflg h 0 h0 (by omega)
      rw [hinit'] at hinit
      cases hinit
      rw [show (maxSize / 256).toNat = 0 + 1 by omega] at hy
      exact not_yields_single hb rfl hy
  · intro hsz
    obtain ⟨mp', h', hinit, -, hf⟩ := init_freeList (M := M) mp maxSize randomflg h hsz
    exact ⟨mp', h', hinit, hf.yields⟩

theorem device_frames_three :
    ∃ mp h, initMemphy (.bump (9, some 9)) ⟨[], 0, 0, 0, .prior (some 4)⟩ 1000 1 .empty =
      some (0, mp, h) ∧
      Yields mp h [0, 1, 2] :=
  (device_frames (.bump (9, some 9)) ⟨[], 0, 0, 0, .prior (some 4)⟩ (some 4) rfl 1000 1
    (by decide) .empty).2
    (by decide)

/-- A swap of size 0 whose memory happens to hold a pointer to a node of another
device hands out that device's frame. -/
theorem device_frames_unused :
    ∃ mp h, initMemphy (.bump (0, none)) ⟨[], 0, 0, 0, .prior (some 0)⟩ 0 1
        (Heap.empty.set 0 ⟨.written 7, .written none⟩) = some (0, mp, h) ∧
      (∃ mp' h', memphyGetFreefp mp (-1) h = some (0, 7, mp', h')) ∧
      ¬ Yields mp h (frames (0 / pagingPagesz).toNat) := by
  refine ⟨_, _, rfl, ⟨_, _, rfl⟩, ?_⟩
  intro hy
  exact hy.written

-- ---------------------------------------------------------------------------
-- Runs of calls
-- ---------------------------------------------------------------------------

structure FrameState where
  mp : MemphyStruct
  heap : FrameHeap
  held : List Int

inductive FrameOp
  | get (retfpn : Int)
  | put (fpn : Int)

/-- A caller puts back only what it holds. -/
def frameNext (M : FrameMalloc) (s : FrameState) : FrameOp → Option (FrameOp × FrameState)
  | .get retfpn => do
    let (ret, fpn, mp, heap) ← memphyGetFreefp s.mp retfpn s.heap
    some (.get retfpn, ⟨mp, heap, if ret = 0 then fpn :: s.held else s.held⟩)
  | .put fpn =>
    if fpn ∈ s.held then do
      let (_, mp, heap) ← memphyPutFreefp M s.mp fpn s.heap
      some (.put fpn, ⟨mp, heap, s.held.erase fpn⟩)
    else none

/-- The free and the held frames together are the frames of the device. -/
def Conserved (n : Nat) (s : FrameState) : Prop :=
  ∃ free, FreeList s.heap s.mp free ∧ (free ++ s.held).Perm (frames n)

theorem frames_nodup (n : Nat) : (frames n).Nodup :=
  (List.nodup_range).map fun _ _ h => Int.ofNat.inj h

theorem mem_frames {f : Int} : f ∈ frames n ↔ 0 ≤ f ∧ f < n := by
  simp only [frames, List.mem_map, List.mem_range]
  constructor
  · rintro ⟨i, hi, rfl⟩
    exact ⟨Int.natCast_nonneg i, by exact_mod_cast hi⟩
  · rintro ⟨h0, hn⟩
    exact ⟨f.toNat, by omega, Int.toNat_of_nonneg h0⟩

theorem conserved_step {s t : FrameState} (hs : Conserved n s)
    (ht : frameNext M s a = some (e, t)) :
    Conserved n t ∧ t.mp.maxsz = s.mp.maxsz := by
  obtain ⟨free, hf, hperm⟩ := hs
  cases a with
  | get retfpn =>
    cases free with
    | nil =>
      simp only [frameNext, getFreefp_nil hf] at ht
      cases ht
      exact ⟨⟨[], hf, hperm⟩, rfl⟩
    | cons f free =>
      obtain ⟨q, h', hget, hf'⟩ := getFreefp_cons hf
      simp only [frameNext, hget] at ht
      cases ht
      exact ⟨⟨free, hf', List.perm_middle.trans hperm⟩, rfl⟩
  | put fpn =>
    simp only [frameNext, Option.ite_none_right_eq_some] at ht
    obtain ⟨hheld, ht⟩ := ht
    obtain ⟨q, h', hput, hf'⟩ := putFreefp_spec (M := M) hf fpn
    rw [hput] at ht
    cases ht
    refine ⟨⟨fpn :: free, hf', ?_⟩, rfl⟩
    exact (List.perm_middle.symm.trans
      ((List.perm_cons_erase hheld).symm.append_left free)).trans hperm

def frameSystem (M : FrameMalloc) (mp : MemphyStruct)
    (heap : FrameHeap) : System FrameState FrameOp :=
  .ofNext ⟨mp, heap, []⟩ (frameNext M)

theorem reachable_conserved (hfree : FreeList heap mp (frames n))
    (h : Reachable (frameSystem M mp heap) s) : Conserved n s ∧ s.mp.maxsz = mp.maxsz := by
  refine h.invariant (P := fun s => Conserved n s ∧ s.mp.maxsz = mp.maxsz) ?_ ?_
  · rintro _ rfl
    exact ⟨⟨frames n, hfree, by simp⟩, rfl⟩
  · rintro s e t _ ⟨hs, hmax⟩ ⟨a, ha⟩
    obtain ⟨ht, hmax'⟩ := conserved_step hs ha
    exact ⟨ht, hmax'.trans hmax⟩

theorem frame_in_storage {f maxsz : Int} (hf : f ∈ frames (maxsz.tdiv pagingPagesz).toNat) :
    0 ≤ f ∧ (f + 1) * pagingPagesz ≤ maxsz := by
  obtain ⟨h0, hlt⟩ := mem_frames.mp hf
  refine ⟨h0, ?_⟩
  have hpos : 0 ≤ maxsz := by
    by_contra hneg
    have hnonneg := Int.tdiv_nonneg (a := -maxsz) (b := pagingPagesz) (by omega) (by decide)
    rw [Int.neg_tdiv] at hnonneg
    omega
  rw [Int.tdiv_eq_ediv_of_nonneg hpos] at hlt
  simp only [pagingPagesz] at hlt ⊢
  omega

theorem frames_conserved (hfree : FreeList heap mp (frames (mp.maxsz.tdiv pagingPagesz).toNat))
    (h : Reachable (frameSystem M mp heap) s) :
    ∃ free, FreeList s.heap s.mp free ∧ free.Nodup ∧ (∀ f ∈ free, f ∉ s.held) ∧
      (free ++ s.held).Perm (frames (mp.maxsz.tdiv pagingPagesz).toNat) ∧
      (∀ f ∈ s.held, (frameNext M s (.put f)).isSome) ∧
      ∀ retfpn, ∃ ret fpn mp' heap', memphyGetFreefp s.mp retfpn s.heap =
        some (ret, fpn, mp', heap') ∧
        (ret = -1 ∧ s.held.Perm (frames (mp.maxsz.tdiv pagingPagesz).toNat) ∧
            fpn = retfpn ∧ mp' = s.mp ∧ heap' = s.heap ∨
          ret = 0 ∧ ¬ s.held.Perm (frames (mp.maxsz.tdiv pagingPagesz).toNat) ∧
            fpn ∉ s.held ∧ 0 ≤ fpn ∧ (fpn + 1) * pagingPagesz ≤ s.mp.maxsz) := by
  obtain ⟨⟨free, hf, hperm⟩, hmax⟩ := reachable_conserved hfree h
  have hnodup := hperm.nodup_iff.mpr (frames_nodup _)
  obtain ⟨hnf, -, hdisj⟩ := List.nodup_append.mp hnodup
  refine ⟨free, hf, hnf, fun f hff hfh => hdisj f hff f hfh rfl, hperm, fun f hfh => ?_,
    fun retfpn => ?_⟩
  · obtain ⟨q, h', hput, -⟩ := putFreefp_spec (M := M) hf f
    simp [frameNext, hfh, hput]
  · cases free with
    | nil => exact ⟨_, _, _, _, getFreefp_nil hf retfpn, .inl ⟨rfl, hperm, rfl, rfl, rfl⟩⟩
    | cons f free =>
      obtain ⟨q, h', hget, -⟩ := getFreefp_cons hf
      refine ⟨_, _, _, _, hget retfpn, .inr ⟨rfl, fun hall => ?_, fun hfh => ?_, ?_⟩⟩
      · have hlen := (hall.trans hperm.symm).length_eq
        simp only [List.length_append, List.length_cons] at hlen
        omega
      · exact hdisj f List.mem_cons_self f hfh rfl
      · rw [hmax]
        exact frame_in_storage (hperm.subset (by simp))

def takeTwo : List FrameOp := [.get (-1), .get (-1), .put 0]

theorem frames_conserved_three :
    ∃ mp heap s, initMemphy (.bump (9, some 9)) ⟨[], 0, 0, 0, .prior (some 4)⟩ 1000 1 .empty =
        some (0, mp, heap) ∧
      Reachable (frameSystem (.bump (9, some 9)) mp heap) s ∧ s.held = [1] ∧
      ∃ free, FreeList s.heap s.mp free ∧ (free ++ s.held).Perm (frames 3) := by
  obtain ⟨mp, h, hinit, hmax, hf⟩ := init_freeList (M := .bump (9, some 9))
    ⟨[], 0, 0, 0, .prior (some 4)⟩ 1000 1 .empty (by decide)
  have hf₀ : FreeList h mp [0, 1, 2] := hf
  obtain ⟨q₁, h₁, hget₁, hf₁⟩ := getFreefp_cons hf₀
  obtain ⟨q₂, h₂, hget₂, hf₂⟩ := getFreefp_cons hf₁
  obtain ⟨q₃, h₃, hput, -⟩ := putFreefp_spec (M := .bump (9, some 9)) hf₂ 0
  have hexec : exec (frameNext (.bump (9, some 9))) takeTwo ⟨mp, h, []⟩ =
      some (takeTwo, ⟨{ mp with freeFpList := q₃ }, h₃, [1]⟩) := by
    simp [takeTwo, exec, frameNext, hget₁, hget₂, hput]
  have hrun : Reachable (frameSystem (.bump (9, some 9)) mp h)
      ⟨{ mp with freeFpList := q₃ }, h₃, [1]⟩ :=
    (run_exec hexec).reachable
  have hall : FreeList h mp (frames (mp.maxsz.tdiv pagingPagesz).toNat) := by
    rw [hmax]
    exact hf
  obtain ⟨free, hfree, -, -, hperm, -⟩ := frames_conserved hall hrun
  rw [hmax] at hperm
  exact ⟨mp, h, _, hinit, hrun, rfl, free, hfree, hperm⟩

end AssignmentOS.Mm
