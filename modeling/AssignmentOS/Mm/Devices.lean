import AssignmentOS.Mm.FreeList

/-!
# Devices that share the heap

`main` of `os.c` formats a RAM and the swaps one after the other, and the nodes
of all their free lists come from one `malloc`. No node gets into two lists, so
whatever is taken from one device and put back, the others keep their frames.
-/

namespace AssignmentOS.Mm

open Memory Transition

variable {M : FrameMalloc} {h h' : FrameHeap} {devs : Devices} {D : Set DevId}
  {free : DevId → List Int}

-- ---------------------------------------------------------------------------
-- Lists without a common node
-- ---------------------------------------------------------------------------

/-- The free lists of the devices in `D` consist of these nodes, none of which is in two of them. -/
structure Laid (h : FrameHeap) (devs : Devices) (D : Set DevId)
    (nodes : DevId → List (Addr × FramephyStruct)) : Prop where
  chain : ∀ d ∈ D, ∃ p, (devs d).freeFpList = .written p ∧ Chain h FramephyStruct.fpNext p (nodes d)
  apart : ∀ d ∈ D, ∀ e ∈ D, d ≠ e → ∀ a ∈ (nodes d).map Prod.fst, a ∉ (nodes e).map Prod.fst

/-- The free frames of the devices in `D`, in lists without a common node. -/
def Pools (h : FrameHeap) (devs : Devices) (D : Set DevId) (free : DevId → List Int) : Prop :=
  ∃ nodes, Laid h devs D nodes ∧ ∀ d ∈ D, (nodes d).map (fun x => x.2.fpn) = (free d).map .written

theorem Pools.freeList (hp : Pools h devs D free) (hd : d ∈ D) : FreeList h (devs d) (free d) := by
  obtain ⟨nodes, hl, hmap⟩ := hp
  obtain ⟨p, hp, hch⟩ := hl.chain d hd
  exact ⟨p, nodes d, hp, hch, hmap d hd⟩

theorem pools_empty (h : FrameHeap) (devs : Devices)
    (free : DevId → List Int) : Pools h devs ∅ free :=
  ⟨fun _ => [], ⟨fun _ hd => hd.elim, fun _ hd => hd.elim⟩, fun _ hd => hd.elim⟩

theorem Pools.congr (hp : Pools h devs D free)
    (hdevs : ∀ d ∈ D, (devs' d).freeFpList = (devs d).freeFpList) : Pools h devs' D free := by
  obtain ⟨nodes, ⟨hch, hapart⟩, hmap⟩ := hp
  refine ⟨nodes, ⟨fun d hd => ?_, hapart⟩, hmap⟩
  rw [hdevs d hd]
  exact hch d hd

theorem Laid.update (hl : Laid h devs D nodes)
    (hframe : ∀ c ∈ D, c ≠ d → ∀ a ∈ (nodes c).map Prod.fst, h'.cell a = h.cell a)
    (hq : mp.freeFpList = .written q) (hch : Chain h' FramephyStruct.fpNext q l)
    (hl' : ∀ c ∈ D, c ≠ d → ∀ a ∈ l.map Prod.fst, a ∉ (nodes c).map Prod.fst) :
    Laid h' (Function.update devs d mp) (insert d D) (Function.update nodes d l) := by
  constructor
  · intro c hc
    by_cases hcd : c = d
    · subst hcd
      exact ⟨q, by simpa using hq, by simpa using hch⟩
    · have hcD := Set.mem_of_mem_insert_of_ne hc hcd
      obtain ⟨p, hp, hch'⟩ := hl.chain c hcD
      rw [Function.update_of_ne hcd, Function.update_of_ne hcd]
      exact ⟨p, hp, hch'.frame (hframe c hcD hcd)⟩
  · intro c hc c' hc' hne a ha
    by_cases hcd : c = d
    · subst hcd
      have hcd' := Ne.symm hne
      rw [Function.update_self] at ha
      rw [Function.update_of_ne hcd']
      exact hl' c' (Set.mem_of_mem_insert_of_ne hc' hcd') hcd' a ha
    · have hcD := Set.mem_of_mem_insert_of_ne hc hcd
      rw [Function.update_of_ne hcd] at ha
      by_cases hcd' : c' = d
      · subst hcd'
        rw [Function.update_self]
        exact fun ha' => hl' c hcD hcd a ha' ha
      · rw [Function.update_of_ne hcd']
        exact hl.apart c hcD c' (Set.mem_of_mem_insert_of_ne hc' hcd') hne a ha

theorem Pools.update (hl : Laid h devs D nodes)
    (hmap : ∀ c ∈ D, (nodes c).map (fun x => x.2.fpn) = (free c).map .written)
    (hframe : ∀ c ∈ D, c ≠ d → ∀ a ∈ (nodes c).map Prod.fst, h'.cell a = h.cell a)
    (hq : mp.freeFpList = .written q) (hch : Chain h' FramephyStruct.fpNext q l)
    (hl' : ∀ c ∈ D, c ≠ d → ∀ a ∈ l.map Prod.fst, a ∉ (nodes c).map Prod.fst)
    (hfree : l.map (fun x => x.2.fpn) = fpns.map .written) :
    Pools h' (Function.update devs d mp) (insert d D) (Function.update free d fpns) := by
  refine ⟨Function.update nodes d l, hl.update hframe hq hch hl', fun c hc => ?_⟩
  by_cases hcd : c = d
  · subst hcd
    simpa using hfree
  · rw [Function.update_of_ne hcd, Function.update_of_ne hcd]
    exact hmap c (Set.mem_of_mem_insert_of_ne hc hcd)

-- ---------------------------------------------------------------------------
-- One call
-- ---------------------------------------------------------------------------

theorem Pools.getFreefp_cons (hp : Pools h devs D free) (hd : d ∈ D) (hf : free d = f :: rest) :
    ∃ q h', (∀ retfpn, memphyGetFreefp (devs d) retfpn h =
        some (0, f, { devs d with freeFpList := q }, h')) ∧
      Pools h' (Function.update devs d { devs d with freeFpList := q }) D
        (Function.update free d rest) := by
  obtain ⟨nodes, hl, hmap⟩ := hp
  obtain ⟨p, hp, hch⟩ := hl.chain d hd
  have hfd := hmap d hd
  rw [hf, List.map_cons] at hfd
  obtain ⟨⟨a, v⟩, l, hnodes, hv, hl'⟩ := List.map_eq_cons_iff.mp hfd
  rw [hnodes] at hch
  obtain ⟨rfl, hc, q, hq, htail⟩ := chain_cons_iff.1 hch
  have hhead := chain_head_not_mem hch
  refine ⟨v.fpNext, h.free a, fun retfpn => ?_, ?_⟩
  · rw [getFreefp_node (congrArg Slot.get hp) hc retfpn]
    simp only at hv
    rw [hv]
    rfl
  · -- the node that is freed is in no other list
    have hother : ∀ c ∈ D, c ≠ d → ∀ b ∈ (a, v) :: l, b.1 ∉ (nodes c).map Prod.fst :=
      fun c hc hne b hb =>
      hl.apart d hd c hc (Ne.symm hne) b.1 (by rw [hnodes]; exact List.mem_map_of_mem hb)
    have hupdate : Pools (h.free a) (Function.update devs d { devs d with freeFpList := v.fpNext })
        (insert d D)
        (Function.update free d rest) :=
      Pools.update hl hmap ?_ hq (htail.frame_free hhead) ?_ hl'
    · rwa [Set.insert_eq_of_mem hd] at hupdate
    · exact fun c hc hne b hb => free_cell_of_ne h fun he =>
        hother c hc hne (a, v) List.mem_cons_self (he ▸ hb)
    · intro c hc hne b hb
      obtain ⟨x, hx, rfl⟩ := List.mem_map.mp hb
      exact hother c hc hne x (List.mem_cons_of_mem _ hx)

theorem Pools.putFreefp (hp : Pools h devs D free) (hd : d ∈ D) (fpn : Int) :
    ∃ q h', memphyPutFreefp M (devs d) fpn h = some (0, { devs d with freeFpList := q }, h') ∧
      Pools h' (Function.update devs d { devs d with freeFpList := q }) D
        (Function.update free d (fpn :: free d)) := by
  obtain ⟨nodes, hl, hmap⟩ := hp
  obtain ⟨p, hp, hch⟩ := hl.chain d hd
  have hfresh : ∀ c ∈ D, M.addr h ∉ (nodes c).map Prod.fst := by
    intro c hc
    obtain ⟨_, -, hchc⟩ := hl.chain c hc
    exact hchc.fresh_not_mem (M.fresh h)
  refine ⟨.written (some (M.addr h)), h.set (M.addr h) ⟨.written fpn, (devs d).freeFpList⟩, ?_, ?_⟩
  · simp [memphyPutFreefp, Heap.malloc]
  · have hupdate : Pools (h.set (M.addr h) ⟨.written fpn, (devs d).freeFpList⟩)
        (Function.update devs d { devs d with freeFpList := .written (some (M.addr h)) })
          (insert d D)
        (Function.update free d (fpn :: free d)) :=
      Pools.update hl hmap ?_ rfl (.cons (set_cell_self _ _ _) hp
        (hch.frame_set (hfresh d hd) _)) ?_
        (by simp [hmap d hd])
    · rwa [Set.insert_eq_of_mem hd] at hupdate
    · exact fun c hc _ b hb => set_cell_of_ne h _ fun he => hfresh c hc (he ▸ hb)
    · intro c hc hne b hb
      rcases List.mem_cons.mp hb with rfl | hb
      · exact hfresh c hc
      · exact hl.apart d hd c hc (Ne.symm hne) b hb

-- ---------------------------------------------------------------------------
-- Formatting
-- ---------------------------------------------------------------------------

/-- Everything in `h₀` is as it was, and what is new does not point to it. -/
structure Over (h₀ h : FrameHeap) : Prop where
  kept : ∀ a v, h₀.cell a = some v → h.cell a = some v
  apart : ∀ a v q, h.cell a = some v → h₀.cell a = none → v.fpNext = .written (some q) →
    h₀.cell q = none

theorem Over.refl (h : FrameHeap) : Over h h where
  kept _ _ hc := hc
  apart a v _ hc hn := by
    rw [hn] at hc
    cases hc

theorem Over.fresh (ho : Over h₀ h) (ha : h.cell a = none) : h₀.cell a = none := by
  rw [Option.eq_none_iff_forall_ne_some]
  intro v hv
  rw [ho.kept a v hv] at ha
  cases ha

theorem Over.set (ho : Over h₀ h) (ha : h₀.cell a = none)
    (hv : ∀ q, v.fpNext = .written (some q) → h₀.cell q = none) : Over h₀ (h.set a v) where
  kept b w hb := by
    have hne : b ≠ a := fun he => by
      rw [he, ha] at hb
      cases hb
    rw [set_cell_of_ne h v hne]
    exact ho.kept b w hb
  apart b w q hb hnew hw := by
    by_cases hba : b = a
    · subst hba
      rw [set_cell_self] at hb
      cases hb
      exact hv q hw
    · rw [set_cell_of_ne h v hba] at hb
      exact ho.apart b w q hb hnew hw

theorem formatLoop_over (ho : Over h₀ h) (hfst : h₀.cell fst = none) (left : Nat) (iter : Int)
    (hloop : formatLoop M left iter fst h = some h') : Over h₀ h' := by
  induction left generalizing h fst iter with
  | zero =>
    cases hloop
    exact ho
  | succ left ih =>
    have hnew := ho.fresh (M.fresh h)
    simp only [formatLoop, Heap.malloc, modify_set, Option.bind_eq_bind, Option.bind_some,
      Option.bind_eq_some_iff] at hloop
    obtain ⟨h₁, hmod, hloop⟩ := hloop
    have ho₁ := ho.set hnew (v := ⟨.written iter, .written none⟩) fun q hq => by cases hq
    simp only [Heap.modify, Option.map_eq_some_iff] at hmod
    obtain ⟨v, -, rfl⟩ := hmod
    refine ih (ho₁.set hfst fun q hq => ?_) hnew (iter + 1) hloop
    cases hq
    exact hnew

theorem format_over (mp : MemphyStruct) (h : FrameHeap)
    (hfmt : memphyFormat M mp pagesz h = some (ret, mp', h')) : Over h h' ∧
      (0 < mp.maxsz.tdiv pagesz → ∃ a, mp'.freeFpList = .written (some a) ∧ h.cell a = none) := by
  simp only [memphyFormat] at hfmt
  split at hfmt
  · rename_i hn
    cases hfmt
    exact ⟨.refl _, fun hpos => absurd hn (Int.not_le.mpr hpos)⟩
  · simp only [Heap.malloc, FramephyStruct.raw, modify_set, Option.bind_eq_bind, Option.bind_some,
      Option.bind_eq_some_iff] at hfmt
    obtain ⟨h₁, hloop, hfmt⟩ := hfmt
    cases hfmt
    have ho := (Over.refl h).set (M.fresh h) (v := ⟨.written 0, .prior (M.prior h).2⟩)
      fun q hq => by cases hq
    exact ⟨formatLoop_over ho (M.fresh h) _ _ hloop, fun _ => ⟨_, rfl, M.fresh h⟩⟩

theorem init_over (hinit : initMemphy M mp maxSize randomflg h = some (ret, mp', h')) : Over h h' ∧
    (0 < maxSize.tdiv pagingPagesz → ∃ a, mp'.freeFpList = .written (some a) ∧
      h.cell a = none) := by
  obtain ⟨_, mp₁, hfmt, cursor, rfl⟩ := init_format hinit
  exact format_over _ h hfmt

theorem Over.chain (ho : Over h₀ h) (hch : Chain h FramephyStruct.fpNext p l)
    (hp : ∀ a, p = some a → h₀.cell a = none) : ∀ a ∈ l.map Prod.fst, h₀.cell a = none := by
  induction l generalizing p with
  | nil => exact fun _ ha => nomatch ha
  | cons x l ih =>
    obtain ⟨b, v⟩ := x
    obtain ⟨rfl, hc, q, hq, htail⟩ := chain_cons_iff.1 hch
    intro a ha
    rcases List.mem_cons.mp ha with rfl | ha
    · exact hp _ rfl
    · exact ih htail (fun a hqa => ho.apart b v a hc (hp b rfl) (by rw [hq, hqa])) a ha

theorem Pools.init_other (hp : Pools h devs D free) (hd : d ∉ D)
    (hinit : initMemphy M mp maxSize randomflg h = some (ret, mp', h')) :
    Pools h' (Function.update devs d mp') D free := by
  obtain ⟨ho, -⟩ := init_over hinit
  obtain ⟨nodes, ⟨hch, hapart⟩, hmap⟩ := hp
  refine ⟨nodes, ⟨fun c hc => ?_, hapart⟩, hmap⟩
  obtain ⟨p, hp, hch⟩ := hch c hc
  have hne : c ≠ d := ne_of_mem_of_not_mem hc hd
  rw [Function.update_of_ne hne]
  refine ⟨p, hp, hch.frame fun a ha => ?_⟩
  obtain ⟨x, hx, rfl⟩ := List.mem_map.mp ha
  rw [ho.kept x.1 x.2 (hch.live x hx), hch.live x hx]

theorem Pools.init (hp : Pools h devs D free) (d : DevId) (hsz : 2 * pagingPagesz ≤ maxSize)
    (hinit : initMemphy M mp maxSize randomflg h = some (ret, mp', h')) :
    Pools h' (Function.update devs d mp') (insert d D)
      (Function.update free d (frames (maxSize / pagingPagesz).toNat)) := by
  obtain ⟨ho, hhead⟩ := init_over hinit
  obtain ⟨mp₁, h₁, hinit₁, -, hf⟩ := init_freeList (M := M) mp maxSize randomflg h hsz
  rw [hinit] at hinit₁
  cases hinit₁
  obtain ⟨p, l, hp', hch, hmap'⟩ := hf
  obtain ⟨nodes, hl, hmap⟩ := hp
  have hnum : 0 < maxSize.tdiv pagingPagesz := by
    simp only [pagingPagesz] at hsz ⊢
    rw [Int.tdiv_eq_ediv_of_nonneg (by omega)]
    omega
  obtain ⟨a, ha, hnew⟩ := hhead hnum
  obtain rfl : p = some a := Slot.written.inj (hp'.symm.trans ha)
  have hfresh := ho.chain hch fun b hb => by
    cases hb
    exact hnew
  refine Pools.update hl hmap (fun c hc _ b hb => ?_) hp' hch (fun c hc _ b hb hb' => ?_) hmap'
  · obtain ⟨_, -, hchc⟩ := hl.chain c hc
    obtain ⟨x, hx, rfl⟩ := List.mem_map.mp hb
    rw [ho.kept x.1 x.2 (hchc.live x hx), hchc.live x hx]
  · obtain ⟨_, -, hchc⟩ := hl.chain c hc
    exact hchc.fresh_not_mem (hfresh b hb) hb'

-- ---------------------------------------------------------------------------
-- The devices of main
-- ---------------------------------------------------------------------------

def mram : DevId := 0

/-- `&mswp[sit]`. -/
def mswp (sit : Nat) : DevId := sit + 1

/-- The loop of `main` over `mswp`, from index `sit` on. -/
def initSwaps (M : FrameMalloc) (rdmflag : Int) :
    (memswpsz : List Int) → (sit : Nat) → Devices → FrameHeap → Option (Devices × FrameHeap)
  | [], _, devs, h => some (devs, h)
  | size :: memswpsz, sit, devs, h => do
    let (_, mp, h) ← initMemphy M (devs (mswp sit)) size rdmflag h
    initSwaps M rdmflag memswpsz (sit + 1) (Function.update devs (mswp sit) mp) h

/-- `main` from `init_memphy(&mram, ..)` on; `devs` are its local variables before. -/
def initDevices (M : FrameMalloc) (memramsz : Int) (memswpsz : List Int) (devs : Devices)
    (h : FrameHeap) :
    Option (Devices × FrameHeap) := do
  let rdmflag := 1
  let (_, mp, h) ← initMemphy M (devs mram) memramsz rdmflag h
  initSwaps M rdmflag memswpsz 0 (Function.update devs mram mp) h

def sizes (memramsz : Int) (memswpsz : List Int) : DevId → Int
  | 0 => memramsz
  | sit + 1 => memswpsz.getD sit 0

/-- The devices of two frames or more, whose lists are NULL-terminated (`device_frames`). -/
def Usable (size : DevId → Int) : Set DevId := {d | 2 * pagingPagesz ≤ size d}

def allFrames (size : DevId → Int) (d : DevId) : List Int := frames (size d / pagingPagesz).toNat

def Initialised (M : FrameMalloc) (size : Int) (mp' : MemphyStruct) : Prop :=
  ∃ mp h ret h', initMemphy M mp size 1 h = some (ret, mp', h')

structure Formatted (M : FrameMalloc) (size : DevId → Int) (n : Nat) (devs : Devices)
    (h : FrameHeap) :
    Prop where
  pools : Pools h devs (Usable size ∩ Set.Iio n) (allFrames size)
  init : ∀ d < n, Initialised M (size d) (devs d)

theorem init_total (mp : MemphyStruct) (maxSize randomflg : Int) (h : FrameHeap)
    (h0 : 0 ≤ maxSize) :
    ∃ mp' h', initMemphy M mp maxSize randomflg h = some (0, mp', h') := by
  rcases Int.lt_or_le 0 (maxSize.tdiv pagingPagesz) with hpos | hneg
  · obtain ⟨n, hn⟩ := Int.eq_succ_of_zero_lt hpos
    obtain ⟨_, _, _, h', hinit, -⟩ := init_built (M := M) mp maxSize randomflg h n h0 hn
    exact ⟨_, h', hinit⟩
  · obtain ⟨_, hinit⟩ := init_zero (M := M) mp maxSize randomflg h h0 hneg
    exact ⟨_, h, hinit⟩

theorem Formatted.step (hf : Formatted M size n devs h)
    (hinit : initMemphy M (devs n) (size n) 1 h = some (ret, mp', h')) :
    Formatted M size (n + 1) (Function.update devs n mp') h' := by
  constructor
  · by_cases husable : n ∈ Usable size
    · have hset : Usable size ∩ Set.Iio (n + 1) = insert n (Usable size ∩ Set.Iio n) := by
        ext d
        simp only [Set.mem_inter_iff, Set.mem_Iio, Set.mem_insert_iff, Nat.lt_succ_iff_lt_or_eq]
        constructor
        · rintro ⟨hd, hlt | rfl⟩
          · exact .inr ⟨hd, hlt⟩
          · exact .inl rfl
        · rintro (rfl | ⟨hd, hlt⟩)
          · exact ⟨husable, .inr rfl⟩
          · exact ⟨hd, .inl hlt⟩
      have hpools := hf.pools.init n husable hinit
      rw [hset]
      rwa [show frames (size n / pagingPagesz).toNat = allFrames size n from rfl,
        Function.update_eq_self] at hpools
    · have hset : Usable size ∩ Set.Iio (n + 1) = Usable size ∩ Set.Iio n := by
        ext d
        simp only [Set.mem_inter_iff, Set.mem_Iio, Nat.lt_succ_iff_lt_or_eq]
        constructor
        · rintro ⟨hd, hlt | rfl⟩
          · exact ⟨hd, hlt⟩
          · exact absurd hd husable
        · exact fun ⟨hd, hlt⟩ => ⟨hd, .inl hlt⟩
      rw [hset]
      exact hf.pools.init_other (fun hmem => husable hmem.1) hinit
  · intro d hd
    by_cases hdn : d = n
    · subst hdn
      rw [Function.update_self]
      exact ⟨_, _, _, _, hinit⟩
    · rw [Function.update_of_ne hdn]
      exact hf.init d (Nat.lt_of_le_of_ne (Nat.le_of_lt_succ hd) hdn)

theorem initSwaps_formatted {memswpsz : List Int} (hf : Formatted M size (mswp sit) devs h)
    (h0 : ∀ sz ∈ memswpsz, 0 ≤ sz)
    (hsize : ∀ i (hi : i < memswpsz.length), memswpsz[i] = size (mswp (sit + i))) :
    ∃ devs' h', initSwaps M 1 memswpsz sit devs h = some (devs', h') ∧
      Formatted M size (mswp (sit + memswpsz.length)) devs' h' := by
  induction memswpsz generalizing sit devs h with
  | nil => exact ⟨devs, h, rfl, hf⟩
  | cons sz memswpsz ih =>
    have hsz : sz = size (mswp sit) := hsize 0 (Nat.succ_pos _)
    obtain ⟨mp', h₁, hinit⟩ := init_total (M := M) (devs (mswp sit)) sz 1 h
      (h0 sz List.mem_cons_self)
    have hrest : ∀ i (hi : i < memswpsz.length), memswpsz[i] = size (mswp (sit + 1 + i)) := by
      intro i hi
      have hnext := hsize (i + 1) (Nat.succ_lt_succ hi)
      rwa [List.getElem_cons_succ, ← Nat.add_assoc, Nat.add_right_comm] at hnext
    have hstep : Formatted M size (mswp (sit + 1)) (Function.update devs (mswp sit) mp') h₁ :=
      hf.step (hsz ▸ hinit)
    obtain ⟨devs', h', hswaps, hf'⟩ :=
      ih hstep (fun sz hmem => h0 sz (List.mem_cons_of_mem _ hmem)) hrest
    refine ⟨devs', h', ?_, ?_⟩
    · simpa [initSwaps, hinit] using hswaps
    · rwa [List.length_cons, ← Nat.add_assoc, Nat.add_right_comm]

theorem initDevices_formatted (M : FrameMalloc) {memramsz : Int} {memswpsz : List Int}
    (h0 : ∀ size ∈ memramsz :: memswpsz, 0 ≤ size) (devs : Devices) (h : FrameHeap) :
    ∃ devs' h', initDevices M memramsz memswpsz devs h = some (devs', h') ∧
      Formatted M (sizes memramsz memswpsz) (mswp memswpsz.length) devs' h' := by
  obtain ⟨mp', h₁, hinit⟩ := init_total (M := M) (devs mram) memramsz 1 h (h0 _ List.mem_cons_self)
  have hempty : Usable (sizes memramsz memswpsz) ∩ Set.Iio mram = ∅ :=
    Set.eq_empty_of_forall_notMem fun d hd => Nat.not_lt_zero d hd.2
  have hf₀ : Formatted M (sizes memramsz memswpsz) mram devs h :=
    ⟨hempty ▸ pools_empty _ _ _, fun d hd => absurd hd (Nat.not_lt_zero d)⟩
  have hsize : ∀ i (hi : i < memswpsz.length), memswpsz[i] =
      sizes memramsz memswpsz (mswp (0 + i)) := by
    intro i hi
    show memswpsz[i] = memswpsz.getD (0 + i) 0
    simp [hi]
  have hf₁ : Formatted M (sizes memramsz memswpsz) (mswp 0) (Function.update devs mram mp') h₁ :=
    hf₀.step hinit
  obtain ⟨devs', h', hswaps, hf⟩ := initSwaps_formatted hf₁
    (fun sz hmem => h0 sz (List.mem_cons_of_mem _ hmem)) hsize
  refine ⟨devs', h', ?_, by rwa [Nat.zero_add] at hf⟩
  simpa [initDevices, hinit] using hswaps

theorem initSwaps_nonneg {memswpsz : List Int}
    (h : initSwaps M rdmflag memswpsz sit devs heap = some r) :
    ∀ size ∈ memswpsz, 0 ≤ size := by
  induction memswpsz generalizing sit devs heap with
  | nil => exact fun _ hmem => absurd hmem List.not_mem_nil
  | cons sz memswpsz ih =>
    simp only [initSwaps, Option.bind_eq_bind, Option.bind_eq_some_iff] at h
    obtain ⟨⟨_, mp, heap'⟩, hinit, hswaps⟩ := h
    exact List.forall_mem_cons.mpr ⟨init_nonneg hinit, ih hswaps⟩

/-- `main` does not get past a negative size. -/
theorem initDevices_nonneg (h : initDevices M memramsz memswpsz devs heap = some r) :
    ∀ size ∈ memramsz :: memswpsz, 0 ≤ size := by
  simp only [initDevices, Option.bind_eq_bind, Option.bind_eq_some_iff] at h
  obtain ⟨⟨_, mp, heap'⟩, hinit, hswaps⟩ := h
  exact List.forall_mem_cons.mpr ⟨init_nonneg hinit, initSwaps_nonneg hswaps⟩

theorem initDevices_defined_iff (M : FrameMalloc) (memramsz : Int) (memswpsz : List Int)
    (devs : Devices) (h : FrameHeap) :
    (∃ devs' h', initDevices M memramsz memswpsz devs h = some (devs', h')) ↔
      ∀ size ∈ memramsz :: memswpsz, 0 ≤ size := by
  constructor
  · rintro ⟨devs', h', hinit⟩
    exact initDevices_nonneg hinit
  · intro h0
    obtain ⟨devs', h', hinit, -⟩ := initDevices_formatted M h0 devs h
    exact ⟨devs', h', hinit⟩

-- ---------------------------------------------------------------------------
-- Runs of calls
-- ---------------------------------------------------------------------------

structure PoolState where
  devs : Devices
  heap : FrameHeap
  held : DevId → List Int

def poolNext (M : FrameMalloc) (s : PoolState) :
    DevId × FrameOp → Option ((DevId × FrameOp) × PoolState)
  | (d, op) => do
    let (op, t) ← frameNext M ⟨s.devs d, s.heap, s.held d⟩ op
    some ((d, op), ⟨Function.update s.devs d t.mp, t.heap, Function.update s.held d t.held⟩)

def poolSystem (M : FrameMalloc) (size : DevId → Int) (devs : Devices) (heap : FrameHeap) :
    System PoolState (DevId × FrameOp) where
  init s := s = ⟨devs, heap, fun _ => []⟩
  step s e t := e.1 ∈ Usable size ∧ poolNext M s e = some (e, t)

structure Shared (size : DevId → Int) (s : PoolState) (free : DevId → List Int) : Prop where
  pools : Pools s.heap s.devs (Usable size) free
  perm : ∀ d ∈ Usable size, (free d ++ s.held d).Perm (allFrames size d)

theorem shared_step (hs : Shared size s free) (hd : d ∈ Usable size)
    (hnext : poolNext M s (d, op) = some (e, t)) :
    ∃ free', Shared size t (Function.update free d free') ∧ ∀ e ≠ d, t.held e = s.held e := by
  obtain ⟨hpools, hperm⟩ := hs
  have hother : ∀ held' : List Int, ∀ e ≠ d, Function.update s.held d held' e = s.held e :=
    fun _ e he => Function.update_of_ne he ..
  have hperm' : ∀ free' held' : List Int, (free' ++ held').Perm (free d ++ s.held d) →
    ∀ c ∈ Usable size,
      (Function.update free d free' c ++ Function.update s.held d held' c).Perm
        (allFrames size c) := by
    intro free' held' hmoved c hc
    by_cases hcd : c = d
    · subst hcd
      simpa using hmoved.trans (hperm c hd)
    · rw [Function.update_of_ne hcd, Function.update_of_ne hcd]
      exact hperm c hc
  cases op with
  | get retfpn =>
    cases hfree : free d with
    | nil =>
      have hf := hpools.freeList hd
      rw [hfree] at hf
      simp only [poolNext, frameNext, getFreefp_nil hf] at hnext
      cases hnext
      refine ⟨[], ⟨?_, hperm' _ _ (by simp [hfree])⟩, hother _⟩
      rw [← hfree]
      simpa using hpools
    | cons f rest =>
      obtain ⟨q, h', hget, hpools'⟩ := hpools.getFreefp_cons hd hfree
      simp only [poolNext, frameNext, hget] at hnext
      cases hnext
      refine ⟨rest, ⟨hpools', hperm' _ _ ?_⟩, hother _⟩
      rw [hfree]
      exact List.perm_middle
  | put fpn =>
    obtain ⟨q, h', hput, hpools'⟩ := hpools.putFreefp (M := M) hd fpn
    have hheld : fpn ∈ s.held d := by
      by_contra hnot
      simp [poolNext, frameNext, hnot] at hnext
    simp only [poolNext, frameNext, hheld, if_true, hput] at hnext
    cases hnext
    exact ⟨fpn :: free d, ⟨hpools', hperm' _ _
      (List.perm_middle.symm.trans ((List.perm_cons_erase hheld).symm.append_left _))⟩, hother _⟩

theorem Shared.get_defined (hs : Shared size s free) (hd : d ∈ Usable size) (retfpn : Int) :
    (poolNext M s (d, .get retfpn)).isSome := by
  have hfree := hs.pools.freeList hd
  cases hd' : free d with
  | nil =>
    rw [hd'] at hfree
    simp [poolNext, frameNext, getFreefp_nil hfree]
  | cons f rest =>
    rw [hd'] at hfree
    obtain ⟨q, h₁, hget, -⟩ := getFreefp_cons hfree
    simp [poolNext, frameNext, hget]

theorem Shared.put_defined (hs : Shared size s free) (hd : d ∈ Usable size) (hf : f ∈ s.held d) :
    (poolNext M s (d, .put f)).isSome := by
  obtain ⟨q, h₁, hput, -⟩ := putFreefp_spec (M := M) (hs.pools.freeList hd) f
  simp [poolNext, frameNext, hf, hput]

theorem reachable_shared (hpools : Pools heap devs (Usable size) (allFrames size))
    (h : Reachable (poolSystem M size devs heap) s) : ∃ free, Shared size s free := by
  refine h.invariant (P := fun s => ∃ free, Shared size s free) ?_ ?_
  · rintro _ rfl
    exact ⟨allFrames size, hpools, fun d _ => by simp⟩
  · rintro s ⟨d, op⟩ t _ ⟨free, hs⟩ ⟨hd, hnext⟩
    obtain ⟨free', ht, -⟩ := shared_step hs hd hnext
    exact ⟨_, ht⟩

theorem formatted_pools {memswpsz : List Int}
    (hf : Formatted M (sizes memramsz memswpsz) (mswp memswpsz.length) devs h) :
    Pools h devs (Usable (sizes memramsz memswpsz)) (allFrames (sizes memramsz memswpsz)) := by
  have hset : Usable (sizes memramsz memswpsz) ∩ Set.Iio (mswp memswpsz.length) =
      Usable (sizes memramsz memswpsz) := by
    refine Set.inter_eq_left.mpr fun d hd => ?_
    by_contra hout
    cases d with
    | zero => exact hout (Nat.succ_pos _)
    | succ sit =>
      -- there is no such swap
      have hlen : memswpsz.length ≤ sit := Nat.le_of_succ_le_succ (Nat.not_lt.mp hout)
      have hzero : sizes memramsz memswpsz (sit + 1) = 0 := by simp [sizes, hlen]
      have hsz : 2 * pagingPagesz ≤ sizes memramsz memswpsz (sit + 1) := hd
      rw [hzero] at hsz
      exact absurd hsz (by decide)
  have hpools := hf.pools
  rwa [hset] at hpools

/-- `main` creates its devices exactly if no size in the configuration is negative, and they keep
their frames apart: in every order of calls no frame is lost or handed out twice, and no call
changes what is free in another device. -/
theorem devices_conserved (M : FrameMalloc) (memramsz : Int) (memswpsz : List Int) (devs : Devices)
    (h : FrameHeap) :
    ((∃ devs' h', initDevices M memramsz memswpsz devs h = some (devs', h')) ↔
      ∀ size ∈ memramsz :: memswpsz, 0 ≤ size) ∧
    ∀ devs' h', initDevices M memramsz memswpsz devs h = some (devs', h') →
      ∀ s, Reachable (poolSystem M (sizes memramsz memswpsz) devs' h') s →
        ∃ free, Pools s.heap s.devs (Usable (sizes memramsz memswpsz)) free ∧
          ∀ d ∈ Usable (sizes memramsz memswpsz),
            (free d).Nodup ∧ (∀ f ∈ free d, f ∉ s.held d) ∧
            (free d ++ s.held d).Perm (allFrames (sizes memramsz memswpsz) d) ∧
            (∀ retfpn, (poolNext M s (d, .get retfpn)).isSome) ∧
            (∀ f ∈ s.held d, (poolNext M s (d, .put f)).isSome) ∧
            ∀ op e t, poolNext M s (d, op) = some (e, t) →
              ∀ d' ∈ Usable (sizes memramsz memswpsz), d' ≠ d →
                FreeList t.heap (t.devs d') (free d') ∧ t.held d' = s.held d' := by
  refine ⟨initDevices_defined_iff M memramsz memswpsz devs h, fun devs' h' hinit s hs => ?_⟩
  obtain ⟨_, _, hinit', hf⟩ := initDevices_formatted M (initDevices_nonneg hinit) devs h
  rw [hinit] at hinit'
  cases hinit'
  obtain ⟨free, hshared⟩ := reachable_shared (formatted_pools hf) hs
  refine ⟨free, hshared.pools, fun d hd => ?_⟩
  have hperm := hshared.perm d hd
  obtain ⟨hnodup, -, hdisj⟩ := List.nodup_append.mp (hperm.nodup_iff.mpr (frames_nodup _))
  refine ⟨hnodup, fun f hff hfh => hdisj f hff f hfh rfl, hperm, hshared.get_defined hd,
    fun f hfh => hshared.put_defined hd hfh, ?_⟩
  intro op e t hnext d' hd' hne
  obtain ⟨free', ht, hheld⟩ := shared_step hshared hd hnext
  have hother := ht.pools.freeList hd'
  rw [Function.update_of_ne hne] at hother
  exact ⟨hother, hheld d' hne⟩

/-- A RAM and a swap of two frames each, and three swaps that are not used: after a call for the
swap the RAM has both its frames. -/
theorem devices_conserved_two : ∃ devs h s,
    initDevices (.bump (9, some 9)) 512 [512, 0, 0, 0]
      (fun _ => ⟨[], 0, 0, 0, .prior (some 4)⟩) .empty =
      some (devs, h) ∧
    Reachable (poolSystem (.bump (9, some 9)) (sizes 512 [512, 0, 0, 0]) devs h) s ∧
    s.held mram = [] ∧ ∃ free, FreeList s.heap (s.devs mram) free ∧ free.Perm [0, 1] := by
  obtain ⟨hboots, hruns⟩ := devices_conserved (.bump (9, some 9)) 512 [512, 0, 0, 0]
    (fun _ => ⟨[], 0, 0, 0, .prior (some 4)⟩) .empty
  obtain ⟨devs, h, hinit⟩ := hboots.2 (by decide)
  have hall := hruns devs h hinit
  have hram : mram ∈ Usable (sizes 512 [512, 0, 0, 0]) := show (512 : Int) ≤ 512 by decide
  have hswp : mswp 0 ∈ Usable (sizes 512 [512, 0, 0, 0]) := show (512 : Int) ≤ 512 by decide
  have h0 : Reachable (poolSystem (.bump (9, some 9)) (sizes 512 [512, 0, 0, 0]) devs h)
      ⟨devs, h, fun _ => []⟩ := ⟨[], .init rfl⟩
  obtain ⟨free, -, hconserved⟩ := hall _ h0
  obtain ⟨-, -, -, hget, -, hframe⟩ := hconserved (mswp 0) hswp
  obtain ⟨⟨e, t⟩, hnext⟩ := Option.isSome_iff_exists.mp (hget (-1))
  obtain ⟨hfree, hheld⟩ := hframe (.get (-1)) e t hnext mram hram (by decide)
  obtain ⟨-, -, hperm, -⟩ := hconserved mram hram
  have he : e = (mswp 0, .get (-1)) := by
    simp only [poolNext, frameNext, Option.bind_eq_bind, Option.bind_eq_some_iff] at hnext
    obtain ⟨_, ⟨_, -, hcall⟩, hnext⟩ := hnext
    cases hcall
    cases hnext
    rfl
  subst he
  refine ⟨devs, h, t, hinit, h0.step ⟨hswp, hnext⟩, hheld, free mram, hfree, ?_⟩
  rwa [List.append_nil] at hperm

end AssignmentOS.Mm
