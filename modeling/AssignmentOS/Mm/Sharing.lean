import AssignmentOS.Mm.Address
import AssignmentOS.Mm.Allocation
import AssignmentOS.Mm.Devices
import AssignmentOS.Mm.Exhaustion

/-!
# Processes that share the devices

What the memory functions do for one process among others: which calls leave
something undefined, and that the rest change the process's own `mm`, the head of
its own list of pages and the devices, and nothing that another process reads.
-/

namespace AssignmentOS.Mm

open Memory Fallible

variable {env : Env} {s s' t : MmState} {past : List Call} {free : DevId → List Int}

-- ---------------------------------------------------------------------------
-- The devices
-- ---------------------------------------------------------------------------

/-- The RAM and the swap that the loader gives to every process, among all devices in use. -/
structure Board where
  devices : Set DevId
  mram : DevId
  activeMswp : DevId
  memramsz : Int
  memswpsz : Int
  mram_mem : mram ∈ devices
  activeMswp_mem : activeMswp ∈ devices
  ne : mram ≠ activeMswp

def Board.caller (B : Board) : PcbDevices := ⟨some B.mram, some B.activeMswp⟩

/-- The devices hold what these calls have put there, newest first, and these frames are free. -/
structure Board.Stored (B : Board) (past : List Call) (free : DevId → List Int) (h : FrameHeap)
    (devs : Devices) : Prop where
  holds : Holds B.mram B.activeMswp B.memramsz B.memswpsz past devs
  pools : Pools h devs B.devices free

variable {B : Board}

def Board.taken (B : Board) (n : Nat) (free : DevId → List Int) : DevId → List Int :=
  Function.update free B.activeMswp ((free B.activeMswp).drop n)

@[simp] theorem Board.taken_zero (B : Board) (free : DevId → List Int) : B.taken 0 free = free := by
  simp [taken]

theorem Board.taken_add (B : Board) (m n : Nat) (free : DevId → List Int) :
    B.taken n (B.taken m free) = B.taken (m + n) free := by
  simp [taken, List.drop_drop]

theorem Board.taken_of_ne (B : Board) (n : Nat) (free : DevId → List Int) (hd : d ≠ B.activeMswp) :
    B.taken n free d = free d :=
  Function.update_of_ne hd ..

theorem Board.Stored.ram (h : B.Stored past free s.frames s.devs) :
    FreeList s.frames (s.devs B.mram) (free B.mram) :=
  h.pools.freeList B.mram_mem

theorem Holds.congr (hh : Holds r d ramsz swpsz past devs)
    (hdevs : ∀ e, (devs' e).storage = (devs e).storage ∧ (devs' e).maxsz = (devs e).maxsz ∧
      (devs' e).rdmflg = (devs e).rdmflg) : Holds r d ramsz swpsz past devs' := by
  have hbyte : ∀ e i, byteAt devs' e i = byteAt devs e i :=
    fun e i => by rw [byteAt, byteAt, (hdevs e).1]
  have haccess : ∀ e, RandomAccess (devs e) → RandomAccess (devs' e) := by
    rintro e ⟨hrdm, hlen, hint⟩
    obtain ⟨hst, hmax, hflg⟩ := hdevs e
    exact ⟨by rwa [hflg], by rwa [hst, hmax], by rwa [hmax]⟩
  exact ⟨haccess r hh.ram, haccess d hh.swp, (hdevs r).2.1.trans hh.ramMaxsz,
    (hdevs d).2.1.trans hh.swpMaxsz, fun a h0 ha => (hbyte r a).trans (hh.ramBytes a h0 ha),
    fun t j ht h0 hj => (hbyte d _).trans (hh.swapBytes t j ht h0 hj)⟩

/-- The devices of `main`, where `active_mswp` is the first swap. -/
def mainBoard (memramsz : Int) (memswpsz : List Int)
    (hram : mram ∈ Usable (sizes memramsz memswpsz))
    (hswp : mswp 0 ∈ Usable (sizes memramsz memswpsz)) : Board where
  devices := Usable (sizes memramsz memswpsz)
  mram := mram
  activeMswp := mswp 0
  memramsz := memramsz
  memswpsz := memswpsz.getD 0 0
  mram_mem := hram
  activeMswp_mem := hswp
  ne := Nat.zero_ne_one

theorem stored_formatted {memswpsz : List Int} (hram : mram ∈ Usable (sizes memramsz memswpsz))
    (hswp : mswp 0 ∈ Usable (sizes memramsz memswpsz)) (hint : memramsz < 0x80000000)
    (hint' : memswpsz.getD 0 0 < 0x80000000)
    (hf : Formatted M (sizes memramsz memswpsz) (mswp memswpsz.length) devs h) :
    (mainBoard memramsz memswpsz hram hswp).Stored []
      (allFrames (sizes memramsz memswpsz)) h devs := by
  have hswaps : 0 < memswpsz.length := by
    by_contra hnone
    obtain rfl : memswpsz = [] := List.eq_nil_of_length_eq_zero (Nat.eq_zero_of_not_pos hnone)
    have hsz : 2 * pagingPagesz ≤ 0 := hswp
    exact absurd hsz (by decide)
  obtain ⟨_, _, _, _, hram'⟩ := hf.init mram (Nat.succ_pos _)
  obtain ⟨_, _, _, _, hswp'⟩ := hf.init (mswp 0) (Nat.succ_lt_succ hswaps)
  exact ⟨Holds.init hram' hswp' Int.one_ne_zero Int.one_ne_zero hint hint', formatted_pools hf⟩

theorem stored_main (M : FrameMalloc) {memswpsz : List Int}
    (hram : mram ∈ Usable (sizes memramsz memswpsz))
    (hswp : mswp 0 ∈ Usable (sizes memramsz memswpsz)) (hint : memramsz < 0x80000000)
    (hint' : memswpsz.getD 0 0 < 0x80000000) (h0 : ∀ size ∈ memramsz :: memswpsz, 0 ≤ size)
    (devs : Devices) (h : FrameHeap) :
    ∃ devs' h', initDevices M memramsz memswpsz devs h = some (devs', h') ∧
      (mainBoard memramsz memswpsz hram hswp).Stored []
        (allFrames (sizes memramsz memswpsz)) h' devs' := by
  obtain ⟨devs', h', hinit, hf⟩ := initDevices_formatted M h0 devs h
  exact ⟨devs', h', hinit, stored_formatted hram hswp hint hint' hf⟩

theorem getFreefp_swap (h : B.Stored past free s.frames s.devs) (retfpn : Int) :
    ∃ ret fpn devs frames, s.getFreefp B.caller.activeMswp retfpn =
        .ok (ret, fpn, { s with devs := devs, frames := frames }) ∧
      B.Stored past (B.taken 1 free) frames devs := by
  cases hfree : free B.activeMswp with
  | nil =>
    have hf := h.pools.freeList B.activeMswp_mem
    rw [hfree] at hf
    refine ⟨-1, retfpn, s.devs, s.frames,
      by simp [MmState.getFreefp, Board.caller, getFreefp_nil hf], ?_⟩
    have hsame : B.taken 1 free = free := by
      rw [Board.taken, hfree, List.drop_nil, ← hfree, Function.update_eq_self]
    rwa [hsame]
  | cons f rest =>
    obtain ⟨q, frames, hget, hpools⟩ := h.pools.getFreefp_cons B.activeMswp_mem hfree
    refine ⟨0, f, Function.update s.devs B.activeMswp
      { s.devs B.activeMswp with freeFpList := q },
        frames, by simp [MmState.getFreefp, Board.caller, hget], ?_, ?_⟩
    · refine h.holds.congr fun e => ?_
      by_cases he : e = B.activeMswp
      · subst he
        simp
      · simp [Function.update_of_ne he]
    · rwa [Board.taken, hfree, List.drop_succ_cons, List.drop_zero]

-- ---------------------------------------------------------------------------
-- The pages of a process
-- ---------------------------------------------------------------------------

def HeadLive (s : MmState) : Prop := ∀ pg, s.mm.fifoPgn = some pg → s.pages.cell pg ≠ none

/-- From `s` to `s'` the process's `mm` becomes `mm`, up to its list of pages. Its head is
still live, and the pages that are not its head are not touched. -/
structure Paged (mm : MmStruct) (s s' : MmState) : Prop where
  mm : s'.mm = { mm with fifoPgn := s'.mm.fifoPgn }
  areas : s'.areas = s.areas
  head : HeadLive s'
  others : ∀ pg, s.pages.cell pg ≠ none → s.mm.fifoPgn ≠ some pg →
    s'.pages.cell pg ≠ none ∧ s'.mm.fifoPgn ≠ some pg

theorem Paged.refl (hlive : HeadLive s) : Paged s.mm s s where
  mm := rfl
  areas := rfl
  head := hlive
  others _ hpg hne := ⟨hpg, hne⟩

/-- `enlist_pgn_node` after the old head may have been freed. -/
theorem enlistPgnNode_paged (env : Env) (pgn : Int) (hmm : t.mm = s.mm) (hareas : t.areas = s.areas)
    (hpages : ∀ pg, s.mm.fifoPgn ≠ some pg → t.pages.cell pg = s.pages.cell pg) :
    Paged s.mm s (enlistPgnNode env pgn t).2 where
  mm := by simp [enlistPgnNode, hmm]
  areas := hareas
  head pg hpg := by
    obtain rfl := Option.some.inj hpg
    simp [enlistPgnNode, Heap.malloc]
  others pg hpg hne := by
    have hcell : t.pages.cell pg ≠ none := by rwa [hpages pg hne]
    have hnew : pg ≠ env.page.addr t.pages := fun he => hcell (he ▸ env.page.fresh t.pages)
    refine ⟨?_, fun he => hnew (Option.some.inj he).symm⟩
    rwa [show (enlistPgnNode env pgn t).2.pages.cell pg = t.pages.cell pg
      from set_cell_of_ne _ _ hnew]

theorem findVictimPage_spec (hlive : HeadLive s) :
    ∃ pages, findVictimPage s = .ok (0, { s with pages := pages }) ∧
      ∀ pg, s.mm.fifoPgn ≠ some pg → pages.cell pg = s.pages.cell pg := by
  unfold findVictimPage
  cases hfifo : s.mm.fifoPgn with
  | none => exact ⟨s.pages, rfl, fun _ _ => rfl⟩
  | some pg =>
    obtain ⟨v, hv⟩ := Option.ne_none_iff_exists'.mp (hlive pg hfifo)
    refine ⟨s.pages.free pg, by simp [hv], fun pg' hne => free_cell_of_ne _ fun he => hne ?_⟩
    rw [he]

theorem pgMiss_spec (env : Env) (h : B.Stored past free s.frames s.devs) (hlive : HeadLive s)
    (pgn : Int) :
    ∃ s', pgMiss env B.caller pgn s = .ok s' ∧ Paged s.mm s s' ∧
      B.Stored past (B.taken 1 free) s'.frames s'.devs := by
  obtain ⟨pages, hvictim, hpages⟩ := findVictimPage_spec hlive
  have h₁ : B.Stored past free { s with pages := pages }.frames { s with pages := pages }.devs := h
  obtain ⟨ret, fpn, devs, frames, hget, h₂⟩ := getFreefp_swap h₁ env.int
  refine ⟨_, ?_, enlistPgnNode_paged (t :=
    { s with pages := pages, devs := devs, frames := frames }) env pgn
    rfl rfl hpages, h₂⟩
  simp [pgMiss, hvictim, hget]

/-- How often the page of an address is looked up and not found online: once or not at all. -/
def pageMisses (mm : MmStruct) (addr : Int) : Nat :=
  match mm.pte (pagingPgn addr) with
  | some pte => if Absent pte then 1 else 0
  | none => 0

theorem pgAccess_spec (env : Env) (h : B.Stored past free s.frames s.devs) (hlive : HeadLive s)
    (addr : Int) :
    ∃ s', pgAccess env B.caller addr s = .ok (0, s') ∧ Paged s.mm s s' ∧
      B.Stored past (B.taken (pageMisses s.mm addr) free) s'.frames s'.devs := by
  obtain ⟨pte, hpte⟩ := pte_pagingPgn s.mm addr
  by_cases habs : Absent pte
  · obtain ⟨s', hmiss, hpaged, h'⟩ := pgMiss_spec env h hlive (pagingPgn addr)
    have hpte' : s'.mm.pte (pagingPgn addr) = some pte := by
      rw [hpaged.mm, ← hpte]
      exact MmStruct.pte_congr rfl _
    have hget : pgGetpage env B.caller (pagingPgn addr) s = .ok (0, (pagingFpn pte).toNat, s') := by
      have hp : pagingPagePresent pte = 0 := habs
      simp only [pgGetpage, hpte, need_some, ok_bind, if_pos hp, hmiss, hpte']
    refine ⟨s', by simp [pgAccess, hget], hpaged, ?_⟩
    simpa [pageMisses, hpte, habs] using h'
  · have hget : pgGetpage env B.caller (pagingPgn addr) s = .ok (0, (pagingFpn pte).toNat, s) :=
      pgGetpage_present hpte habs
    refine ⟨s, by simp [pgAccess, hget], .refl hlive, ?_⟩
    simpa [pageMisses, hpte, habs] using h

-- ---------------------------------------------------------------------------
-- The area of a process
-- ---------------------------------------------------------------------------

/-- The process has area 0 alone, with a list of free regions, as `init_mm` makes it. -/
def SoleArea (areas : Heap VmAreaStruct) (mmap : Ptr) : Prop :=
  ∃ a vma, mmap = some a ∧ areas.cell a = some vma ∧ vma.vmId = 0 ∧ vma.vmNext = none ∧
    vma.vmFreergList ≠ none

theorem SoleArea.lookup (h : SoleArea s.areas s.mm.mmap) : ∃ a vma, s.areas.cell a = some vma ∧
    vma.vmFreergList ≠ none ∧ (∀ vmaid ≤ 0, getVmaByNum s vmaid = .ok (some a)) ∧
    ∀ vmaid > 0, getVmaByNum s vmaid = .error .pointer := by
  obtain ⟨a, vma, hmmap, hcell, hid, hnext, hlist⟩ := h
  have hzero : longToInt vma.vmId = 0 := by
    rw [hid]
    decide
  refine ⟨a, vma, hcell, hlist, fun vmaid hle => ?_, fun vmaid hgt => ?_⟩
  · have hstop : ¬ 0 < vmaid := Int.not_lt.mpr hle
    simp [getVmaByNum, hmmap, hcell, hzero, vmaLoop, hstop]
  · have hgo : 0 < vmaid := hgt
    simp [getVmaByNum, hmmap, hcell, hzero, vmaLoop, hgo, hnext]

def AtMostOneArea (areas : Heap VmAreaStruct) (mmap : Ptr) : Prop :=
  mmap ≠ none → SoleArea areas mmap

theorem getVmaByNum_noArea (h : s.mm.mmap = none) (vmaid : Int) :
    getVmaByNum s vmaid = .ok none := by
  simp [getVmaByNum, h]

theorem printPgtbl_sole (h : SoleArea s.areas s.mm.mmap) : ∃ ptes, printPgtbl s = .ok ptes := by
  obtain ⟨a, vma, hcell, -, hvma, -⟩ := h.lookup
  simp [printPgtbl, hvma 0 (Int.le_refl 0), hcell]

section
variable {pg : Int → MmState → Except Fault (Int × MmState)}

theorem accessRegion_inTable (h : SoleArea s.areas s.mm.mmap) (hrg : s.mm.symrg rgid = some rg)
    (hpg : pg (regionAddr rg offset) s = .ok (ret, s')) :
    accessRegion pg 0 rgid offset s = .ok (0, s') := by
  obtain ⟨a, vma, -, -, hvma, -⟩ := h.lookup
  have hin : InTable rgid := by
    by_contra hout
    rw [symrg_of_not_inTable hout] at hrg
    cases hrg
  simp [accessRegion, hvma 0 (Int.le_refl 0), getSymrgByid_of_inTable hin, hrg, hpg]

theorem accessRegion_refused (h : SoleArea s.areas s.mm.mmap) (hsym : getSymrgByid rgid = none)
    (offset : Int) :
    accessRegion pg 0 rgid offset s = .ok (-1, s) := by
  obtain ⟨a, vma, -, -, hvma, -⟩ := h.lookup
  simp [accessRegion, hvma 0 (Int.le_refl 0), hsym]

theorem accessRegion_behind (h : SoleArea s.areas s.mm.mmap) (offset : Int) :
    accessRegion pg 0 pagingMaxSymtblSz offset s = .error .symrgtbl := by
  obtain ⟨a, vma, -, -, hvma, -⟩ := h.lookup
  have hsym : getSymrgByid pagingMaxSymtblSz = some pagingMaxSymtblSz := by decide
  exact accessRegion_outside hsym (fun hin => absurd hin.2 (Int.lt_irrefl _))
    (hvma 0 (Int.le_refl 0)) offset

end

-- ---------------------------------------------------------------------------
-- Growing
-- ---------------------------------------------------------------------------

/-- `inc_vma_limit` for the process's area, by a number of pages for which no frame is found. -/
def Grows (ram : List Int) (vmaid incSz : Int) : Prop :=
  vmaid ≤ 0 ∧ ∃ incAmt, pagingPageAlignsz incSz = some incAmt ∧
    (incAmt.tdiv pagingPagesz ≤ 0 ∨ ram = [])

def MmState.newRegions (env : Env) (s : MmState) : MmState :=
  { s with regions := ((s.regions.malloc env.region id).2.malloc env.region id).2 }

theorem incVmaLimit_eq (env : Env) (caller : PcbDevices) (vmaid incSz : Int) (s : MmState) :
    incVmaLimit env caller vmaid incSz s =
      need .overflow (pagingPageAlignsz incSz) >>= fun incAmt =>
        getVmaByNum s vmaid >>= fun curVma =>
          need .pointer (curVma.bind s.areas.cell) >>= fun vma =>
            allocPagesLoop env caller (incAmt.tdiv pagingPagesz).toNat
              (s.newRegions env) >>= fun t =>
              .ok (0, (enlistPgnNode env (pagingPgn (longToInt vma.vmEnd)) t).2) := by
  unfold incVmaLimit
  cases pagingPageAlignsz incSz with
  | none => rfl
  | some incAmt =>
    show (getVmaByNum s vmaid >>= _) = getVmaByNum s vmaid >>= _
    refine congrArg (getVmaByNum s vmaid >>= ·) (funext fun curVma => ?_)
    show (need Fault.pointer (curVma.bind s.areas.cell) >>= _) = _
    refine congrArg (need Fault.pointer (curVma.bind s.areas.cell) >>= ·) (funext fun vma => ?_)
    obtain ⟨rg, hrg⟩ : ∃ rg, (s.newRegions env).regions.cell
        (env.region.addr (s.regions.malloc env.region id).2) = some rg := ⟨_, set_cell_self _ _ _⟩
    show (need Fault.pointer ((s.newRegions env).regions.cell
      (env.region.addr (s.regions.malloc env.region id).2)) >>= _) = _
    rw [hrg, need_some, ok_bind, if_neg
      (show ¬ validateOverlapVmArea vmaid _ _ < 0 from Int.lt_irrefl 0)]
    show (vmMapRam env caller _ _ (s.newRegions env) >>= _) = _
    rw [vmMapRam_eq]
    cases allocPagesLoop env caller (incAmt.tdiv pagingPagesz).toNat (s.newRegions env) with
    | error e => rfl
    | ok t => simp [vmapPageRange]

theorem incVmaLimit_grows (env : Env) (h : B.Stored past free s.frames s.devs)
    (harea : SoleArea s.areas s.mm.mmap) (hgrows : Grows (free B.mram) vmaid incSz) :
    ∃ s', incVmaLimit env B.caller vmaid incSz s = .ok (0, s') ∧ Paged s.mm s s' ∧
      s'.devs = s.devs ∧ s'.frames = s.frames := by
  obtain ⟨hvmaid, incAmt, hamt, hpages⟩ := hgrows
  obtain ⟨a, vma, hcell, -, hvma, -⟩ := harea.lookup
  have hloop : allocPagesLoop env B.caller (incAmt.tdiv pagingPagesz).toNat (s.newRegions env) =
      .ok (s.newRegions env) := by
    rcases hpages with hneg | hnone
    · rw [Int.toNat_eq_zero.mpr hneg]
      rfl
    · have hram := h.ram
      rw [hnone] at hram
      exact allocPagesLoop_nil (s := s.newRegions env) env rfl hram _
  refine ⟨(enlistPgnNode env (pagingPgn (longToInt vma.vmEnd)) (s.newRegions env)).2, ?_,
    enlistPgnNode_paged env _ rfl rfl fun _ _ => rfl, rfl, rfl⟩
  simp [incVmaLimit_eq, hamt, hvma vmaid hvmaid, hcell, hloop]

theorem incVmaLimit_ok_grows (h : B.Stored past free s.frames s.devs)
    (harea : SoleArea s.areas s.mm.mmap) (hok : incVmaLimit env B.caller vmaid incSz s = .ok ret) :
    Grows (free B.mram) vmaid incSz := by
  obtain ⟨a, vma, hcell, -, -, hnone⟩ := harea.lookup
  simp only [incVmaLimit_eq, bind_eq_ok, need_eq_ok] at hok
  obtain ⟨incAmt, hamt, curVma, hcur, _, -, t, hloop, -⟩ := hok
  have hvmaid : vmaid ≤ 0 := by
    by_contra hgt
    rw [hnone vmaid (Int.not_le.mp hgt)] at hcur
    cases hcur
  refine ⟨hvmaid, incAmt, hamt, ?_⟩
  by_contra hpos
  obtain ⟨hpages, hsome⟩ := not_or.mp hpos
  obtain ⟨f, rest, hfree⟩ := List.exists_cons_of_ne_nil hsome
  have hram := h.ram
  rw [hfree] at hram
  obtain ⟨n, hn⟩ := Nat.exists_eq_succ_of_ne_zero fun hz => hpages (Int.toNat_eq_zero.mp hz)
  -- the first frame is stored through a null pointer
  rw [hn, Nat.succ_eq_add_one, allocPagesLoop_cons (s := s.newRegions env) env rfl hram] at hloop
  cases hloop

-- ---------------------------------------------------------------------------
-- The memory system call
-- ---------------------------------------------------------------------------

structure Board.Allows (B : Board) (ram : List Int) (mmap : Ptr) (regs : ScRegs) : Prop where
  inRange : regs.InRange B.memramsz B.memswpsz
  grows : asInt regs.a1 = sysmemIncOp → mmap ≠ none ∧ Grows ram (asInt regs.a2) (asInt regs.a3)

/-- A call as the devices see it; growing an area is none to them. -/
def storageCall (env : Env) (regs : ScRegs) : Option Call :=
  if asInt regs.a1 = sysmemIncOp then none else some ⟨regs, env.value, env.data⟩

theorem memmapCall_stores (h : B.Stored past free s.frames s.devs) (env : Env)
    (hin : regs.InRange B.memramsz B.memswpsz) (hop : asInt regs.a1 ≠ sysmemIncOp) :
    ∃ regs' devs', memmapCall env B.caller regs s = .ok (0, regs', { s with devs := devs' }) ∧
      B.Stored (⟨regs, env.value, env.data⟩ :: past) free s.frames devs' := by
  have hadm : regs.Admissible B.memramsz B.memswpsz := ⟨hop, hin.swap, hin.io⟩
  obtain ⟨regs', devs', hcall, he⟩ := h.holds.call (c := ⟨regs, env.value, env.data⟩)
    (incVmaLimitCall env B.caller) B.ne hadm (.ok s)
  refine ⟨regs', devs', ?_, h.holds.step B.ne hadm he, h.pools.congr fun d _ => ?_⟩
  · have hcall' : sysMemmap (incVmaLimitCall env B.caller) B.caller regs env.value env.data
        (.ok s) s.devs =
        some (0, regs', .ok s, devs') := hcall
    simp [memmapCall, hcall']
  · rw [(he.only d).1]

theorem memmapCall_inc_iff (hop : asInt regs.a1 = sysmemIncOp) (env : Env) (caller : PcbDevices)
    (s s' : MmState) : memmapCall env caller regs s = .ok (ret, regs', s') ↔
      ret = 0 ∧ regs' = regs ∧ ∃ ret, incVmaLimit env caller (asInt regs.a2) (asInt regs.a3) s =
        .ok (ret, s') := by
  simp only [memmapCall, sysMemmap, hop, sysmemMapOp, sysmemIncOp, Int.reduceEq, if_false, if_true,
    incVmaLimitCall]
  cases incVmaLimit env caller (asInt regs.a2) (asInt regs.a3) s with
  | error e => simp
  | ok r =>
    obtain ⟨ret₁, t⟩ := r
    constructor
    · intro h
      cases h
      exact ⟨rfl, rfl, ret₁, rfl⟩
    · rintro ⟨rfl, rfl, _, h⟩
      cases h
      rfl

theorem memmapCall_allowed (h : B.Stored past free s.frames s.devs) (hlive : HeadLive s)
    (harea : AtMostOneArea s.areas s.mm.mmap) (env : Env)
    (hallow : B.Allows (free B.mram) s.mm.mmap regs) :
    ∃ regs' s', memmapCall env B.caller regs s = .ok (0, regs', s') ∧ Paged s.mm s s' ∧
      B.Stored ((storageCall env regs).toList ++ past) free s'.frames s'.devs := by
  by_cases hop : asInt regs.a1 = sysmemIncOp
  · obtain ⟨hmmap, hgrows⟩ := hallow.grows hop
    obtain ⟨s', hinc, hpaged, hdevs, hframes⟩ := incVmaLimit_grows env h (harea hmmap) hgrows
    refine ⟨regs, s', (memmapCall_inc_iff hop env B.caller s s').2 ⟨rfl, rfl, 0, hinc⟩, hpaged, ?_⟩
    simpa [storageCall, hop, hdevs, hframes] using h
  · obtain ⟨regs', devs', hcall, h'⟩ := memmapCall_stores h env hallow.inRange hop
    have hpaged : Paged s.mm s { s with devs := devs' } :=
      ⟨rfl, rfl, hlive, fun _ hpg hne => ⟨hpg, hne⟩⟩
    refine ⟨regs', _, hcall, hpaged, ?_⟩
    simpa [storageCall, hop] using h'

theorem memmapCall_ok_allows (h : B.Stored past free s.frames s.devs)
    (harea : AtMostOneArea s.areas s.mm.mmap) (hok : memmapCall env B.caller regs s = .ok ret) :
    B.Allows (free B.mram) s.mm.mmap regs := by
  constructor
  · by_contra hout
    rw [← h.holds.ramMaxsz, ← h.holds.swpMaxsz] at hout
    have hfault : memmapCall env B.caller regs s = .error .storage :=
      (memmapCall_storage_iff env B.ne h.holds.ram h.holds.swp).2 hout
    rw [hok] at hfault
    cases hfault
  · intro hop
    obtain ⟨ret, regs', s'⟩ := ret
    obtain ⟨-, -, _, hinc⟩ := (memmapCall_inc_iff hop env B.caller s s').1 hok
    have hmmap : s.mm.mmap ≠ none := by
      intro hnone
      simp only [incVmaLimit_eq, getVmaByNum_noArea hnone, bind_eq_ok, ok_bind,
        Option.bind_none, need_none, error_bind] at hinc
      obtain ⟨_, -, ⟨⟩⟩ := hinc
    exact ⟨hmmap, incVmaLimit_ok_grows h (harea hmmap) hinc⟩

end AssignmentOS.Mm
