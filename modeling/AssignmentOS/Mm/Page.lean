import AssignmentOS.Mm.Space
import AssignmentOS.Mm.SwapPage

/-!
# Pages

Looking a page up and giving the frames of a process back, from `libmem.c`. The
entries of swapped pages are PRESENT too, but the code takes PRESENT alone for
residence, so both go wrong on some entries: `pg_getpage` on swapped ones,
`free_pcb_memph` on all that are not swapped.
-/

namespace AssignmentOS.Mm

open Memory Fallible

variable {env : Env} {caller : PcbDevices} {s s' : MmState}

-- ---------------------------------------------------------------------------
-- Entries
-- ---------------------------------------------------------------------------

def MmStruct.pte (mm : MmStruct) (pgn : Int) : Option (BitVec 32) :=
  if 0 ≤ pgn then mm.pgd[pgn.toNat]? else none

def Resident (pte : BitVec 32) : Prop :=
  pagingPagePresent pte ≠ 0 ∧ pte &&& pagingPteSwappedMask = 0

def Swapped (pte : BitVec 32) : Prop := pagingPagePresent pte ≠ 0 ∧ pte &&& pagingPteSwappedMask ≠ 0

def Absent (pte : BitVec 32) : Prop := pagingPagePresent pte = 0

instance : DecidablePred Resident := fun _ => inferInstanceAs (Decidable (_ ∧ _))
instance : DecidablePred Swapped := fun _ => inferInstanceAs (Decidable (_ ∧ _))
instance : DecidablePred Absent := fun _ => inferInstanceAs (Decidable (_ = _))

-- ---------------------------------------------------------------------------
-- mm.h
-- ---------------------------------------------------------------------------

def pagingAddrPgnLobit : Nat := 8
def pagingAddrPgnHibit : Nat := 21

def pagingPgnMask : BitVec 32 := genMask pagingAddrPgnHibit pagingAddrPgnLobit

/-- `PAGING_PGN` of an `int`. -/
def pagingPgn (addr : Int) : Int := (getVal (.ofInt 32 addr) pagingPgnMask pagingAddrPgnLobit).toNat

def pagingFpn (pte : BitVec 32) : BitVec 32 := getVal pte pagingPteFpnMask pagingPteFpnLobit

-- ---------------------------------------------------------------------------
-- Calls of other modules
-- ---------------------------------------------------------------------------

def MmState.getFreefp (s : MmState) (mp : Option DevId) (retfpn : Int) :
    Except Fault (Int × Int × MmState) := do
  let d ← need .pointer mp
  let (ret, retfpn, dev, frames) ← need .pointer (memphyGetFreefp (s.devs d) retfpn s.frames)
  .ok (ret, retfpn, { s with devs := Function.update s.devs d dev, frames := frames })

def MmState.putFreefp (env : Env) (s : MmState) (mp : Option DevId) (fpn : Int) :
    Except Fault (Int × MmState) := do
  let d ← need .pointer mp
  let (ret, dev, frames) ← need .pointer (memphyPutFreefp env.frame (s.devs d) fpn s.frames)
  .ok (ret, { s with devs := Function.update s.devs d dev, frames := frames })

/-- `enlist_pgn_node(&mm->fifo_pgn, pgn)`. -/
def enlistPgnNode (env : Env) (pgn : Int) (s : MmState) : Int × MmState :=
  let (pnode, pages) := s.pages.malloc env.page
    fun pg => { pg with pgn := pgn, pgNext := s.mm.fifoPgn }
  (0, { s with pages := pages, mm := { s.mm with fifoPgn := some pnode } })

-- ---------------------------------------------------------------------------
-- libmem.c
-- ---------------------------------------------------------------------------

/-- `find_victim_page`; `*retpgn` is not written. -/
def findVictimPage (s : MmState) : Except Fault (Int × MmState) := do
  match s.mm.fifoPgn with
  | none => .ok (0, s)
  | some pg =>
    let _ ← need .pointer (s.pages.cell pg)
    .ok (0, { s with pages := s.pages.free pg })

/-- The branch of `pg_getpage` for a page that is not online. -/
def pgMiss (env : Env) (caller : PcbDevices) (pgn : Int) (s : MmState) : Except Fault MmState := do
  let (_, s) ← findVictimPage s
  let (_, _, s) ← s.getFreefp caller.activeMswp env.int
  .ok (enlistPgnNode env pgn s).2

/-- `pg_getpage`: the return value, `*fpn` and the state. -/
def pgGetpage (env : Env) (caller : PcbDevices) (pgn : Int) (s : MmState) :
    Except Fault (Int × Int × MmState) := do
  let pte ← need .pgd (s.mm.pte pgn)
  let s ← (if pagingPagePresent pte = 0 then pgMiss env caller pgn s else .ok s)
  let pte ← need .pgd (s.mm.pte pgn)
  .ok (0, (pagingFpn pte).toNat, s)

/-- What `pg_getval` and `pg_setval` do: the page is looked up, the byte is not touched. -/
def pgAccess (env : Env) (caller : PcbDevices) (addr : Int) (s : MmState) :
    Except Fault (Int × MmState) := do
  let (ret, _, s) ← pgGetpage env caller (pagingPgn addr) s
  .ok (if ret ≠ 0 then -1 else 0, s)

def pgGetval (env : Env) (caller : PcbDevices) (addr : Int) (_data : Byte) (s : MmState) :
    Except Fault (Int × MmState) :=
  pgAccess env caller addr s

def pgSetval (env : Env) (caller : PcbDevices) (addr : Int) (_value : Byte) (s : MmState) :
    Except Fault (Int × MmState) :=
  pgAccess env caller addr s

def freePte (env : Env) (caller : PcbDevices) (pte : BitVec 32) (s : MmState) :
    Except Fault (Int × MmState) :=
  if pagingPagePresent pte = 0 then s.putFreefp env caller.mram (pagingPteFpn pte).toNat
  else s.putFreefp env caller.activeMswp (pagingPteSwp pte).toNat

/-- The loop of `free_pcb_memph`, `left` turns before its end. -/
def freePcbLoop (env : Env) (caller : PcbDevices) :
    (left : Nat) → (pagenum : Int) → MmState → Except Fault MmState
  | 0, _, s => .ok s
  | left + 1, pagenum, s => do
    let pte ← need .pgd (s.mm.pte pagenum)
    let (_, s) ← freePte env caller pte s
    freePcbLoop env caller left (pagenum + 1) s

def freePcbMemph (env : Env) (caller : PcbDevices) (s : MmState) :
    Except Fault (Int × MmState) := do
  let s ← freePcbLoop env caller pagingMaxPgn 0 s
  .ok (0, s)

-- ---------------------------------------------------------------------------
-- Looking a page up
-- ---------------------------------------------------------------------------

theorem getFreefp_mm (h : s.getFreefp mp retfpn = .ok (ret, fpn, s')) : s'.mm = s.mm := by
  simp only [MmState.getFreefp, bind_eq_ok, need_eq_ok] at h
  obtain ⟨d, -, ⟨_, _, _, _⟩, -, h⟩ := h
  cases h
  rfl

theorem findVictimPage_mm (h : findVictimPage s = .ok (ret, s')) : ret = 0 ∧ s'.mm = s.mm := by
  unfold findVictimPage at h
  split at h
  · cases h
    exact ⟨rfl, rfl⟩
  · simp only [bind_eq_ok] at h
    obtain ⟨_, -, h⟩ := h
    cases h
    exact ⟨rfl, rfl⟩

theorem pgMiss_pgd (h : pgMiss env caller pgn s = .ok s') : s'.mm.pgd = s.mm.pgd := by
  simp only [pgMiss, bind_eq_ok] at h
  obtain ⟨⟨_, s₁⟩, hvictim, ⟨_, _, s₂⟩, hget, h⟩ := h
  cases h
  show s₂.mm.pgd = s.mm.pgd
  rw [getFreefp_mm hget, (findVictimPage_mm hvictim).2]

theorem MmStruct.pte_congr {mm mm' : MmStruct} (h : mm'.pgd = mm.pgd) (pgn : Int) :
    mm'.pte pgn = mm.pte pgn := by
  unfold pte
  rw [h]

theorem getFreefp_fails (s : MmState) (mp : Option DevId) (retfpn : Int) :
    FailsOnly (· = .pointer) (s.getFreefp mp retfpn) :=
  failsOnly_bind (failsOnly_need (by rfl) _) fun _ _ =>
    failsOnly_bind (failsOnly_need (by rfl) _) fun _ _ => failsOnly_ok _ _

theorem pgMiss_fails (env : Env) (caller : PcbDevices) (pgn : Int) (s : MmState) :
    FailsOnly (· = .pointer) (pgMiss env caller pgn s) := by
  refine failsOnly_bind ?_ fun _ _ => failsOnly_bind (getFreefp_fails _ _ _)
    fun _ _ => failsOnly_ok _ _
  unfold findVictimPage
  split
  · exact failsOnly_ok _ _
  · exact failsOnly_bind (failsOnly_need (by rfl) _) fun _ _ => failsOnly_ok _ _

theorem pgAccess_fails (env : Env) (caller : PcbDevices) (addr : Int) (s : MmState) :
    FailsOnly Fault.Paging (pgAccess env caller addr s) := by
  refine failsOnly_bind ?_ fun _ _ => failsOnly_ok _ _
  refine failsOnly_bind (failsOnly_need (by decide) _) fun pte _ => failsOnly_bind ?_ fun _ _ =>
    failsOnly_bind (failsOnly_need (by decide) _) fun _ _ => failsOnly_ok _ _
  split
  · exact (pgMiss_fails env caller _ s).mono fun _ => .inl
  · exact failsOnly_ok _ _

theorem pgGetpage_ok (h : pgGetpage env caller pgn s = .ok (ret, fpn, s')) :
    ret = 0 ∧ s'.mm.pgd = s.mm.pgd ∧ ∃ pte, s.mm.pte pgn = some pte ∧
      fpn = (pagingFpn pte).toNat := by
  simp only [pgGetpage, bind_eq_ok, need_eq_ok] at h
  obtain ⟨pte, hpte, s₁, hs₁, pte', hpte', h⟩ := h
  cases h
  have hpgd : s'.mm.pgd = s.mm.pgd := by
    split at hs₁
    · exact pgMiss_pgd hs₁
    · cases hs₁
      rfl
  rw [MmStruct.pte_congr hpgd, hpte] at hpte'
  cases hpte'
  exact ⟨rfl, hpgd, pte, hpte, rfl⟩

theorem pgAccess_ret (h : pgAccess env caller addr s = .ok (ret, s')) : ret = 0 := by
  simp only [pgAccess, bind_eq_ok] at h
  obtain ⟨⟨_, _, _⟩, hget, h⟩ := h
  cases h
  simp [(pgGetpage_ok hget).1]

theorem pg_getpage_resident (h : pgGetpage env caller pgn s = .ok (ret, fpn, s')) :
    (ret = 0 → ∃ pte, s'.mm.pte pgn = some pte ∧ Resident pte ∧ fpn = (pagingPteFpn pte).toNat) ↔
      ∃ pte, s.mm.pte pgn = some pte ∧ Resident pte := by
  obtain ⟨rfl, hpgd, pte, hpte, rfl⟩ := pgGetpage_ok h
  rw [MmStruct.pte_congr hpgd]
  constructor
  · intro hret
    obtain ⟨pte', hpte', hres, -⟩ := hret rfl
    exact ⟨pte', hpte', hres⟩
  · rintro ⟨pte', hpte', hres⟩ -
    rw [hpte] at hpte'
    cases hpte'
    exact ⟨pte, hpte, hres, rfl⟩

theorem pgGetpage_present (hpte : s.mm.pte pgn = some pte) (hp : pagingPagePresent pte ≠ 0) :
    pgGetpage env caller pgn s = .ok (0, (pagingFpn pte).toNat, s) := by
  simp only [pgGetpage, hpte, need_some, ok_bind, if_neg hp]

def MmState.uniform (pte : BitVec 32) : MmState := .filled (blank 0) .empty pte

theorem uniform_pte (pte : BitVec 32) (pgn : Int) (h0 : 0 ≤ pgn) (hlt : pgn < pagingMaxPgn) :
    (MmState.uniform pte).mm.pte pgn = some pte := by
  have hidx : pgn.toNat < pagingMaxPgn := by omega
  simp [MmState.uniform, MmState.filled, MmStruct.pte, h0, hidx]

theorem pg_getpage_resident_five :
    ∃ pte, (MmState.uniform (pteSetFpn 0 5).2).mm.pte 3 = some pte ∧ Resident pte ∧
      (5 : Int) = (pagingPteFpn pte).toNat := by
  have hpte := uniform_pte (pteSetFpn 0 5).2 3 (by decide) (by decide)
  have hget : pgGetpage (.filled 0) ⟨some 0, some 1⟩ 3 (.uniform (pteSetFpn 0 5).2) =
      .ok (0, 5, _) :=
    pgGetpage_present hpte (by decide)
  exact (pg_getpage_resident hget).2 ⟨_, hpte, by decide⟩ rfl

/-- Page 3 is swapped out to frame 1 of the swap of type 1; the lookup takes the bits
of type and offset for frame 33 of the RAM. -/
theorem pg_getpage_resident_swapped :
    let pte := (pteSetSwap 0 1 1).2
    let s := MmState.uniform pte
    s.mm.pte 3 = some pte ∧ pgGetpage (.filled 0) ⟨some 0, some 1⟩ 3 s =
      .ok (0, 33, s) ∧ Swapped pte ∧
      ¬ Resident pte := by
  have hpte := uniform_pte (pteSetSwap 0 1 1).2 3 (by decide) (by decide)
  exact ⟨hpte, pgGetpage_present hpte (by decide), by decide, by decide⟩

-- ---------------------------------------------------------------------------
-- Giving the frames back
-- ---------------------------------------------------------------------------

def FreeLists (s : MmState) (r d : DevId) (ram swp : List Int) : Prop :=
  FreeList s.frames (s.devs r) ram ∧ FreeList s.frames (s.devs d) swp

def fpnOf (pte : BitVec 32) : Int := (pagingPteFpn pte).toNat

def swpOf (pte : BitVec 32) : Int := (pagingPteSwp pte).toNat

/-- The resident pages' frames have been added to the free list of the RAM, the
swapped pages' frames to that of the swap, and nothing else. -/
def Releases (s s' : MmState) (r d : DevId) (ram swp : List Int) : Prop :=
  ∃ ram' swp', FreeLists s' r d ram' swp' ∧
    ram'.Perm ((s.mm.pgd.toList.filter (Resident ·)).map fpnOf ++ ram) ∧
    swp'.Perm ((s.mm.pgd.toList.filter (Swapped ·)).map swpOf ++ swp)

def DistinctFrames (s : MmState) (ram swp : List Int) : Prop :=
  ((s.mm.pgd.toList.filter (Resident ·)).map fpnOf ++ ram).Nodup ∧
    ((s.mm.pgd.toList.filter (Swapped ·)).map swpOf ++ swp).Nodup

theorem putFreefp_free (env : Env) (hd : FreeList s.frames (s.devs d) free) (fpn : Int) :
    ∃ s', s.putFreefp env (some d) fpn = .ok (0, s') ∧ s'.mm = s.mm ∧
      FreeList s'.frames (s'.devs d) (fpn :: free) ∧
      ∀ d' free', d' ≠ d → FreeList s.frames (s.devs d') free' →
        FreeList s'.frames (s'.devs d') free' := by
  obtain ⟨q, h', hput, hf⟩ := putFreefp_spec (M := env.frame) hd fpn
  have hcall : s.putFreefp env (some d) fpn = .ok (0, { s with
      devs := Function.update s.devs d { s.devs d with freeFpList := q }, frames := h' }) := by
    simp [MmState.putFreefp, hput]
  refine ⟨_, hcall, rfl, ?_, fun d' free' hne hf' => ?_⟩
  · simpa using hf
  · simpa [Function.update_of_ne hne] using hf'.putFreefp_frame hput

theorem freePte_absent (env : Env) (hne : r ≠ d) (hl : FreeLists s r d ram swp) (hp : Absent pte) :
    ∃ s', freePte env ⟨some r, some d⟩ pte s = .ok (0, s') ∧ s'.mm = s.mm ∧
      FreeLists s' r d (fpnOf pte :: ram) swp := by
  obtain ⟨hr, hd⟩ := hl
  obtain ⟨s', hput, hmm, hr', hother⟩ := putFreefp_free env hr (fpnOf pte)
  exact ⟨s', (if_pos hp).trans hput, hmm, hr', hother d swp hne.symm hd⟩

theorem freePte_present (env : Env) (hne : r ≠ d) (hl : FreeLists s r d ram swp)
    (hp : ¬ Absent pte) :
    ∃ s', freePte env ⟨some r, some d⟩ pte s = .ok (0, s') ∧ s'.mm = s.mm ∧
      FreeLists s' r d ram (swpOf pte :: swp) := by
  obtain ⟨hr, hd⟩ := hl
  obtain ⟨s', hput, hmm, hd', hother⟩ := putFreefp_free env hd (swpOf pte)
  exact ⟨s', (if_neg hp).trans hput, hmm, hother r ram hne hr, hd'⟩

theorem freePcbLoop_spec (env : Env) (hne : r ≠ d) (hl : FreeLists s r d ram swp)
    (left pagenum : Nat) (hleft : pagenum + left = pagingMaxPgn) :
    ∃ s' ram' swp', freePcbLoop env ⟨some r, some d⟩ left pagenum s = .ok s' ∧
      FreeLists s' r d ram' swp' ∧
      ram'.Perm (((s.mm.pgd.toList.drop pagenum).filter (Absent ·)).map fpnOf ++ ram) ∧
      swp'.Perm (((s.mm.pgd.toList.drop pagenum).filter (¬ Absent ·)).map swpOf ++ swp) := by
  induction left generalizing s ram swp pagenum with
  | zero =>
    have hall : s.mm.pgd.toList.drop pagenum = [] := List.drop_eq_nil_of_le (by simp; omega)
    exact ⟨s, ram, swp, rfl, hl, by simp [hall], by simp [hall]⟩
  | succ left ih =>
    have hlt : pagenum < s.mm.pgd.toList.length := by simp; omega
    obtain ⟨pte, hget⟩ : ∃ pte, s.mm.pgd.toList[pagenum] = pte := ⟨_, rfl⟩
    have hpte : s.mm.pte pagenum = some pte := by
      simp [← hget, MmStruct.pte, show pagenum < pagingMaxPgn by omega]
    rw [List.drop_eq_getElem_cons hlt, hget]
    by_cases habs : Absent pte
    · obtain ⟨s₁, hturn, hmm, hl₁⟩ := freePte_absent env hne hl habs
      obtain ⟨s', ram', swp', hloop, hl', hram, hswp⟩ := ih hl₁ (pagenum + 1) (by omega)
      rw [hmm] at hram hswp
      refine ⟨s', ram', swp', ?_, hl', ?_, ?_⟩
      · simpa [freePcbLoop, hpte, hturn] using hloop
      · simpa [habs] using hram.trans List.perm_middle
      · simpa [habs] using hswp
    · obtain ⟨s₁, hturn, hmm, hl₁⟩ := freePte_present env hne hl habs
      obtain ⟨s', ram', swp', hloop, hl', hram, hswp⟩ := ih hl₁ (pagenum + 1) (by omega)
      rw [hmm] at hram hswp
      refine ⟨s', ram', swp', ?_, hl', ?_, ?_⟩
      · simpa [freePcbLoop, hpte, hturn] using hloop
      · simpa [habs] using hram
      · simpa [habs] using hswp.trans List.perm_middle

theorem freePcbMemph_spec (env : Env) (hne : r ≠ d) (hl : FreeLists s r d ram swp) :
    ∃ s' ram' swp', freePcbMemph env ⟨some r, some d⟩ s = .ok (0, s') ∧ FreeLists s' r d ram' swp' ∧
      ram'.Perm ((s.mm.pgd.toList.filter (Absent ·)).map fpnOf ++ ram) ∧
      swp'.Perm ((s.mm.pgd.toList.filter (¬ Absent ·)).map swpOf ++ swp) := by
  obtain ⟨s', ram', swp', hloop, hl', hram, hswp⟩ := freePcbLoop_spec env hne hl pagingMaxPgn 0 rfl
  exact ⟨s', ram', swp', by simpa [freePcbMemph, bind_eq_ok] using hloop, hl', hram, hswp⟩

theorem length_kinds (l : List (BitVec 32)) :
    (l.filter (¬ Absent ·)).length = (l.filter (Resident ·)).length +
      (l.filter (Swapped ·)).length := by
  induction l with
  | nil => rfl
  | cons pte l ih =>
    by_cases ha : Absent pte
    · have hr : ¬ Resident pte := fun hr => hr.1 ha
      have hs : ¬ Swapped pte := fun hs => hs.1 ha
      simpa [ha, hr, hs] using ih
    by_cases hr : Resident pte
    · have hs : ¬ Swapped pte := fun hs => hs.2 hr.2
      simp only [ha, hr, hs, not_false_eq_true, decide_true, decide_false, List.filter_cons_of_pos,
        List.filter_cons_of_neg, Bool.false_eq_true, List.length_cons]
      omega
    · have hs : Swapped pte := ⟨ha, fun hs => hr ⟨ha, hs⟩⟩
      simp only [ha, hr, hs, not_false_eq_true, decide_true, decide_false, List.filter_cons_of_pos,
        List.filter_cons_of_neg, Bool.false_eq_true, List.length_cons]
      omega

theorem all_swapped {l : List (BitVec 32)}
    (hram : (l.filter (Absent ·)).length = (l.filter (Resident ·)).length)
    (hswp : (l.filter (¬ Absent ·)).length = (l.filter (Swapped ·)).length) :
    ∀ pte ∈ l, Swapped pte := by
  have hkinds := length_kinds l
  have hres : (l.filter (Resident ·)) = [] := List.length_eq_zero_iff.mp (by omega)
  have habs : (l.filter (Absent ·)) = [] := List.length_eq_zero_iff.mp (by rw [hram, hres]; rfl)
  intro pte hpte
  have hnres : ¬ Resident pte := by simpa using List.filter_eq_nil_iff.mp hres pte hpte
  have hnabs : ¬ Absent pte := by simpa using List.filter_eq_nil_iff.mp habs pte hpte
  exact ⟨hnabs, fun hs => hnres ⟨hnabs, hs⟩⟩

theorem releases_iff (hl' : FreeLists s' r d ram' swp')
    (hram : ram'.Perm ((s.mm.pgd.toList.filter (Absent ·)).map fpnOf ++ ram))
    (hswp : swp'.Perm ((s.mm.pgd.toList.filter (¬ Absent ·)).map swpOf ++ swp)) :
    Releases s s' r d ram swp ↔ ∀ pte ∈ s.mm.pgd.toList, Swapped pte := by
  constructor
  · rintro ⟨ram'', swp'', hl'', hram', hswp'⟩
    obtain rfl := hl'.1.unique hl''.1
    obtain rfl := hl'.2.unique hl''.2
    refine all_swapped ?_ ?_
    · simpa using (hram.symm.trans hram').length_eq
    · simpa using (hswp.symm.trans hswp').length_eq
  · intro hall
    refine ⟨ram', swp', hl', ?_, ?_⟩
    · have habs : s.mm.pgd.toList.filter (Absent ·) = s.mm.pgd.toList.filter (Resident ·) :=
        List.filter_congr fun pte hpte =>
          decide_eq_decide.mpr (iff_of_false (hall pte hpte).1 fun hr => (hall pte hpte).2 hr.2)
      rwa [habs] at hram
    · have hpres : s.mm.pgd.toList.filter (¬ Absent ·) = s.mm.pgd.toList.filter (Swapped ·) :=
        List.filter_congr fun pte hpte =>
          decide_eq_decide.mpr (iff_of_true (hall pte hpte).1 (hall pte hpte))
      rwa [hpres] at hswp

theorem free_pcb_memph_releases (env : Env) (hne : r ≠ d) (hl : FreeLists s r d ram swp) :
    ∃ s', freePcbMemph env ⟨some r, some d⟩ s = .ok (0, s') ∧
      (Releases s s' r d ram swp ↔ ∀ pte ∈ s.mm.pgd.toList, Swapped pte) ∧
      (Releases s s' r d ram swp → DistinctFrames s ram swp →
        ∃ ram' swp', FreeLists s' r d ram' swp' ∧ ram'.Nodup ∧ swp'.Nodup) := by
  obtain ⟨s', ram', swp', hfree, hl', hram, hswp⟩ := freePcbMemph_spec env hne hl
  refine ⟨s', hfree, releases_iff hl' hram hswp, ?_⟩
  rintro ⟨ram'', swp'', hl'', hram', hswp'⟩ ⟨hdr, hds⟩
  exact ⟨ram'', swp'', hl'', hram'.nodup_iff.mpr hdr, hswp'.nodup_iff.mpr hds⟩

theorem uniform_freeLists (pte : BitVec 32) (r d : DevId) : FreeLists (.uniform pte) r d [] [] :=
  ⟨⟨none, [], rfl, .nil, rfl⟩, ⟨none, [], rfl, .nil, rfl⟩⟩

theorem free_pcb_memph_releases_swapped :
    ∃ s', freePcbMemph (.filled 0) ⟨some 0, some 1⟩ (.uniform (pteSetSwap 0 1 1).2) = .ok (0, s') ∧
      Releases (.uniform (pteSetSwap 0 1 1).2) s' 0 1 [] [] := by
  obtain ⟨s', hfree, hiff, -⟩ := free_pcb_memph_releases (.filled 0) Nat.zero_ne_one
    (uniform_freeLists (pteSetSwap 0 1 1).2 0 1)
  refine ⟨s', hfree, hiff.2 fun pte hpte => ?_⟩
  simp only [MmState.uniform, MmState.filled, Vector.toList_replicate, List.mem_replicate] at hpte
  rw [hpte.2]
  decide

/-- A process without a single page gives frame 0 back 16384 times. -/
theorem free_pcb_memph_releases_absent :
    DistinctFrames (.uniform 0) [] [] ∧
      ∃ s', freePcbMemph (.filled 0) ⟨some 0, some 1⟩ (.uniform 0) = .ok (0, s') ∧
        FreeList s'.frames (s'.devs 0) (List.replicate 16384 0) ∧
          ¬ Releases (.uniform 0) s' 0 1 [] [] := by
  have htable : (MmState.uniform 0).mm.pgd.toList = List.replicate 16384 0 :=
    Vector.toList_replicate
  have habs : ¬ Swapped 0 ∧ ¬ Resident 0 ∧ Absent 0 := by decide
  obtain ⟨s', ram', swp', hfree, hl', hram, hswp⟩ :=
    freePcbMemph_spec (.filled 0) Nat.zero_ne_one (uniform_freeLists 0 0 1)
  have hiff := releases_iff hl' hram hswp
  rw [htable] at hram hiff
  refine ⟨?_, s', hfree, ?_, fun hrel => ?_⟩
  · simp only [DistinctFrames, htable, habs, decide_false, Bool.false_eq_true, not_false_eq_true,
      List.filter_replicate_of_neg, List.map_nil, List.nil_append, List.nodup_nil, and_self]
  · have hzero : fpnOf 0 = 0 := by decide
    simp only [habs, decide_true, List.filter_replicate_of_pos, List.map_replicate, List.append_nil,
      hzero] at hram
    rw [← List.perm_replicate.mp hram]
    exact hl'.1
  · exact habs.1 (hiff.1 hrel 0 (List.mem_replicate.mpr ⟨by decide, rfl⟩))

end AssignmentOS.Mm
