import AssignmentOS.Mm.Region

/-!
# Growing an area

`inc_vma_limit` with the functions below it, and `__sys_memmap` with it in
place. Much of this code is still to be written: of the frames it takes from the
RAM it keeps none, since the first one it gets is stored through a null pointer.
-/

namespace AssignmentOS.Mm

open Memory Fallible

variable {env : Env} {caller : PcbDevices} {s s' : MmState}

-- ---------------------------------------------------------------------------
-- mm.c
-- ---------------------------------------------------------------------------

/-- `vmap_page_range`; it enlists the first page and maps none. -/
def vmapPageRange (env : Env) (addr _pgnum : Int) (s : MmState) : Int × MmState :=
  let pgit := 0
  let pgn := pagingPgn addr
  (0, (enlistPgnNode env (pgn + pgit) s).2)

/-- The loop of `alloc_pages_range`, `left` turns before its end. -/
def allocPagesLoop (env : Env) (caller : PcbDevices) : (left : Nat) → MmState → Except Fault MmState
  | 0, s => .ok s
  | left + 1, s => do
    let (ret, _, s) ← s.getFreefp caller.mram env.int
    -- `newfp_str` is NULL
    if ret = 0 then .error .pointer else allocPagesLoop env caller left s

def allocPagesRange (env : Env) (caller : PcbDevices) (reqPgnum : Int) (s : MmState) :
    Except Fault (Int × MmState) := do
  let s ← allocPagesLoop env caller reqPgnum.toNat s
  .ok (0, s)

/-- `vm_map_ram`; the bounds and the region are passed on to nothing that reads them. -/
def vmMapRam (env : Env) (caller : PcbDevices) (mapstart incpgnum : Int) (s : MmState) :
    Except Fault (Int × MmState) := do
  let (retAlloc, s) ← allocPagesRange env caller incpgnum s
  if retAlloc < 0 ∧ retAlloc ≠ -3000 then .ok (-1, s)
  else if retAlloc = -3000 then .ok (-1, s)
  else .ok (0, (vmapPageRange env mapstart incpgnum s).2)

-- ---------------------------------------------------------------------------
-- mm-vm.c
-- ---------------------------------------------------------------------------

def pagingPageAlignsz (sz : Int) : Option Int := do
  let sum ← cint (sz + pagingPagesz)
  some ((sum - 1).tdiv pagingPagesz * pagingPagesz)

/-- `get_vm_area_node_at_brk`: a region with what the memory holds. -/
def getVmAreaNodeAtBrk (env : Env) (s : MmState) : Addr × MmState :=
  let (newrg, regions) := s.regions.malloc env.region id
  (newrg, { s with regions := regions })

def validateOverlapVmArea (_vmaid _vmastart _vmaend : Int) : Int := 0

def incVmaLimit (env : Env) (caller : PcbDevices) (vmaid incSz : Int) (s : MmState) :
    Except Fault (Int × MmState) := do
  let (_, regions) := s.regions.malloc env.region id
  let incAmt ← need .overflow (pagingPageAlignsz incSz)
  let incnumpage := incAmt.tdiv pagingPagesz
  let (area, s) := getVmAreaNodeAtBrk env { s with regions := regions }
  let curVma ← getVmaByNum s vmaid
  let vma ← need .pointer (curVma.bind s.areas.cell)
  let oldEnd := longToInt vma.vmEnd
  let rg ← need .pointer (s.regions.cell area)
  if validateOverlapVmArea vmaid (longToInt rg.rgStart) (longToInt rg.rgEnd) < 0 then .ok (-1, s)
  else do
    let (ret, s) ← vmMapRam env caller oldEnd incnumpage s
    .ok (if ret < 0 then -1 else 0, s)

-- ---------------------------------------------------------------------------
-- sys_mem.c
-- ---------------------------------------------------------------------------

/-- `inc_vma_limit` as `sysMemmap` calls it; a fault is carried on as the state. -/
def incVmaLimitCall (env : Env) (caller : PcbDevices) : IncVmaLimit (Except Fault MmState) :=
  fun vmaid incSz mm devs =>
    match mm with
    | .error e => some (0, .error e, devs)
    | .ok s =>
      match incVmaLimit env caller vmaid incSz { s with devs := devs } with
      | .error e => some (0, .error e, devs)
      | .ok (ret, s) => some (ret, .ok s, s.devs)

def memmapCall (env : Env) (caller : PcbDevices) (regs : ScRegs) (s : MmState) :
    Except Fault (Int × ScRegs × MmState) := do
  let (ret, regs, mm, devs) ← need .storage
    (sysMemmap (incVmaLimitCall env caller) caller regs env.value env.data (.ok s) s.devs)
  let s ← mm
  .ok (ret, regs, { s with devs := devs })

-- ---------------------------------------------------------------------------
-- Growing
-- ---------------------------------------------------------------------------

theorem allocPagesLoop_fails (env : Env) (caller : PcbDevices) (left : Nat) (s : MmState) :
    FailsOnly Fault.Paging (allocPagesLoop env caller left s) := by
  induction left generalizing s with
  | zero => exact failsOnly_ok _ _
  | succ left ih =>
    refine failsOnly_bind ((getFreefp_fails _ _ _).mono fun _ => .inl) fun a _ => ?_
    split
    split
    · exact failsOnly_error (by decide)
    · exact ih _

theorem vmMapRam_eq (env : Env) (caller : PcbDevices) (mapstart incpgnum : Int) (s : MmState) :
    vmMapRam env caller mapstart incpgnum s =
      allocPagesLoop env caller incpgnum.toNat s >>= fun s =>
        .ok (0, (vmapPageRange env mapstart incpgnum s).2) := by
  unfold vmMapRam allocPagesRange
  cases allocPagesLoop env caller incpgnum.toNat s with
  | error e => rfl
  | ok s' => rfl

theorem incVmaLimit_ok (h : incVmaLimit env caller vmaid incSz s = .ok (ret, s')) : ret = 0 := by
  simp only [incVmaLimit, validateOverlapVmArea, Int.lt_irrefl, if_false, bind_eq_ok,
    vmMapRam_eq] at h
  obtain ⟨_, -, _, -, _, -, _, -, ⟨_, _⟩, ⟨_, -, hmap⟩, h⟩ := h
  cases hmap
  cases h
  rfl

theorem incVmaLimit_fails (env : Env) (caller : PcbDevices) (vmaid incSz : Int) (s : MmState) :
    FailsOnly (fun e => e = .overflow ∨ e.Paging) (incVmaLimit env caller vmaid incSz s) := by
  have hpaging : ∀ e : Fault, e.Paging → e = .overflow ∨ e.Paging := fun e => .inr
  refine failsOnly_bind (failsOnly_need (.inl rfl) _) fun _ _ =>
    failsOnly_bind ((getVmaByNum_fails _ _).mono hpaging) fun _ _ =>
    failsOnly_bind (failsOnly_need (.inr (by decide)) _) fun _ _ =>
    failsOnly_bind (failsOnly_need (.inr (by decide)) _) fun _ _ => ?_
  split
  · exact failsOnly_ok _ _
  · rw [vmMapRam_eq]
    exact failsOnly_bind (failsOnly_bind ((allocPagesLoop_fails _ _ _ _).mono hpaging) fun _ _ =>
      failsOnly_ok _ _) fun _ _ => failsOnly_ok _ _

-- ---------------------------------------------------------------------------
-- The call
-- ---------------------------------------------------------------------------

/-- The operands name addresses and frames that the devices have. -/
structure ScRegs.InRange (regs : ScRegs) (ramsz swpsz : Int) : Prop where
  swap : asInt regs.a1 = sysmemSwpOp → WholeFrame ramsz (asInt regs.a2) ∧
    WholeFrame swpsz (asInt regs.a3)
  io : asInt regs.a1 = sysmemIoRead ∨ asInt regs.a1 = sysmemIoWrite →
    0 ≤ asInt regs.a2 ∧ asInt regs.a2 < ramsz

/-- The answer of what comes before is dropped, and 0 returned. -/
theorem ret_of_bind {x : Option α} {f : α → β}
    (h : (x.bind fun a => some ((0 : Int), f a)) = some (ret, b)) :
    ret = 0 := by
  obtain ⟨_, -, h⟩ := Option.bind_eq_some_iff.mp h
  cases h
  rfl

theorem sysMemmap_ret {inc : IncVmaLimit σ}
    (h : sysMemmap inc caller regs value data mm devs = some (ret, regs', mm', devs')) :
    ret = 0 := by
  simp only [sysMemmap, Option.bind_eq_bind] at h
  split at h
  · cases h
    rfl
  split at h
  · exact ret_of_bind h
  split at h
  · exact ret_of_bind h
  split at h
  · exact ret_of_bind h
  split at h
  · exact ret_of_bind h
  · cases h
    rfl

theorem memmapCall_ok (h : memmapCall env caller regs s = .ok (ret, regs', s')) : ret = 0 := by
  simp only [memmapCall, bind_eq_ok, need_eq_ok] at h
  obtain ⟨⟨_, _, _, _⟩, hcall, _, -, h⟩ := h
  cases h
  exact sysMemmap_ret hcall

theorem sysMemmap_inRange {inc : IncVmaLimit σ} (hr : RandomAccess (devs r))
    (hd : RandomAccess (devs d))
    (h : sysMemmap inc ⟨some r, some d⟩ regs value data mm devs = some ret) :
    regs.InRange (devs r).maxsz (devs d).maxsz := by
  constructor
  · intro hop
    simp only [sysMemmap, hop, sysmemSwpOp, sysmemMapOp, sysmemIncOp, Int.reduceEq,
      if_false, if_true, Option.bind_eq_bind, Option.bind_eq_some_iff] at h
    obtain ⟨_, hswap, -⟩ := h
    exact mmSwapPage_inRange hr hd hswap
  · rintro (hop | hop)
    · simp only [sysMemmap, hop, sysmemSwpOp, sysmemMapOp, sysmemIncOp, sysmemIoRead,
        Int.reduceEq, if_false, if_true, Option.bind_eq_bind, Option.bind_eq_some_iff] at h
      obtain ⟨_, hread, -⟩ := h
      exact ⟨(read_inRange hr hread).1, (read_inRange hr hread).2.1⟩
    · simp only [sysMemmap, hop, sysmemSwpOp, sysmemMapOp, sysmemIncOp, sysmemIoRead, sysmemIoWrite,
        Int.reduceEq, if_false, if_true, Option.bind_eq_bind, Option.bind_eq_some_iff] at h
      obtain ⟨_, hwrite, -⟩ := h
      exact ⟨(write_inRange hr hwrite).1, (write_inRange hr hwrite).2.1⟩

theorem memmapCall_inc (hop : asInt regs.a1 = sysmemIncOp) (caller : PcbDevices) :
    FailsOnly (fun e => e = .overflow ∨ e.Paging) (memmapCall env caller regs s) := by
  have hcall : ∃ ret, sysMemmap (incVmaLimitCall env caller) caller regs env.value env.data
      (.ok s) s.devs =
      some ret ∧
        ∀ e, ret.2.2.1 = .error e → incVmaLimit env caller (asInt regs.a2)
          (asInt regs.a3) s = .error e := by
    simp only [sysMemmap, hop, sysmemMapOp, sysmemIncOp, Int.reduceEq, if_false, if_true,
      incVmaLimitCall]
    cases hinc : incVmaLimit env caller (asInt regs.a2) (asInt regs.a3) s with
    | error e => exact ⟨_, rfl, fun _ he => by simpa using he⟩
    | ok ret => exact ⟨_, rfl, fun _ he => by cases he⟩
  obtain ⟨⟨ret, regs', mm, devs⟩, hcall, herr⟩ := hcall
  simp only [memmapCall, hcall, need_some, ok_bind]
  refine failsOnly_bind (fun e he => ?_) fun _ _ => failsOnly_ok _ _
  exact incVmaLimit_fails env caller _ _ s e (herr e he)

theorem memmapCall_storage_iff (env : Env) (hne : r ≠ d) (hr : RandomAccess (s.devs r))
    (hd : RandomAccess (s.devs d)) :
    memmapCall env ⟨some r, some d⟩ regs s = .error .storage ↔
      ¬ regs.InRange (s.devs r).maxsz (s.devs d).maxsz := by
  constructor
  · intro hstorage hin
    by_cases hop : asInt regs.a1 = sysmemIncOp
    · exact absurd (memmapCall_inc hop _ _ hstorage) (by decide)
    · obtain ⟨regs', devs', hcall, -⟩ :=
        sysMemmap_spec (incVmaLimitCall env ⟨some r, some d⟩) env.value
        env.data (.ok s) hne hr hd ⟨hop, hin.swap, hin.io⟩
      simp [memmapCall, hcall] at hstorage
  · intro hout
    have hcall : sysMemmap (incVmaLimitCall env ⟨some r, some d⟩)
      ⟨some r, some d⟩ regs env.value env.data
        (.ok s) s.devs = none := by
      rw [Option.eq_none_iff_forall_ne_some]
      exact fun ret hret => hout (sysMemmap_inRange hr hd hret)
    simp [memmapCall, hcall]

end AssignmentOS.Mm
