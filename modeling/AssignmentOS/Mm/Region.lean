import AssignmentOS.Lib.Walk
import AssignmentOS.Mm.Page
import AssignmentOS.Mm.SysMem

/-!
# Regions

`get_vma_by_num` of `mm-vm.c` and the region operations of `libmem.c`. Each of
the four that the CPU calls reaches `symrgtbl` by its own path: `__alloc` does
not look at the index, `__free` only looks at it, and `get_symrg_byid` takes one
index too many.
-/

namespace AssignmentOS.Mm

open Memory Fallible Walk

variable {env : Env} {caller : PcbDevices} {s s' : MmState}

-- ---------------------------------------------------------------------------
-- mm-vm.c
-- ---------------------------------------------------------------------------

/-- The loop of `get_vma_by_num`. -/
def vmaLoop (areas : Heap VmAreaStruct) (vmaid : Int) :
    (fuel : Nat) → (pvma : Ptr) → (vmait : Int) → Except Fault Ptr
  | 0, _, _ => .error .forever
  | fuel + 1, pvma, vmait =>
    if vmait < vmaid then
      match pvma with
      | none => .ok none
      | some a => do
        let vma ← need .pointer (areas.cell a)
        -- `vmait = pvma->vm_id` follows the new pointer before it is tested
        let next ← need .pointer (vma.vmNext.bind areas.cell)
        vmaLoop areas vmaid fuel vma.vmNext (longToInt next.vmId)
    else .ok pvma

/-- More turns than there are areas mean that the loop never ends (`vmaLoop_forever`). -/
def getVmaByNum (s : MmState) (vmaid : Int) : Except Fault Ptr :=
  match s.mm.mmap with
  | none => .ok none
  | some a => do
    let pvma ← need .pointer (s.areas.cell a)
    vmaLoop s.areas vmaid (s.areas.bound + 1) (some a) (longToInt pvma.vmId)

-- ---------------------------------------------------------------------------
-- libmem.c
-- ---------------------------------------------------------------------------

def MmStruct.symrg (mm : MmStruct) (rgid : Int) : Option VmRgStruct :=
  if 0 ≤ rgid then mm.symrgtbl[rgid.toNat]? else none

def MmStruct.setSymrg (mm : MmStruct) (rgid : Int)
    (f : VmRgStruct → VmRgStruct) : Option MmStruct := do
  let rg ← mm.symrg rgid
  some { mm with symrgtbl := mm.symrgtbl.setIfInBounds rgid.toNat (f rg) }

/-- `get_symrg_byid`: the index whose address it returns. -/
def getSymrgByid (rgid : Int) : Option Int :=
  if rgid < 0 ∨ rgid > pagingMaxSymtblSz then none else some rgid

/-- `get_free_vmrg_area`: the return value and `*newrg`. -/
def getFreeVmrgArea (s : MmState) (vmaid _size : Int) (newrg : VmRgStruct) :
    Except Fault (Int × VmRgStruct) := do
  let curVma ← getVmaByNum s vmaid
  let vma ← need .pointer (curVma.bind s.areas.cell)
  match vma.vmFreergList with
  | none => .ok (-1, newrg)
  | some _ => .ok (0, { newrg with rgStart := .ofInt (-1), rgEnd := .ofInt (-1) })

/-- `__alloc`: the return value, `*alloc_addr` and the state. -/
def mmAlloc (env : Env) (s : MmState) (vmaid rgid size allocAddr : Int) :
    Except Fault (Int × Int × MmState) := do
  let (ret, rgnode) ← getFreeVmrgArea s vmaid size env.rgnode
  if ret = 0 then do
    let mm ← need .symrgtbl (s.mm.setSymrg rgid fun rg =>
      { rg with rgStart := rgnode.rgStart, rgEnd := rgnode.rgEnd })
    .ok (0, longToInt rgnode.rgStart, { s with mm := mm })
  else .ok (0, allocAddr, s)

/-- `__free`. -/
def mmFree (_vmaid rgid : Int) : Int :=
  if rgid < 0 ∨ rgid > pagingMaxSymtblSz then -1 else 0

def liballoc (env : Env) (s : MmState) (size regIndex : UInt32) : Except Fault (Int × MmState) := do
  let (ret, _, s) ← mmAlloc env s 0 (asInt regIndex) (asInt size) env.int
  .ok (ret, s)

def libfree (s : MmState) (regIndex : UInt32) : Except Fault (Int × MmState) :=
  .ok (mmFree 0 (asInt regIndex), s)

/-- The address that `__read` and `__write` look up, an `unsigned long` passed as an `int`. -/
def regionAddr (currg : VmRgStruct) (offset : Int) : Int :=
  longToInt (currg.rgStart + .ofInt offset)

/-- What `__read` and `__write` do: look the address up, and ignore what comes of it. -/
def accessRegion (pg : Int → MmState → Except Fault (Int × MmState)) (vmaid rgid offset : Int)
    (s : MmState) :
    Except Fault (Int × MmState) := do
  let curVma ← getVmaByNum s vmaid
  match getSymrgByid rgid, curVma with
  | some i, some _ => do
    let currg ← need .symrgtbl (s.mm.symrg i)
    let (_, s) ← pg (regionAddr currg offset) s
    .ok (0, s)
  | _, _ => .ok (-1, s)

/-- `__read`. -/
def mmRead (env : Env) (caller : PcbDevices) (vmaid rgid offset : Int) (data : Byte) (s : MmState) :
    Except Fault (Int × MmState) :=
  accessRegion (fun addr => pgGetval env caller addr data) vmaid rgid offset s

/-- `__write`. -/
def mmWrite (env : Env) (caller : PcbDevices) (vmaid rgid offset : Int) (value : Byte)
    (s : MmState) :
    Except Fault (Int × MmState) :=
  accessRegion (fun addr => pgSetval env caller addr value) vmaid rgid offset s

/-- `print_pgtbl(caller, 0, -1)`: the entries it prints. A page number has 14 bits,
so they all lie in the table. -/
def printPgtbl (s : MmState) : Except Fault (List (BitVec 32)) := do
  let curVma ← getVmaByNum s 0
  let vma ← need .pointer (curVma.bind s.areas.cell)
  .ok (s.mm.pgd.toList.take (pagingPgn (longToInt vma.vmEnd)).toNat)

/-- `libread`: the return value, `*destination` and the state. -/
def libread (env : Env) (caller : PcbDevices) (source offset destination : UInt32) (s : MmState) :
    Except Fault (Int × UInt32 × MmState) := do
  let (val, s) ← mmRead env caller 0 (asInt source) (asInt offset) env.value s
  let _ ← printPgtbl s
  .ok (val, destination, s)

def libwrite (env : Env) (caller : PcbDevices) (data : Byte) (destination offset : UInt32)
    (s : MmState) :
    Except Fault (Int × MmState) := do
  let _ ← printPgtbl s
  mmWrite env caller 0 (asInt destination) (asInt offset) data s

-- ---------------------------------------------------------------------------
-- Looking an area up
-- ---------------------------------------------------------------------------

def vmaStep (areas : Heap VmAreaStruct) (vmaid : Int) (a : Addr) : Option Addr := do
  let vma ← areas.cell a
  let b ← vma.vmNext
  let _ ← areas.cell b
  if longToInt vma.vmId < vmaid then some b else none

theorem vmaStep_eq_some {areas : Heap VmAreaStruct} :
    vmaStep areas vmaid a = some b ↔ ∃ vma next, areas.cell a = some vma ∧
      longToInt vma.vmId < vmaid ∧
      vma.vmNext = some b ∧ areas.cell b = some next := by
  simp only [vmaStep, Option.bind_eq_bind, Option.bind_eq_some_iff, Option.ite_none_right_eq_some,
    Option.some.injEq]
  constructor
  · rintro ⟨vma, ha, b', hb', next, hnext, hlt, rfl⟩
    exact ⟨vma, next, ha, hlt, hb', hnext⟩
  · rintro ⟨vma, next, ha, hlt, hb, hnext⟩
    exact ⟨vma, ha, b, hb, next, hnext, hlt, rfl⟩

theorem vmaLoop_eq_forever_iff {areas : Heap VmAreaStruct} (fuel : Nat)
    (ha : areas.cell a = some vma) :
    vmaLoop areas vmaid fuel (some a) (longToInt vma.vmId) = .error .forever ↔
      (walk (vmaStep areas vmaid) fuel a).isSome := by
  induction fuel generalizing a vma with
  | zero => simp [vmaLoop, walk]
  | succ fuel ih =>
    by_cases hlt : longToInt vma.vmId < vmaid
    · cases hnext : vma.vmNext.bind areas.cell with
      | none =>
        have hstop : vmaStep areas vmaid a = none := by
          rw [Option.eq_none_iff_forall_ne_some]
          intro b hb
          obtain ⟨vma', next, ha', -, hb', hcell⟩ := vmaStep_eq_some.1 hb
          obtain rfl := Option.some.inj (ha.symm.trans ha')
          simp [hb', hcell] at hnext
        simp [vmaLoop, walk, hlt, ha, hnext, hstop]
      | some next =>
        obtain ⟨b, hb, hcell⟩ := Option.bind_eq_some_iff.mp hnext
        have hstep : vmaStep areas vmaid a = some b :=
          vmaStep_eq_some.2 ⟨vma, next, ha, hlt, hb, hcell⟩
        simpa [vmaLoop, walk, hlt, ha, hnext, hb, hcell, hstep] using ih hcell
    · have hstop : vmaStep areas vmaid a = none := by
        rw [Option.eq_none_iff_forall_ne_some]
        intro b hb
        obtain ⟨vma', next, ha', hlt', -⟩ := vmaStep_eq_some.1 hb
        obtain rfl := Option.some.inj (ha.symm.trans ha')
        exact hlt hlt'
      simp [vmaLoop, walk, hlt, hstop]

/-- When the search runs out of fuel no amount of it is enough. -/
theorem vmaLoop_forever {areas : Heap VmAreaStruct} (ha : areas.cell a = some vma)
    (h : vmaLoop areas vmaid (areas.bound + 1) (some a) (longToInt vma.vmId) = .error .forever)
    (fuel : Nat) :
    vmaLoop areas vmaid fuel (some a) (longToInt vma.vmId) = .error .forever := by
  rw [vmaLoop_eq_forever_iff _ ha] at h ⊢
  refine walk_forever (fun c b hb => ?_) h fuel
  obtain ⟨_, next, -, -, -, hcell⟩ := vmaStep_eq_some.1 hb
  exact areas.live_lt b next hcell

theorem vmaLoop_fails (areas : Heap VmAreaStruct) (vmaid : Int) (fuel : Nat) (pvma : Ptr)
    (vmait : Int) :
    FailsOnly Fault.Paging (vmaLoop areas vmaid fuel pvma vmait) := by
  induction fuel generalizing pvma vmait with
  | zero => exact failsOnly_error (by decide)
  | succ fuel ih =>
    unfold vmaLoop
    split
    · cases pvma with
      | none => exact failsOnly_ok _ _
      | some a =>
        exact failsOnly_bind (failsOnly_need (by decide) _) fun _ _ =>
          failsOnly_bind (failsOnly_need (by decide) _) fun _ _ => ih _ _
    · exact failsOnly_ok _ _

theorem getVmaByNum_fails (s : MmState) (vmaid : Int) :
    FailsOnly Fault.Paging (getVmaByNum s vmaid) := by
  unfold getVmaByNum
  split
  · exact failsOnly_ok _ _
  · exact failsOnly_bind (failsOnly_need (by decide) _) fun _ _ => vmaLoop_fails _ _ _ _ _

theorem printPgtbl_fails (s : MmState) : FailsOnly Fault.Paging (printPgtbl s) :=
  failsOnly_bind (getVmaByNum_fails s 0) fun _ _ =>
    failsOnly_bind (failsOnly_need (by decide) _) fun _ _ => failsOnly_ok _ _

theorem printPgtbl_none (h : getVmaByNum s 0 = .ok none) : printPgtbl s = .error .pointer := by
  simp [printPgtbl, h]

-- ---------------------------------------------------------------------------
-- Indexes
-- ---------------------------------------------------------------------------

def InTable (rgid : Int) : Prop := 0 ≤ rgid ∧ rgid < pagingMaxSymtblSz

theorem symrg_of_inTable (hi : InTable rgid) (mm : MmStruct) : ∃ rg, mm.symrg rgid = some rg := by
  obtain ⟨h0, hlt⟩ := hi
  have hidx : rgid.toNat < pagingMaxSymtblSz := by omega
  exact ⟨mm.symrgtbl[rgid.toNat], by simp [MmStruct.symrg, h0, hidx]⟩

theorem symrg_of_not_inTable (hi : ¬ InTable rgid) (mm : MmStruct) : mm.symrg rgid = none := by
  unfold MmStruct.symrg
  split
  · exact Vector.getElem?_eq_none (by unfold InTable at hi; omega)
  · rfl

theorem getSymrgByid_of_inTable (hi : InTable rgid) : getSymrgByid rgid = some rgid := by
  have hlo : ¬ rgid < 0 := Int.not_lt.mpr hi.1
  have hhi : ¬ rgid > pagingMaxSymtblSz := Int.not_lt.mpr (Int.le_of_lt hi.2)
  simp [getSymrgByid, hlo, hhi]

-- ---------------------------------------------------------------------------
-- The operations
-- ---------------------------------------------------------------------------

section
variable {pg : Int → MmState → Except Fault (Int × MmState)}

theorem accessRegion_fails (hpg : ∀ addr s, FailsOnly Fault.Paging (pg addr s)) (vmaid : Int)
    (hi : InTable rgid) (offset : Int) (s : MmState) :
    FailsOnly Fault.Paging (accessRegion pg vmaid rgid offset s) := by
  obtain ⟨rg, hrg⟩ := symrg_of_inTable hi s.mm
  refine failsOnly_bind (getVmaByNum_fails s vmaid) fun curVma _ => ?_
  rw [getSymrgByid_of_inTable hi]
  cases curVma with
  | none => exact failsOnly_ok _ _
  | some a =>
    simp only [hrg, need_some, ok_bind]
    exact failsOnly_bind (hpg _ _) fun _ _ => failsOnly_ok _ _

theorem accessRegion_fails_any (hpg : ∀ addr s, FailsOnly Fault.Paging (pg addr s))
    (vmaid rgid offset : Int) (s : MmState) :
    FailsOnly (fun e => e = .symrgtbl ∨ e.Paging) (accessRegion pg vmaid rgid offset s) := by
  have hpaging : ∀ e : Fault, e.Paging → e = .symrgtbl ∨ e.Paging := fun e => .inr
  refine failsOnly_bind ((getVmaByNum_fails s vmaid).mono hpaging) fun curVma _ => ?_
  split
  · exact failsOnly_bind (failsOnly_need (.inl rfl) _) fun _ _ =>
      failsOnly_bind ((hpg _ _).mono hpaging) fun _ _ => failsOnly_ok _ _
  · exact failsOnly_ok _ _

/-- The access is refused for its index or for want of an area, and then nothing happens. -/
theorem accessRegion_ok (h : accessRegion pg vmaid rgid offset s = .ok (ret, s')) :
    ret = 0 ∨ ret = -1 ∧ s' = s ∧ (getSymrgByid rgid = none ∨ getVmaByNum s vmaid = .ok none) := by
  simp only [accessRegion, bind_eq_ok] at h
  obtain ⟨curVma, hvma, h⟩ := h
  split at h
  · simp only [bind_eq_ok] at h
    obtain ⟨_, -, ⟨_, _⟩, -, h⟩ := h
    cases h
    exact .inl rfl
  · rename_i hnone
    cases h
    refine .inr ⟨rfl, rfl, ?_⟩
    cases hsym : getSymrgByid rgid with
    | none => exact .inl rfl
    | some i =>
      rw [hvma]
      exact .inr (congrArg _ (Option.eq_none_iff_forall_ne_some.2 fun a => hnone i a hsym))

theorem accessRegion_outside (hsym : getSymrgByid rgid = some i) (hi : ¬ InTable i)
    (hvma : getVmaByNum s vmaid = .ok (some a)) (offset : Int) :
    accessRegion pg vmaid rgid offset s = .error .symrgtbl := by
  simp [accessRegion, hvma, hsym, symrg_of_not_inTable hi]

end

theorem liballoc_ok (h : liballoc env s size regIndex = .ok (ret, s')) : ret = 0 := by
  simp only [liballoc, mmAlloc, bind_eq_ok] at h
  obtain ⟨⟨r, _, _⟩, ⟨⟨ret₁, rgnode⟩, -, halloc⟩, h⟩ := h
  cases h
  split at halloc
  · simp only [bind_eq_ok] at halloc
    obtain ⟨_, -, halloc⟩ := halloc
    cases halloc
    rfl
  · cases halloc
    rfl

theorem liballoc_fails (env : Env) (s : MmState) (size : UInt32) (hi : InTable (asInt regIndex)) :
    FailsOnly Fault.Paging (liballoc env s size regIndex) := by
  obtain ⟨rg, hrg⟩ := symrg_of_inTable hi s.mm
  refine failsOnly_bind (failsOnly_bind ?_ fun a _ => ?_) fun _ _ => failsOnly_ok _ _
  · refine failsOnly_bind (getVmaByNum_fails s 0) fun _ _ =>
      failsOnly_bind (failsOnly_need (by decide) _) fun vma _ => ?_
    cases vma.vmFreergList with
    | none => exact failsOnly_ok _ _
    | some p => exact failsOnly_ok _ _
  · split
    split
    · simp [MmStruct.setSymrg, hrg]
    · exact failsOnly_ok _ _

end AssignmentOS.Mm
