import AssignmentOS.Mm.FreeList
import AssignmentOS.Mm.SwapPage

/-!
# The memory system call

`__sys_memmap` of `sys_mem.c`. On a RAM and a swap that are distinct
random-access devices it is a store: a RAM byte is what was last written to it,
a swap frame what its source held when it was last copied there.
-/

namespace AssignmentOS.Mm

open Transition

def sysmemMapOp : Int := 1
def sysmemIncOp : Int := 2
def sysmemSwpOp : Int := 3
def sysmemIoRead : Int := 4
def sysmemIoWrite : Int := 5

/-- The registers of a call that `__sys_memmap` looks at. -/
structure ScRegs where
  a1 : UInt32
  a2 : UInt32
  a3 : UInt32
  deriving DecidableEq, Repr

/-- A register where an `int` is expected. -/
def asInt (x : UInt32) : Int := x.toInt32.toInt

theorem asInt_eq (x : UInt32) :
    asInt x = if x.toNat < 0x80000000 then (x.toNat : Int) else x.toNat - 0x100000000 := by
  have hx : asInt x = x.toBitVec.toInt := rfl
  rw [hx, BitVec.toInt_eq_toNat_cond]
  simp only [UInt32.toNat_toBitVec]
  split <;> split <;> omega

def asByte (x : UInt32) : Byte := x.toUInt8.toInt8

def ofByte (v : Byte) : UInt32 := v.toInt32.toUInt32

/-- `inc_vma_limit`: what it may change besides the devices is an `mm` of type `σ`. -/
abbrev IncVmaLimit (σ : Type) := Int → Int → σ → Devices → Option (Int × σ × Devices)

variable {σ : Type}

/-- `value` and `data` are what the variables of these names hold before they are
read into. -/
def sysMemmap (incVmaLimit : IncVmaLimit σ) (caller : PcbDevices) (regs : ScRegs) (value : Byte)
    (data : Int → Byte) (mm : σ) (devs : Devices) : Option (Int × ScRegs × σ × Devices) :=
  let memop := asInt regs.a1
  if memop = sysmemMapOp then some (0, regs, mm, devs)
  else if memop = sysmemIncOp then do
    let (_, mm, devs) ← incVmaLimit (asInt regs.a2) (asInt regs.a3) mm devs
    some (0, regs, mm, devs)
  else if memop = sysmemSwpOp then do
    let (_, devs) ← mmSwapPage caller (asInt regs.a2) (asInt regs.a3) data devs
    some (0, regs, mm, devs)
  else if memop = sysmemIoRead then do
    let (_, value, devs) ← memphyRead devs caller.mram (asInt regs.a2) value
    some (0, { regs with a3 := ofByte value }, mm, devs)
  else if memop = sysmemIoWrite then do
    let (_, devs) ← memphyWrite devs caller.mram (asInt regs.a2) (asByte regs.a3)
    some (0, regs, mm, devs)
  else some (0, regs, mm, devs)

-- ---------------------------------------------------------------------------
-- One call
-- ---------------------------------------------------------------------------

/-- Everything but `SYSMEM_INC_OP`, on addresses and frames the devices have. -/
structure ScRegs.Admissible (regs : ScRegs) (ramsz swpsz : Int) : Prop where
  op : asInt regs.a1 ≠ sysmemIncOp
  swap : asInt regs.a1 = sysmemSwpOp → WholeFrame ramsz (asInt regs.a2) ∧
    WholeFrame swpsz (asInt regs.a3)
  io : asInt regs.a1 = sysmemIoRead ∨ asInt regs.a1 = sysmemIoWrite →
    0 ≤ asInt regs.a2 ∧ asInt regs.a2 < ramsz

instance (regs : ScRegs) : Decidable (regs.Admissible ramsz swpsz) :=
  decidable_of_iff (asInt regs.a1 ≠ sysmemIncOp ∧
      (asInt regs.a1 = sysmemSwpOp →
        WholeFrame ramsz (asInt regs.a2) ∧ WholeFrame swpsz (asInt regs.a3)) ∧
      (asInt regs.a1 = sysmemIoRead ∨ asInt regs.a1 = sysmemIoWrite →
        0 ≤ asInt regs.a2 ∧ asInt regs.a2 < ramsz))
    ⟨fun ⟨hop, hswap, hio⟩ => ⟨hop, hswap, hio⟩, fun h => ⟨h.op, h.swap, h.io⟩⟩

def ScRegs.writes (regs : ScRegs) (a : Int) : Option Byte :=
  if asInt regs.a1 = sysmemIoWrite ∧ asInt regs.a2 = a then some (asByte regs.a3) else none

/-- The RAM frame that the call copies onto this frame of the swap. -/
def ScRegs.swapsOnto (regs : ScRegs) (swpfpn : Int) : Option Int :=
  if asInt regs.a1 = sysmemSwpOp ∧ asInt regs.a3 = swpfpn then some (asInt regs.a2) else none

def ScRegs.Targets (regs : ScRegs) (r s d : DevId) (i : Int) : Prop :=
  asInt regs.a1 = sysmemIoWrite ∧ d = r ∧ i = asInt regs.a2 ∨
    asInt regs.a1 = sysmemSwpOp ∧ CellsFrom s (asInt regs.a3) 0 d i

theorem not_targets_ram {regs : ScRegs} (hne : r ≠ s) (h : regs.writes a = none) :
    ¬ regs.Targets r s r a := by
  rintro (⟨hop, -, rfl⟩ | ⟨-, hcell⟩)
  · simp [ScRegs.writes, hop] at h
  · exact hne hcell.1

theorem not_targets_swap {regs : ScRegs} (hne : r ≠ s) (h : regs.swapsOnto t = none) (h0 : 0 ≤ j)
    (hj : j < pagingPagesz) : ¬ regs.Targets r s s (t * pagingPagesz + j) := by
  rintro (⟨-, hs, -⟩ | ⟨hop, -, hlo, hhi⟩)
  · exact hne hs.symm
  · simp only [ScRegs.swapsOnto, hop, true_and, ite_eq_right_iff] at h
    have hframe : asInt regs.a3 = t := by
      simp only [pagingPagesz] at *
      omega
    cases h hframe

/-- What a call does to its registers and to the bytes of a RAM `r` and a swap `s`. -/
structure ScRegs.Effect (regs regs' : ScRegs) (r s : DevId) (devs devs' : Devices) : Prop where
  only : ChangesOnly (regs.Targets r s) devs devs'
  read : asInt regs.a1 = sysmemIoRead → ∀ v, byteAt devs r (asInt regs.a2) = some v →
    regs'.a3 = ofByte v
  write : ∀ a v, regs.writes a = some v → byteAt devs' r a = some v
  swap : ∀ t f, regs.swapsOnto t = some f → ∀ j, 0 ≤ j → j < pagingPagesz →
    byteAt devs' s (t * pagingPagesz + j) = byteAt devs r (f * pagingPagesz + j)

section
variable {regs : ScRegs} (incVmaLimit : IncVmaLimit σ) (value : Byte) (data : Int → Byte) (mm : σ)

theorem sysMemmap_swp (hop : asInt regs.a1 = sysmemSwpOp) (hne : r ≠ s) (hr : RandomAccess (devs r))
    (hs : RandomAccess (devs s)) (hf : WholeFrame (devs r).maxsz (asInt regs.a2))
    (hg : WholeFrame (devs s).maxsz (asInt regs.a3)) :
    ∃ devs', sysMemmap incVmaLimit ⟨some r, some s⟩ regs value data mm devs =
      some (0, regs, mm, devs') ∧
      regs.Effect regs r s devs devs' := by
  obtain ⟨devs', hpage, honly, hcopy⟩ := mmSwapPage_spec hne hr hs hf hg data
  refine ⟨devs', ?_, honly.mono fun d i hi => .inr ⟨hop, hi⟩, ?_, ?_, ?_⟩
  · simp [sysMemmap, hop, sysmemMapOp, sysmemIncOp, sysmemSwpOp, hpage]
  · rw [hop]
    rintro ⟨⟩
  · intro a v hv
    simp [ScRegs.writes, hop, sysmemSwpOp, sysmemIoWrite] at hv
  · intro t f ht
    simp only [ScRegs.swapsOnto, hop, true_and, Option.ite_none_right_eq_some,
      Option.some.injEq] at ht
    obtain ⟨rfl, rfl⟩ := ht
    exact hcopy

theorem sysMemmap_ioWrite (hop : asInt regs.a1 = sysmemIoWrite) (s : DevId)
    (hr : RandomAccess (devs r)) (h0 : 0 ≤ asInt regs.a2) (hlt : asInt regs.a2 < (devs r).maxsz) :
    ∃ devs', sysMemmap incVmaLimit ⟨some r, some s⟩ regs value data mm devs =
      some (0, regs, mm, devs') ∧
      regs.Effect regs r s devs devs' := by
  obtain ⟨devs', hmem, hv, honly⟩ := write_byte hr h0 hlt (asByte regs.a3)
  refine ⟨devs', ?_, honly.mono fun d i hi => .inl ⟨hop, hi⟩, ?_, ?_, ?_⟩
  · simp [sysMemmap, hop, sysmemMapOp, sysmemIncOp, sysmemSwpOp, sysmemIoRead, sysmemIoWrite, hmem]
  · rw [hop]
    rintro ⟨⟩
  · intro a v ha
    simp only [ScRegs.writes, hop, true_and, Option.ite_none_right_eq_some, Option.some.injEq] at ha
    obtain ⟨rfl, rfl⟩ := ha
    exact hv
  · intro t f ht
    simp [ScRegs.swapsOnto, hop, sysmemSwpOp, sysmemIoWrite] at ht

theorem sysMemmap_ioRead (hop : asInt regs.a1 = sysmemIoRead) (s : DevId)
    (hr : RandomAccess (devs r)) (h0 : 0 ≤ asInt regs.a2) (hlt : asInt regs.a2 < (devs r).maxsz) :
    ∃ regs', sysMemmap incVmaLimit ⟨some r, some s⟩ regs value data mm devs =
      some (0, regs', mm, devs) ∧
      regs.Effect regs' r s devs devs := by
  obtain ⟨v, hv⟩ := hr.byte h0 hlt
  refine ⟨{ regs with a3 := ofByte v }, ?_, .refl _ _, fun _ v' hv' => ?_, ?_, ?_⟩
  · simp [sysMemmap, hop, sysmemMapOp, sysmemIncOp, sysmemSwpOp, sysmemIoRead, read_byte hr hv]
  · obtain rfl := Option.some.inj (hv.symm.trans hv')
    rfl
  · intro a v ha
    simp [ScRegs.writes, hop, sysmemIoRead, sysmemIoWrite] at ha
  · intro t f ht
    simp [ScRegs.swapsOnto, hop, sysmemSwpOp, sysmemIoRead] at ht

theorem sysMemmap_other (hinc : asInt regs.a1 ≠ sysmemIncOp) (hswp : asInt regs.a1 ≠ sysmemSwpOp)
    (hread : asInt regs.a1 ≠ sysmemIoRead) (hwrite : asInt regs.a1 ≠ sysmemIoWrite)
    (caller : PcbDevices) (r s : DevId) (devs : Devices) :
    sysMemmap incVmaLimit caller regs value data mm devs = some (0, regs, mm, devs) ∧
      regs.Effect regs r s devs devs := by
  refine ⟨?_, .refl _ _, fun hop => absurd hop hread, ?_, ?_⟩
  · simp [sysMemmap, hinc, hswp, hread, hwrite]
  · intro a v ha
    simp [ScRegs.writes, hwrite] at ha
  · intro t f ht
    simp [ScRegs.swapsOnto, hswp] at ht

theorem sysMemmap_spec (hne : r ≠ s) (hr : RandomAccess (devs r)) (hs : RandomAccess (devs s))
    (hadm : regs.Admissible (devs r).maxsz (devs s).maxsz) :
    ∃ regs' devs', sysMemmap incVmaLimit ⟨some r, some s⟩ regs value data mm devs =
        some (0, regs', mm, devs') ∧ regs.Effect regs' r s devs devs' := by
  by_cases hswp : asInt regs.a1 = sysmemSwpOp
  · obtain ⟨hf, hg⟩ := hadm.swap hswp
    exact ⟨regs, sysMemmap_swp incVmaLimit value data mm hswp hne hr hs hf hg⟩
  by_cases hwrite : asInt regs.a1 = sysmemIoWrite
  · obtain ⟨h0, hlt⟩ := hadm.io (.inr hwrite)
    exact ⟨regs, sysMemmap_ioWrite incVmaLimit value data mm hwrite s hr h0 hlt⟩
  by_cases hread : asInt regs.a1 = sysmemIoRead
  · obtain ⟨h0, hlt⟩ := hadm.io (.inl hread)
    obtain ⟨regs', h⟩ := sysMemmap_ioRead incVmaLimit value data mm hread s hr h0 hlt
    exact ⟨regs', devs, h⟩
  · exact ⟨regs, devs, sysMemmap_other incVmaLimit value data mm hadm.op hswp hread
      hwrite _ r s devs⟩

end

-- ---------------------------------------------------------------------------
-- Runs of calls
-- ---------------------------------------------------------------------------

structure Call where
  regs : ScRegs
  value : Byte
  data : Int → Byte

def memmapNext (incVmaLimit : IncVmaLimit σ) (caller : PcbDevices) (st : σ × Devices) (c : Call) :
    Option ((Int × ScRegs) × σ × Devices) := do
  let (ret, regs, mm, devs) ← sysMemmap incVmaLimit caller c.regs c.value c.data st.1 st.2
  some ((ret, regs), mm, devs)

/-- The byte of the most recent `SYSMEM_IO_WRITE` to the address, 0 if there is none. -/
def ramByte (a : Int) : List Call → Byte :=
  latest (fun c _ => c.regs.writes a) 0

/-- The byte that the source frame held at the most recent `SYSMEM_SWP_OP` onto
the frame, 0 if there is none. -/
def swapByte (t j : Int) : List Call → Byte :=
  latest (fun c past => (c.regs.swapsOnto t).map fun f => ramByte (f * pagingPagesz + j) past) 0

theorem ramByte_of_writes {c : Call} (h : c.regs.writes a = some v) (past : List Call) :
    ramByte a (c :: past) = v :=
  latest_of_some h

theorem ramByte_of_not_writes {c : Call} (h : c.regs.writes a = none) (past : List Call) :
    ramByte a (c :: past) = ramByte a past :=
  latest_of_none h

theorem swapByte_of_swapsOnto {c : Call} (h : c.regs.swapsOnto t = some f) (j : Int)
    (past : List Call) :
    swapByte t j (c :: past) = ramByte (f * pagingPagesz + j) past :=
  latest_of_some (by simp [h])

theorem swapByte_of_not_swapsOnto {c : Call} (h : c.regs.swapsOnto t = none) (j : Int)
    (past : List Call) :
    swapByte t j (c :: past) = swapByte t j past :=
  latest_of_none (by simp [h])

/-- The devices hold what the calls so far, newest first, have put there. -/
structure Holds (r s : DevId) (ramsz swpsz : Int) (past : List Call) (devs : Devices) : Prop where
  ram : RandomAccess (devs r)
  swp : RandomAccess (devs s)
  ramMaxsz : (devs r).maxsz = ramsz
  swpMaxsz : (devs s).maxsz = swpsz
  ramBytes : ∀ a, 0 ≤ a → a < ramsz → byteAt devs r a = some (ramByte a past)
  swapBytes : ∀ t j, WholeFrame swpsz t → 0 ≤ j → j < pagingPagesz →
    byteAt devs s (t * pagingPagesz + j) = some (swapByte t j past)

theorem init_byte (hinit : initMemphy M mp maxSize randomflg h = some (ret, devs d, h'))
    (h0 : 0 ≤ i) (hi : i < maxSize) : byteAt devs d i = some 0 := by
  obtain ⟨hstorage, -, -⟩ := init_device hinit
  have hlt : i.toNat < maxSize.toNat := by omega
  simp [byteAt, loadByte, hstorage, h0, hlt]

theorem init_randomAccess (hinit : initMemphy M mp maxSize randomflg h = some (ret, mp', h'))
    (hflg : randomflg ≠ 0) (hint : maxSize < 0x80000000) : RandomAccess mp' := by
  obtain ⟨hstorage, hmaxsz, hrdmflg⟩ := init_device hinit
  exact ⟨by simp [hrdmflg, hflg], by simp [hstorage, hmaxsz], by rwa [hmaxsz]⟩

theorem Holds.ramBytes_step {c : Call} (hh : Holds r s ramsz swpsz past devs) (hne : r ≠ s)
    (he : c.regs.Effect regs' r s devs devs') (h0 : 0 ≤ a) (ha : a < ramsz) :
    byteAt devs' r a = some (ramByte a (c :: past)) := by
  cases hw : c.regs.writes a with
  | none =>
    rw [ramByte_of_not_writes hw, (he.only r).2.2 a (not_targets_ram hne hw)]
    exact hh.ramBytes a h0 ha
  | some v =>
    rw [ramByte_of_writes hw]
    exact he.write a v hw

theorem Holds.swapBytes_step {c : Call} (hh : Holds r s ramsz swpsz past devs) (hne : r ≠ s)
    (hadm : c.regs.Admissible ramsz swpsz) (he : c.regs.Effect regs' r s devs devs')
    (ht : WholeFrame swpsz t) (h0 : 0 ≤ j) (hj : j < pagingPagesz) :
    byteAt devs' s (t * pagingPagesz + j) = some (swapByte t j (c :: past)) := by
  cases hc : c.regs.swapsOnto t with
  | none =>
    rw [swapByte_of_not_swapsOnto hc, (he.only s).2.2 _ (not_targets_swap hne hc h0 hj)]
    exact hh.swapBytes t j ht h0 hj
  | some f =>
    have hop := hc
    simp only [ScRegs.swapsOnto, Option.ite_none_right_eq_some, Option.some.injEq] at hop
    obtain ⟨⟨hop, -⟩, rfl⟩ := hop
    obtain ⟨hlo, hhi⟩ := (hadm.swap hop).1.cell h0 hj
    rw [swapByte_of_swapsOnto hc, he.swap t _ hc j h0 hj]
    exact hh.ramBytes _ hlo hhi

theorem Holds.step {c : Call} (hh : Holds r s ramsz swpsz past devs) (hne : r ≠ s)
    (hadm : c.regs.Admissible ramsz swpsz) (he : c.regs.Effect regs' r s devs devs') :
    Holds r s ramsz swpsz (c :: past) devs' where
  ram := he.only.randomAccess hh.ram
  swp := he.only.randomAccess hh.swp
  ramMaxsz := (he.only.maxsz r).trans hh.ramMaxsz
  swpMaxsz := (he.only.maxsz s).trans hh.swpMaxsz
  ramBytes _ h0 ha := hh.ramBytes_step hne he h0 ha
  swapBytes _ _ ht h0 hj := hh.swapBytes_step hne hadm he ht h0 hj

theorem Holds.init (hram : initMemphy M mp₁ ramsz flg₁ h₁ = some (ret₁, devs r, h₁'))
    (hswp : initMemphy M mp₂ swpsz flg₂ h₂ = some (ret₂, devs s, h₂')) (hflg₁ : flg₁ ≠ 0)
    (hflg₂ : flg₂ ≠ 0) (hramsz : ramsz < 0x80000000) (hswpsz : swpsz < 0x80000000) :
    Holds r s ramsz swpsz [] devs where
  ram := init_randomAccess hram hflg₁ hramsz
  swp := init_randomAccess hswp hflg₂ hswpsz
  ramMaxsz := (init_device hram).2.1
  swpMaxsz := (init_device hswp).2.1
  ramBytes _ h0 ha := init_byte hram h0 ha
  swapBytes _ _ ht h0 hj := init_byte hswp (ht.cell h0 hj).1 (ht.cell h0 hj).2

theorem Holds.call (incVmaLimit : IncVmaLimit σ) {c : Call} (hh : Holds r s ramsz swpsz past devs)
    (hne : r ≠ s) (hadm : c.regs.Admissible ramsz swpsz) (mm : σ) :
    ∃ regs' devs', sysMemmap incVmaLimit ⟨some r, some s⟩ c.regs c.value c.data mm devs =
        some (0, regs', mm, devs') ∧ c.regs.Effect regs' r s devs devs' := by
  have hadm' := hadm
  rw [← hh.ramMaxsz, ← hh.swpMaxsz] at hadm'
  exact sysMemmap_spec incVmaLimit c.value c.data mm hne hh.ram hh.swp hadm'

theorem Holds.run (incVmaLimit : IncVmaLimit σ) (hne : r ≠ s) (hh : Holds r s ramsz swpsz [] devs)
    (mm : σ) (calls : List Call) (hcalls : ∀ c ∈ calls, c.regs.Admissible ramsz swpsz) :
    ∃ rets devs', exec (memmapNext incVmaLimit ⟨some r, some s⟩) calls (mm, devs) =
        some (rets, mm, devs') ∧ Holds r s ramsz swpsz calls.reverse devs' := by
  have hstep : ∀ (past : List Call) (st : σ × Devices) (c : Call),
      st.1 = mm ∧ Holds r s ramsz swpsz past st.2 → c.regs.Admissible ramsz swpsz →
      ∃ e t, memmapNext incVmaLimit ⟨some r, some s⟩ st c = some (e, t) ∧
        t.1 = mm ∧ Holds r s ramsz swpsz (c :: past) t.2 := by
    rintro past ⟨mm', devs⟩ c ⟨hmm, hh⟩ hadm
    obtain rfl : mm' = mm := hmm
    obtain ⟨regs', devs', hcall, he⟩ := hh.call incVmaLimit hne hadm mm'
    refine ⟨(0, regs'), (mm', devs'), ?_, rfl, hh.step hne hadm he⟩
    simp only at hcall
    simp [memmapNext, hcall]
  have h0 : (mm, devs).1 = mm ∧ Holds r s ramsz swpsz [] (mm, devs).2 := ⟨rfl, hh⟩
  obtain ⟨rets, ⟨mm', devs'⟩, hexec, hmm, hh'⟩ := exec_total
    (P := fun past (st : σ × Devices) => st.1 = mm ∧ Holds r s ramsz swpsz past st.2) hstep
      h0 calls hcalls
  obtain rfl : mm' = mm := hmm
  rw [List.append_nil] at hh'
  exact ⟨rets, devs', hexec, hh'⟩

/-- After any calls, what is held is what they put there, and one more call reads
it and changes only its targets. -/
theorem memmap_store (incVmaLimit : IncVmaLimit σ) (r s : DevId) (hne : r ≠ s) (devs : Devices)
    (hram : initMemphy M mp₁ ramsz flg₁ h₁ = some (ret₁, devs r, h₁'))
    (hswp : initMemphy M mp₂ swpsz flg₂ h₂ = some (ret₂, devs s, h₂'))
    (hflg₁ : flg₁ ≠ 0) (hflg₂ : flg₂ ≠ 0) (hramsz : ramsz < 0x80000000)
    (hswpsz : swpsz < 0x80000000) (mm : σ) (calls : List Call)
    (hcalls : ∀ c ∈ calls, c.regs.Admissible ramsz swpsz) :
    ∃ rets devs', exec (memmapNext incVmaLimit ⟨some r, some s⟩) calls (mm, devs) =
      some (rets, mm, devs') ∧
      (∀ t, WholeFrame swpsz t → ∀ j, 0 ≤ j → j < pagingPagesz →
        byteAt devs' s (t * pagingPagesz + j) = some (swapByte t j calls.reverse)) ∧
      ∀ c : Call, c.regs.Admissible ramsz swpsz →
        ∃ regs' devs'', sysMemmap incVmaLimit ⟨some r, some s⟩ c.regs c.value c.data mm devs' =
            some (0, regs', mm, devs'') ∧
          (asInt c.regs.a1 = sysmemIoRead →
            regs'.a3 = ofByte (ramByte (asInt c.regs.a2) calls.reverse)) ∧
          ChangesOnly (c.regs.Targets r s) devs' devs'' := by
  obtain ⟨rets, devs', hexec, hh⟩ :=
    (Holds.init hram hswp hflg₁ hflg₂ hramsz hswpsz).run incVmaLimit hne mm calls hcalls
  refine ⟨rets, devs', hexec, fun t ht j h0 hj => hh.swapBytes t j ht h0 hj, fun c hadm => ?_⟩
  obtain ⟨regs', devs'', hcall, he⟩ := hh.call incVmaLimit hne hadm mm
  refine ⟨regs', devs'', hcall, fun hop => ?_, he.only⟩
  obtain ⟨h0, hlt⟩ := hadm.io (.inl hop)
  exact he.read hop _ (hh.ramBytes _ h0 hlt)

/-- Write 200 to the RAM's byte 300, copy its frame 1 to the swap's frame 0, write 7. -/
def swapThenWrite : List Call :=
  [⟨⟨5, 300, 200⟩, 9, fun _ => 9⟩, ⟨⟨3, 1, 0⟩, 9, fun _ => 9⟩, ⟨⟨5, 300, 7⟩, 9, fun _ => 9⟩]

/-- The swap keeps the first byte, read back as a negative one; the RAM has the second. -/
theorem memmap_store_swapThenWrite :
    ∃ (devs : Devices) (rets : List (Int × ScRegs)) (devs' : Devices),
      exec (memmapNext (fun _ _ _ _ => none) ⟨some 0, some 1⟩) swapThenWrite ((), devs) =
        some (rets, (), devs') ∧
      byteAt devs' 1 44 = some (-56) ∧
      ∃ regs' devs'', sysMemmap (fun _ _ _ _ => none) ⟨some 0, some 1⟩ ⟨4, 300, 0⟩ 9
        (fun _ => 9) () devs' =
        some (0, regs', (), devs'') ∧ regs'.a3 = 7 := by
  obtain ⟨ram, h, hram, -⟩ := init_freeList (M := .bump (9, some 9))
    ⟨[], 0, 0, 0, .prior (some 4)⟩ 512 1 .empty (by decide)
  obtain ⟨swp, h', hswp, -⟩ := init_freeList (M := .bump (9, some 9))
    ⟨[], 0, 0, 0, .prior (some 4)⟩ 512 1 h (by decide)
  let devs : Devices := fun
    | 0 => ram
    | _ => swp
  obtain ⟨rets, devs', hexec, hswap, hnext⟩ := memmap_store (fun _ _ _ _ => none) 0 1
    Nat.zero_ne_one devs hram hswp (by decide) (by decide) (by decide) (by decide) () swapThenWrite
    (by decide)
  obtain ⟨regs', devs'', hcall, hread, -⟩ := hnext ⟨⟨4, 300, 0⟩, 9, fun _ => 9⟩ (by decide)
  refine ⟨devs, rets, devs', hexec, ?_, regs', devs'', hcall, ?_⟩
  · exact hswap 0 (by decide) 44 (by decide) (by decide)
  · exact hread rfl

end AssignmentOS.Mm
