import AssignmentOS.Cpu.SymbolTable
import AssignmentOS.Mm.Sharing

/-!
# Instructions that leave nothing undefined

`run` of a process among others, with the area that `init_mm` is to give it or
with none. Whether an instruction leaves something undefined is decided by its
operands and by the free frames of the RAM (`Safe`), and one that does not has
an effect that can be told without the memory: on the process's symbol table, on
the swap's free frames and on the storage.
-/

namespace AssignmentOS.Cpu

open Memory Fallible Mm

variable {env : Env} {B : Board} {s s' : MmState} {past : List Call}
  {free : DevId → List Int} {ins : Inst}
  {idx offset : UInt32}

-- ---------------------------------------------------------------------------
-- What an instruction does
-- ---------------------------------------------------------------------------

/-- What FREE, READ and WRITE return for the index of a region. -/
def refusal (idx : UInt32) : Int := if pagingMaxSymtblSz < idx.toNat then -1 else 0

def statOf (ins : Inst) : Int :=
  match ins.opcode with
  | .free | .read => refusal ins.arg0
  | .write => refusal ins.arg1
  | _ => 0

def regionMisses (mm : MmStruct) (idx offset : UInt32) : Nat :=
  match mm.symrg (asInt idx) with
  | some rg => pageMisses mm (regionAddr rg (asInt offset))
  | none => 0

def misses (mm : MmStruct) (ins : Inst) : Nat :=
  match ins.opcode with
  | .read => regionMisses mm ins.arg0 ins.arg1
  | .write => regionMisses mm ins.arg1 ins.arg2
  | _ => 0

/-- ALLOC enters a region without bytes, whatever its size is; nothing else changes the table. -/
def onSymbols (ins : Inst) (mm : MmStruct) : MmStruct :=
  match ins.opcode with
  | .alloc =>
    (mm.setSymrg (asInt ins.arg1) fun rg => { rg with rgStart := -1, rgEnd := -1 }).getD mm
  | _ => mm

def callOf (env : Env) (ins : Inst) : Option Call :=
  if ins.opcode = .syscall ∧ ins.arg0 = 17 then
    storageCall env ⟨ins.arg1, ins.arg2, ins.arg3⟩
  else none

/-- The instruction leaves nothing undefined in a process with this `mmap`. -/
def Safe (B : Board) (ram : List Int) (mmap : Ptr) (ins : Inst) : Prop :=
  match ins.opcode with
  | .calc | .free => True
  | .alloc => mmap ≠ none ∧ ins.arg1.toNat < pagingMaxSymtblSz
  | .read => mmap ≠ none ∧ ins.arg0.toNat ≠ pagingMaxSymtblSz
  | .write => mmap ≠ none ∧ ins.arg1.toNat ≠ pagingMaxSymtblSz
  | .syscall => ins.arg0 ≠ 101 ∧ (ins.arg0 = 17 → B.Allows ram mmap ⟨ins.arg1, ins.arg2, ins.arg3⟩)

structure Executed (B : Board) (env : Env) (past : List Call) (free : DevId → List Int) (ins : Inst)
    (s s' : MmState) : Prop where
  paged : Paged (onSymbols ins s.mm) s s'
  stored : B.Stored ((callOf env ins).toList ++ past)
    (B.taken (misses s.mm ins) free) s'.frames s'.devs

-- ---------------------------------------------------------------------------
-- Instructions that return
-- ---------------------------------------------------------------------------

theorem onSymbols_mmap (ins : Inst) (mm : MmStruct) : (onSymbols ins mm).mmap = mm.mmap := by
  unfold onSymbols
  split
  · unfold MmStruct.setSymrg
    cases mm.symrg (asInt ins.arg1) <;> rfl
  · rfl

theorem paged_mmap (hp : Paged (onSymbols ins s.mm) s s') : s'.mm.mmap = s.mm.mmap := by
  rw [hp.mm]
  exact onSymbols_mmap ins s.mm

section
variable (h : B.Stored past free s.frames s.devs) (hlive : HeadLive s)
include h hlive

theorem access_safe (harea : SoleArea s.areas s.mm.mmap) (env : Env)
    (hidx : idx.toNat ≠ pagingMaxSymtblSz) (offset : UInt32) :
    ∃ s', accessRegion (fun addr => pgAccess env B.caller addr) 0 (asInt idx) (asInt offset) s =
        .ok (refusal idx, s') ∧ Paged s.mm s s' ∧
      B.Stored past (B.taken (regionMisses s.mm idx offset) free) s'.frames s'.devs := by
  by_cases hin : InTable (asInt idx)
  · obtain ⟨rg, hrg⟩ := symrg_of_inTable hin s.mm
    obtain ⟨s', haccess, hpaged, h'⟩ := pgAccess_spec env h hlive (regionAddr rg (asInt offset))
    have hzero : refusal idx = 0 := if_neg (Nat.not_lt.mpr (Nat.le_of_lt ((inTable_iff idx).1 hin)))
    rw [hzero]
    refine ⟨s', accessRegion_inTable harea hrg haccess, hpaged, ?_⟩
    rwa [regionMisses, hrg]
  · have hlt : pagingMaxSymtblSz < idx.toNat := by
      rw [inTable_iff] at hin
      simp only [pagingMaxSymtblSz] at hidx ⊢
      omega
    have hret : refusal idx = -1 := if_pos hlt
    rw [hret]
    refine ⟨s, accessRegion_refused harea ((getSymrgByid_eq_none_iff idx).2 hlt) _, .refl hlive, ?_⟩
    rw [regionMisses, symrg_of_not_inTable hin]
    simpa using h

theorem alloc_safe (harea : SoleArea s.areas s.mm.mmap) (env : Env) (hop : ins.opcode = .alloc)
    (hidx : ins.arg1.toNat < pagingMaxSymtblSz) :
    ∃ s', dispatch env B.caller ins s = .ok (statOf ins, s') ∧
      Executed B env past free ins s s' := by
  obtain ⟨a, vma, hcell, hlist, hvma, -⟩ := harea.lookup
  obtain ⟨p, hp⟩ := Option.ne_none_iff_exists'.mp hlist
  obtain ⟨rg, hrg⟩ := symrg_of_inTable ((inTable_iff ins.arg1).2 hidx) s.mm
  have hset : ∀ f, s.mm.setSymrg (asInt ins.arg1) f =
      some { s.mm with symrgtbl := s.mm.symrgtbl.setIfInBounds (asInt ins.arg1).toNat (f rg) } :=
        fun f => by
    simp [MmStruct.setSymrg, hrg]
  refine ⟨{ s with mm := onSymbols ins s.mm }, ?_, ⟨?_, rfl, ?_, ?_⟩, ?_⟩
  · simp [dispatch, hop, liballoc, mmAlloc, getFreeVmrgArea, hvma 0 (Int.le_refl 0), hcell,
      hp, hset, statOf, onSymbols]
  all_goals simp only [onSymbols, hop, hset, Option.getD_some]
  · exact hlive
  · exact fun _ hpg hne => ⟨hpg, hne⟩
  · simpa [callOf, misses, hop] using h

theorem syscall_safe (harea : AtMostOneArea s.areas s.mm.mmap) (env : Env)
    (hop : ins.opcode = .syscall) (hsafe : Safe B (free B.mram) s.mm.mmap ins) :
    ∃ s', dispatch env B.caller ins s = .ok (statOf ins, s') ∧
      Executed B env past free ins s s' := by
  simp only [Safe, hop] at hsafe
  obtain ⟨hkill, hallow⟩ := hsafe
  have hstat : statOf ins = 0 := by simp [statOf, hop]
  have hsymbols : onSymbols ins s.mm = s.mm := by simp [onSymbols, hop]
  have hmisses : misses s.mm ins = 0 := by simp [misses, hop]
  rw [dispatch_syscall env B.caller hop, hstat]
  by_cases hmemmap : ins.arg0 = 17
  · obtain ⟨regs', s', hcall, hpaged, h'⟩ := memmapCall_allowed h hlive harea env (hallow hmemmap)
    refine ⟨s', ?_, ?_, ?_⟩
    · rw [hmemmap, syscall_memmap, hcall]
      rfl
    · rwa [hsymbols]
    · rwa [callOf, if_pos ⟨hop, hmemmap⟩, hmisses, Board.taken_zero]
  · refine ⟨s, ?_, ?_, ?_⟩
    · simp [syscall, hmemmap, hkill, sysListsyscall, sysNiSyscall]
    · rw [hsymbols]
      exact .refl hlive
    · simpa [callOf, hmemmap, hmisses] using h

theorem dispatch_safe (harea : AtMostOneArea s.areas s.mm.mmap) (env : Env)
    (hsafe : Safe B (free B.mram) s.mm.mmap ins) :
    ∃ s', dispatch env B.caller ins s = .ok (statOf ins, s') ∧
      Executed B env past free ins s s' := by
  match hop : ins.opcode with
  | .calc =>
    refine ⟨s, by simp [dispatch, hop, calcInst, statOf], ?_, ?_⟩
    · simpa [onSymbols, hop] using Paged.refl hlive
    · simpa [callOf, misses, hop] using h
  | .alloc =>
    simp only [Safe, hop] at hsafe
    exact alloc_safe h hlive (harea hsafe.1) env hop hsafe.2
  | .free =>
    refine ⟨s, ?_, ?_, ?_⟩
    · have hfree : mmFree 0 (asInt ins.arg0) = refusal ins.arg0 := by
        have hnone := getSymrgByid_eq_none_iff ins.arg0
        rw [getSymrgByid, ite_eq_left_iff] at hnone
        simp only [reduceCtorEq, imp_false, not_not] at hnone
        exact if_congr hnone rfl rfl
      simp [dispatch, hop, libfree, statOf, hfree]
    · simpa [onSymbols, hop] using Paged.refl hlive
    · simpa [callOf, misses, hop] using h
  | .read =>
    simp only [Safe, hop] at hsafe
    have hsole := harea hsafe.1
    obtain ⟨s', hread, hpaged, h'⟩ := access_safe h hlive hsole env hsafe.2 ins.arg1
    have hpaged' : Paged (onSymbols ins s.mm) s s' := by simpa [onSymbols, hop] using hpaged
    obtain ⟨ptes, hprint⟩ : ∃ ptes, printPgtbl s' = .ok ptes :=
      printPgtbl_sole (by rwa [hpaged.areas, paged_mmap hpaged'])
    refine ⟨s', ?_, hpaged', by simpa [callOf, misses, hop] using h'⟩
    have hcall : mmRead env B.caller 0 (asInt ins.arg0) (asInt ins.arg1) env.value s =
        .ok (refusal ins.arg0, s') := hread
    simp [dispatch, hop, libread, hcall, hprint, statOf]
  | .write =>
    simp only [Safe, hop] at hsafe
    obtain ⟨s', hwrite, hpaged, h'⟩ := access_safe h hlive (harea hsafe.1) env hsafe.2 ins.arg2
    obtain ⟨ptes, hprint⟩ := printPgtbl_sole (harea hsafe.1)
    refine ⟨s', ?_, by simpa [onSymbols, hop] using hpaged, by simpa [callOf, misses, hop] using h'⟩
    have hcall : mmWrite env B.caller 0 (asInt ins.arg1) (asInt ins.arg2) (asByte ins.arg0) s =
        .ok (refusal ins.arg1, s') := hwrite
    simp [dispatch, hop, libwrite, hcall, hprint, statOf]
  | .syscall => exact syscall_safe h hlive harea env hop hsafe

end

-- ---------------------------------------------------------------------------
-- Instructions that do not
-- ---------------------------------------------------------------------------

/-- Since `libread` leaves its destination alone, the loop of `__sys_killall` never sees the end
of a name. -/
theorem killallLoop_endless (env : Env) (caller : PcbDevices) (memrg : UInt32) (left : Nat)
    (i : UInt32) (procName : List Byte) (s : MmState) :
    killallLoop (libread env caller) memrg left i 0 procName s ≠ .ok r := by
  have hgo : (0 : UInt32) ≠ -1 := by decide
  induction left generalizing i procName s with
  | zero =>
    rw [killallLoop, if_neg hgo, Ne, bind_eq_ok]
    rintro ⟨_, -, h⟩
    cases h
  | succ left ih =>
    rw [killallLoop, if_neg hgo, Ne, bind_eq_ok]
    rintro ⟨⟨ret, data, t⟩, hread, h⟩
    obtain rfl := libread_destination hread
    exact ih _ _ t h

theorem syscall_killall (env : Env) (caller : PcbDevices) (regs : ScRegs) (s : MmState) :
    syscall env caller 101 regs s ≠ .ok r := by
  have hcall : syscall env caller 101 regs s =
      sysKillall (libread env caller) regs s >>= fun r => .ok (r.1, r.2.2) := rfl
  rw [hcall, Ne, bind_eq_ok]
  rintro ⟨_, hkill, -⟩
  rw [sysKillall, bind_eq_ok] at hkill
  obtain ⟨_, hloop, -⟩ := hkill
  exact killallLoop_endless env caller regs.a1 procNameSz 0 [] s hloop

theorem accessRegion_thirty (harea : SoleArea s.areas s.mm.mmap)
    (hidx : idx.toNat = pagingMaxSymtblSz) (pg : Int → MmState → Except Fault (Int × MmState))
    (offset : Int) :
    accessRegion pg 0 (asInt idx) offset s = .error .symrgtbl := by
  have hint : asInt idx = pagingMaxSymtblSz := by
    rw [asInt_eq, hidx]
    rfl
  rw [hint]
  exact accessRegion_behind harea offset

/-- Without an area the page table cannot be printed, and there is no list of regions to look at. -/
theorem mmap_of_dispatch (hi : regionIndex ins ≠ none) (hfree : ins.opcode ≠ .free)
    (hok : dispatch env caller ins s = .ok r) : s.mm.mmap ≠ none := by
  intro hnone
  have hvma := getVmaByNum_noArea hnone 0
  have hprint := printPgtbl_none hvma
  match hop : ins.opcode with
  | .calc => exact hi (by simp [regionIndex, hop])
  | .syscall => exact hi (by simp [regionIndex, hop])
  | .free => exact hfree hop
  | .alloc => simp [dispatch, hop, liballoc, mmAlloc, getFreeVmrgArea, hvma] at hok
  | .read =>
    have hread : mmRead env caller 0 (asInt ins.arg0) (asInt ins.arg1) env.value s =
        .ok (-1, s) := by
      rw [mmRead, accessRegion, hvma, ok_bind]
      cases getSymrgByid (asInt ins.arg0) <;> rfl
    simp [dispatch, hop, libread, hread, hprint] at hok
  | .write => simp [dispatch, hop, libwrite, hprint] at hok

theorem safe_of_dispatch (h : B.Stored past free s.frames s.devs)
    (harea : AtMostOneArea s.areas s.mm.mmap) (hok : dispatch env B.caller ins s = .ok r) :
    Safe B (free B.mram) s.mm.mmap ins := by
  unfold Safe
  match hop : ins.opcode with
  | .calc => trivial
  | .free => trivial
  | .alloc =>
    have hmmap := mmap_of_dispatch (by simp [regionIndex, hop]) (by simp [hop]) hok
    refine ⟨hmmap, ?_⟩
    by_contra hidx
    obtain ⟨a, vma, hcell, hlist, hvma, -⟩ := (harea hmmap).lookup
    obtain ⟨p, hp⟩ := Option.ne_none_iff_exists'.mp hlist
    have hnone := symrg_of_not_inTable (fun hin => hidx ((inTable_iff ins.arg1).1 hin)) s.mm
    simp [dispatch, hop, liballoc, mmAlloc, getFreeVmrgArea, hvma 0 (Int.le_refl 0), hcell, hp,
      MmStruct.setSymrg, hnone] at hok
  | .read =>
    have hmmap := mmap_of_dispatch (by simp [regionIndex, hop]) (by simp [hop]) hok
    refine ⟨hmmap, fun hidx => ?_⟩
    have hfault : mmRead env B.caller 0 (asInt ins.arg0) (asInt ins.arg1) env.value s =
        .error .symrgtbl :=
      accessRegion_thirty (harea hmmap) hidx _ _
    simp [dispatch, hop, libread, hfault] at hok
  | .write =>
    have hmmap := mmap_of_dispatch (by simp [regionIndex, hop]) (by simp [hop]) hok
    refine ⟨hmmap, fun hidx => ?_⟩
    have hfault : mmWrite env B.caller 0 (asInt ins.arg1) (asInt ins.arg2) (asByte ins.arg0) s =
        .error .symrgtbl := accessRegion_thirty (harea hmmap) hidx _ _
    obtain ⟨ptes, hprint⟩ := printPgtbl_sole (harea hmmap)
    simp [dispatch, hop, libwrite, hfault, hprint] at hok
  | .syscall =>
    rw [dispatch_syscall env B.caller hop] at hok
    constructor
    · intro hkill
      rw [hkill] at hok
      exact syscall_killall env B.caller _ s hok
    · intro hmemmap
      rw [hmemmap, syscall_memmap, bind_eq_ok] at hok
      obtain ⟨_, hcall, -⟩ := hok
      exact memmapCall_ok_allows h harea hcall

end AssignmentOS.Cpu
