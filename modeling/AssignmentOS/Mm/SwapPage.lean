import AssignmentOS.Mm.Memphy

/-!
# Copying a page

`__swap_cp_page` of `mm.c` and `__mm_swap_page` of `mm-vm.c`. Between distinct
random-access devices the copy changes one frame of its destination, which
then holds the bytes of the source.
-/

namespace AssignmentOS.Mm

/-- Arithmetic on `int`, undefined when it overflows. -/
def cint (x : Int) : Option Int := if -0x80000000 ≤ x ∧ x < 0x80000000 then some x else none

/-- The address of a cell of a frame, as `__swap_cp_page` computes it. -/
def cellAddr (fpn cellidx : Int) : Option Int := do
  let base ← cint (fpn * pagingPagesz)
  cint (base + cellidx)

/-- The loop of `__swap_cp_page`, `left` turns before its end. `data` is what the
variable of that name holds before it is read into, at each turn. -/
def swapCpLoop (mpsrc : Option DevId) (srcfpn : Int) (mpdst : Option DevId) (dstfpn : Int)
    (data : Int → Byte) : (left : Nat) → (cellidx : Int) → Devices → Option Devices
  | 0, _, devs => some devs
  | left + 1, cellidx, devs => do
    let addrsrc ← cellAddr srcfpn cellidx
    let addrdst ← cellAddr dstfpn cellidx
    let (_, v, devs) ← memphyRead devs mpsrc addrsrc (data cellidx)
    let (_, devs) ← memphyWrite devs mpdst addrdst v
    swapCpLoop mpsrc srcfpn mpdst dstfpn data left (cellidx + 1) devs

def swapCpPage (mpsrc : Option DevId) (srcfpn : Int) (mpdst : Option DevId) (dstfpn : Int)
    (data : Int → Byte) (devs : Devices) : Option (Int × Devices) := do
  let devs ← swapCpLoop mpsrc srcfpn mpdst dstfpn data pagingPagesz.toNat 0 devs
  some (0, devs)

/-- The devices of a `struct pcb_t`. -/
structure PcbDevices where
  mram : Option DevId
  activeMswp : Option DevId

def mmSwapPage (caller : PcbDevices) (vicfpn swpfpn : Int) (data : Int → Byte) (devs : Devices) :
    Option (Int × Devices) := do
  let (_, devs) ← swapCpPage caller.mram vicfpn caller.activeMswp swpfpn data devs
  some (0, devs)

-- ---------------------------------------------------------------------------
-- Bytes of random-access devices
-- ---------------------------------------------------------------------------

structure RandomAccess (mp : MemphyStruct) : Prop where
  rdmflg : mp.rdmflg ≠ 0
  length : mp.storage.length = mp.maxsz.toNat
  int : mp.maxsz < 0x80000000

def byteAt (devs : Devices) (d : DevId) (i : Int) : Option Byte := loadByte (devs d).storage i

theorem RandomAccess.byte (hd : RandomAccess (devs d)) (h0 : 0 ≤ i) (hi : i < (devs d).maxsz) :
    ∃ v, byteAt devs d i = some v := by
  have hlen : i.toNat < (devs d).storage.length := by
    rw [hd.length]
    omega
  exact ⟨(devs d).storage[i.toNat], by simp [byteAt, loadByte, h0, hlen]⟩

theorem read_byte (hd : RandomAccess (devs d)) (hv : byteAt devs d i = some v) (value : Byte) :
    memphyRead devs (some d) i value = some (0, v, devs) := by
  have hload : loadByte (devs d).storage i = some v := hv
  simp [memphyRead, hd.rdmflg, hload]

/-- Nothing but bytes has changed, and these only where `touched` allows it. -/
def ChangesOnly (touched : DevId → Int → Prop) (devs devs' : Devices) : Prop :=
  ∀ d, devs' d = { devs d with storage := (devs' d).storage } ∧
    (devs' d).storage.length = (devs d).storage.length ∧
    ∀ i, ¬ touched d i → byteAt devs' d i = byteAt devs d i

theorem ChangesOnly.refl (touched : DevId → Int → Prop)
    (devs : Devices) : ChangesOnly touched devs devs :=
  fun _ => ⟨rfl, rfl, fun _ _ => rfl⟩

theorem ChangesOnly.trans (h : ChangesOnly touched devs devs')
    (h' : ChangesOnly touched devs' devs'') :
    ChangesOnly touched devs devs'' := by
  intro d
  obtain ⟨heq, hlen, hbyte⟩ := h d
  obtain ⟨heq', hlen', hbyte'⟩ := h' d
  refine ⟨?_, hlen'.trans hlen, fun i hi => (hbyte' i hi).trans (hbyte i hi)⟩
  rw [heq', heq]

theorem ChangesOnly.mono (h : ChangesOnly touched devs devs')
    (hle : ∀ d i, touched d i → touched' d i) :
    ChangesOnly touched' devs devs' :=
  fun d => ⟨(h d).1, (h d).2.1, fun i hi => (h d).2.2 i fun ht => hi (hle d i ht)⟩

theorem ChangesOnly.maxsz (h : ChangesOnly touched devs devs') (d : DevId) :
    (devs' d).maxsz = (devs d).maxsz := by
  rw [(h d).1]

theorem ChangesOnly.randomAccess (h : ChangesOnly touched devs devs') (hd : RandomAccess (devs d)) :
    RandomAccess (devs' d) := by
  refine ⟨?_, ?_, ?_⟩
  · rw [(h d).1]
    exact hd.rdmflg
  · rw [(h d).2.1, h.maxsz]
    exact hd.length
  · rw [h.maxsz]
    exact hd.int

theorem write_byte (hd : RandomAccess (devs d)) (h0 : 0 ≤ i) (hi : i < (devs d).maxsz) (v : Byte) :
    ∃ devs', memphyWrite devs (some d) i v = some (0, devs') ∧ byteAt devs' d i = some v ∧
      ChangesOnly (fun d' i' => d' = d ∧ i' = i) devs devs' := by
  have hlen : i.toNat < (devs d).storage.length := by
    rw [hd.length]
    omega
  refine ⟨Function.update devs d { devs d with storage := (devs d).storage.set i.toNat v },
    ?_, ?_, ?_⟩
  · simp [memphyWrite, hd.rdmflg, storeByte, h0, hlen]
  · simp [byteAt, loadByte, h0, hlen]
  · intro d'
    by_cases hd' : d' = d
    · subst hd'
      refine ⟨by simp, by simp, fun i' hi' => ?_⟩
      have hne : 0 ≤ i' → i.toNat ≠ i'.toNat := fun h0' he => hi' ⟨rfl, by omega⟩
      simp only [byteAt, loadByte, Function.update_self]
      split
      · rename_i h0'
        exact List.getElem?_set_ne (hne h0')
      · rfl
    · simp [byteAt, Function.update_of_ne hd']

-- ---------------------------------------------------------------------------
-- The copy
-- ---------------------------------------------------------------------------

def WholeFrame (maxsz fpn : Int) : Prop := 0 ≤ fpn ∧ (fpn + 1) * pagingPagesz ≤ maxsz

instance : Decidable (WholeFrame maxsz fpn) := inferInstanceAs (Decidable (_ ∧ _))

theorem cellAddr_eq (hf : WholeFrame maxsz fpn) (hint : maxsz < 0x80000000) (h0 : 0 ≤ cellidx)
    (hc : cellidx < pagingPagesz) : cellAddr fpn cellidx = some (fpn * pagingPagesz + cellidx) := by
  obtain ⟨hpos, hle⟩ := hf
  simp only [pagingPagesz] at *
  have hbase : cint (fpn * 256) = some (fpn * 256) := if_pos (by omega)
  have hsum : cint (fpn * 256 + cellidx) = some (fpn * 256 + cellidx) := if_pos (by omega)
  simp [cellAddr, pagingPagesz, hbase, hsum]

theorem WholeFrame.cell (hf : WholeFrame maxsz fpn) (h0 : 0 ≤ cellidx)
    (hc : cellidx < pagingPagesz) :
    0 ≤ fpn * pagingPagesz + cellidx ∧ fpn * pagingPagesz + cellidx < maxsz := by
  obtain ⟨hpos, hle⟩ := hf
  simp only [pagingPagesz] at *
  omega

def CellsFrom (d : DevId) (fpn cellidx : Int) (d' : DevId) (i : Int) : Prop :=
  d' = d ∧ fpn * pagingPagesz + cellidx ≤ i ∧ i < (fpn + 1) * pagingPagesz

/-- From turn `cellidx` on the loop copies the rest of the frame and nothing else;
the source, being another device, stays as it is. -/
theorem swapCpLoop_spec (hne : r ≠ s) (hr : RandomAccess (devs r)) (hs : RandomAccess (devs s))
    (hf : WholeFrame (devs r).maxsz f) (hg : WholeFrame (devs s).maxsz g) (data : Int → Byte)
    (left : Nat) (h0 : 0 ≤ cellidx) (hleft : cellidx + left = pagingPagesz) :
    ∃ devs', swapCpLoop (some r) f (some s) g data left cellidx devs = some devs' ∧
      ChangesOnly (CellsFrom s g cellidx) devs devs' ∧
      ∀ j, cellidx ≤ j → j < pagingPagesz →
        byteAt devs' s (g * pagingPagesz + j) = byteAt devs r (f * pagingPagesz + j) := by
  induction left generalizing devs cellidx with
  | zero => exact ⟨devs, rfl, .refl _ _, fun j hj hj' => by omega⟩
  | succ left ih =>
    have hc : cellidx < pagingPagesz := by omega
    obtain ⟨hsrc0, hsrc⟩ := hf.cell h0 hc
    obtain ⟨hdst0, hdst⟩ := hg.cell h0 hc
    obtain ⟨v, hv⟩ := hr.byte hsrc0 hsrc
    obtain ⟨devs₁, hwrite, hv₁, honly⟩ := write_byte hs hdst0 hdst v
    rw [← honly.maxsz] at hf hg
    have h0' : 0 ≤ cellidx + 1 := by omega
    have hleft' : cellidx + 1 + left = pagingPagesz := by omega
    obtain ⟨devs', hloop, honly', hcopy⟩ :=
      ih (honly.randomAccess hr) (honly.randomAccess hs) hf hg h0' hleft'
    refine ⟨devs', ?_, ?_, fun j hj hj' => ?_⟩
    · rw [honly.maxsz] at hf hg
      simp [swapCpLoop, cellAddr_eq hf hr.int h0 hc, cellAddr_eq hg hs.int h0 hc,
        read_byte hr hv, hwrite, hloop]
    · refine (honly.mono ?_).trans (honly'.mono ?_)
      · rintro d i ⟨rfl, rfl⟩
        exact ⟨rfl, Int.le_refl _, by simp only [pagingPagesz] at *; omega⟩
      · rintro d i ⟨rfl, hlo, hhi⟩
        exact ⟨rfl, by omega, hhi⟩
    · rcases Int.lt_or_eq_of_le hj with hlt | rfl
      · rw [hcopy j (by omega) hj']
        exact (honly r).2.2 _ fun h => hne h.1
      · rw [(honly' s).2.2 _ fun h => by have := h.2.1; omega, hv₁, hv]

theorem mmSwapPage_spec (hne : r ≠ s) (hr : RandomAccess (devs r)) (hs : RandomAccess (devs s))
    (hf : WholeFrame (devs r).maxsz f) (hg : WholeFrame (devs s).maxsz g) (data : Int → Byte) :
    ∃ devs', mmSwapPage ⟨some r, some s⟩ f g data devs = some (0, devs') ∧
      ChangesOnly (CellsFrom s g 0) devs devs' ∧
      ∀ j, 0 ≤ j → j < pagingPagesz →
        byteAt devs' s (g * pagingPagesz + j) = byteAt devs r (f * pagingPagesz + j) := by
  obtain ⟨devs', hloop, hspec⟩ := swapCpLoop_spec hne hr hs hf hg data pagingPagesz.toNat
    (Int.le_refl 0) rfl
  exact ⟨devs', by simp [mmSwapPage, swapCpPage, hloop], hspec⟩

-- ---------------------------------------------------------------------------
-- Indexes outside the storage
-- ---------------------------------------------------------------------------

theorem loadByte_some {storage : List Byte} (h : loadByte storage i = some v) :
    0 ≤ i ∧ i.toNat < storage.length := by
  unfold loadByte at h
  split at h
  · rename_i h0
    exact ⟨h0, (List.getElem?_eq_some_iff.mp h).1⟩
  · cases h

theorem storeByte_some {storage : List Byte} (h : storeByte storage i v = some storage') :
    0 ≤ i ∧ i.toNat < storage.length := by
  unfold storeByte at h
  split at h
  · rename_i hi
    exact hi
  · cases h

theorem read_inRange (hd : RandomAccess (devs d))
    (h : memphyRead devs (some d) i value = some ret) :
    0 ≤ i ∧ i < (devs d).maxsz ∧ ret.2.2 = devs := by
  simp only [memphyRead, hd.rdmflg, ne_eq, not_false_eq_true, if_true, Option.bind_eq_bind,
    Option.bind_eq_some_iff] at h
  obtain ⟨v, hload, h⟩ := h
  cases h
  obtain ⟨h0, hlen⟩ := loadByte_some hload
  rw [hd.length] at hlen
  exact ⟨h0, by omega, rfl⟩

theorem write_inRange (hd : RandomAccess (devs d))
    (h : memphyWrite devs (some d) i v = some (ret, devs')) :
    0 ≤ i ∧ i < (devs d).maxsz ∧ ChangesOnly (fun _ _ => True) devs devs' := by
  have hstore := h
  simp only [memphyWrite, hd.rdmflg, ne_eq, not_false_eq_true, if_true, Option.bind_eq_bind,
    Option.bind_eq_some_iff] at hstore
  obtain ⟨storage, hstore, -⟩ := hstore
  obtain ⟨h0, hlen⟩ := storeByte_some hstore
  rw [hd.length] at hlen
  have hlt : i < (devs d).maxsz := by omega
  obtain ⟨devs'', hwrite, -, honly⟩ := write_byte hd h0 hlt v
  rw [hwrite] at h
  cases h
  exact ⟨h0, hlt, honly.mono fun _ _ _ => trivial⟩

theorem cint_some (h : cint x = some y) : y = x := by
  unfold cint at h
  split at h
  · exact (Option.some.inj h).symm
  · cases h

theorem cellAddr_some (h : cellAddr fpn cellidx = some a) : a = fpn * pagingPagesz + cellidx := by
  simp only [cellAddr, Option.bind_eq_bind, Option.bind_eq_some_iff] at h
  obtain ⟨base, hbase, hsum⟩ := h
  rw [cint_some hsum, cint_some hbase]

theorem swapCpLoop_inRange (hr : RandomAccess (devs r)) (hs : RandomAccess (devs s))
    (data : Int → Byte) (left : Nat)
    (h : swapCpLoop (some r) f (some s) g data left cellidx devs = some devs') (j : Int)
    (hj : cellidx ≤ j) (hleft : j < cellidx + left) :
    (0 ≤ f * pagingPagesz + j ∧ f * pagingPagesz + j < (devs r).maxsz) ∧
      0 ≤ g * pagingPagesz + j ∧ g * pagingPagesz + j < (devs s).maxsz := by
  induction left generalizing devs cellidx with
  | zero => omega
  | succ left ih =>
    simp only [swapCpLoop, Option.bind_eq_bind, Option.bind_eq_some_iff] at h
    obtain ⟨a, ha, b, hb, ⟨ret, v, devs₁⟩, hread, ⟨ret', devs₂⟩, hwrite, hloop⟩ := h
    obtain ⟨ha0, halt, rfl⟩ := read_inRange hr hread
    obtain ⟨hb0, hblt, honly⟩ := write_inRange hs hwrite
    rw [cellAddr_some ha] at ha0 halt
    rw [cellAddr_some hb] at hb0 hblt
    rcases Int.lt_or_eq_of_le hj with hlt | rfl
    · rw [← honly.maxsz r, ← honly.maxsz s]
      exact ih (honly.randomAccess hr) (honly.randomAccess hs) hloop (by omega)
        (by push_cast at hleft; omega)
    · exact ⟨⟨ha0, halt⟩, hb0, hblt⟩

theorem mmSwapPage_inRange (hr : RandomAccess (devs r)) (hs : RandomAccess (devs s))
    {data : Int → Byte} (h : mmSwapPage ⟨some r, some s⟩ f g data devs = some ret) :
    WholeFrame (devs r).maxsz f ∧ WholeFrame (devs s).maxsz g := by
  simp only [mmSwapPage, swapCpPage, Option.bind_eq_bind, Option.bind_eq_some_iff] at h
  obtain ⟨_, ⟨devs', hloop, -⟩, -⟩ := h
  have hin := swapCpLoop_inRange hr hs data _ hloop
  obtain ⟨⟨hf, -⟩, hg, -⟩ := hin 0 (Int.le_refl 0) (by decide)
  obtain ⟨⟨-, hf'⟩, -, hg'⟩ := hin 255 (by decide) (by decide)
  simp only [WholeFrame, pagingPagesz] at *
  omega

end AssignmentOS.Mm
