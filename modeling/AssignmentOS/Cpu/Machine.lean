import AssignmentOS.Cpu.Soundness

/-!
# Processes on one memory

Calls of `run` for several processes, one after the other in any order. They
share the devices and the heap, and each has an `mm` of its own. What they do
together is what an `Account` says, which keeps no heap and no pointers, and
no process can tell which others there are.
-/

namespace AssignmentOS.Cpu

open Memory Fallible Mm

-- ---------------------------------------------------------------------------
-- The machine
-- ---------------------------------------------------------------------------

structure Machine (P : Type) where
  devs : Devices
  frames : FrameHeap
  pages : Heap PgnT
  areas : Heap VmAreaStruct
  regions : Heap VmRgStruct
  mm : P → MmStruct
  pcb : P → Pcb

section
variable {P : Type} [DecidableEq P]

def Machine.view (m : Machine P) (p : P) : MmState :=
  ⟨m.devs, m.frames, m.pages, m.areas, m.regions, m.mm p⟩

def Machine.store (m : Machine P) (p : P) (pcb : Pcb) (s : MmState) : Machine P where
  devs := s.devs
  frames := s.frames
  pages := s.pages
  areas := s.areas
  regions := s.regions
  mm := Function.update m.mm p s.mm
  pcb := Function.update m.pcb p pcb

def Machine.run (m : Machine P) (caller : PcbDevices) (p : P) (env : Env) :
    Except Fault (Int × Machine P) := do
  let (stat, pcb, s) ← Cpu.run env caller (m.pcb p) (m.view p)
  .ok (stat, m.store p pcb s)

/-- Calls of `run`, each with what the allocators do and what unwritten memory holds at that time;
the answers go with the machine. -/
def Machine.runs (caller : PcbDevices) :
    List (P × Env) → Machine P → Except Fault (List (P × Int) × Machine P)
  | [], m => .ok ([], m)
  | (p, env) :: order, m => do
    let (stat, m) ← m.run caller p env
    let (stats, m) ← Machine.runs caller order m
    .ok ((p, stat) :: stats, m)

-- ---------------------------------------------------------------------------
-- What it is to do
-- ---------------------------------------------------------------------------

/-- The symbol tables, the calls that have reached the devices and the frames that are free. -/
structure Account (P : Type) where
  mm : P → MmStruct
  pcb : P → Pcb
  past : List Call
  free : DevId → List Int

/-- A process alone: its answer, and its `mm` and its program counter afterwards. -/
def turn (mm : MmStruct) (pcb : Pcb) : Int × MmStruct × Pcb :=
  match pcb.fetch with
  | none => (1, mm, pcb)
  | some (ins, pcb) => (statOf ins, onSymbols ins mm, pcb)

def outward (B : Board) (env : Env) (mm : MmStruct) (pcb : Pcb) (past : List Call)
    (free : DevId → List Int) :
    List Call × (DevId → List Int) :=
  match pcb.fetch with
  | none => (past, free)
  | some (ins, _) => ((callOf env ins).toList ++ past, B.taken (misses mm ins) free)

def Account.run (B : Board) (c : Account P) (p : P) (env : Env) : Int × Account P :=
  let (stat, mm, pcb) := turn (c.mm p) (c.pcb p)
  let (past, free) := outward B env (c.mm p) (c.pcb p) c.past c.free
  (stat, ⟨Function.update c.mm p mm, Function.update c.pcb p pcb, past, free⟩)

def Account.runs (B : Board) : List (P × Env) → Account P → List (P × Int) × Account P
  | [], c => ([], c)
  | (p, env) :: order, c =>
    let (stat, c) := c.run B p env
    let (stats, c) := Account.runs B order c
    ((p, stat) :: stats, c)

/-- The machine is as the account says, up to where the pages of a process are; no two processes
have the same page first. -/
structure Account.Describes (B : Board) (c : Account P) (m : Machine P) : Prop where
  pcb : m.pcb = c.pcb
  mm : ∀ p, m.mm p = { c.mm p with fifoPgn := (m.mm p).fifoPgn }
  stored : B.Stored c.past c.free m.frames m.devs
  area : ∀ p, AtMostOneArea m.areas (m.mm p).mmap
  live : ∀ p, HeadLive (m.view p)
  apart : ∀ p q pg, p ≠ q → (m.mm p).fifoPgn = some pg → (m.mm q).fifoPgn ≠ some pg

-- ---------------------------------------------------------------------------
-- One call
-- ---------------------------------------------------------------------------

theorem misses_fifoPgn (mm : MmStruct) (head : Ptr) (ins : Inst) :
    misses { mm with fifoPgn := head } ins = misses mm ins := rfl

theorem onSymbols_fifoPgn (mm : MmStruct) (head : Ptr) (ins : Inst) :
    onSymbols ins { mm with fifoPgn := head } = { onSymbols ins mm with fifoPgn := head } := by
  unfold onSymbols
  split
  · have hsymrg : ({ mm with fifoPgn := head } : MmStruct).symrg (asInt ins.arg1) =
        mm.symrg (asInt ins.arg1) :=
      rfl
    simp only [MmStruct.setSymrg, hsymrg]
    cases mm.symrg (asInt ins.arg1) <;> rfl
  · rfl

variable {B : Board} {c : Account P} {m m' : Machine P} {p : P} {env : Env}

theorem describes_executed (h : c.Describes B m) (hf : (m.pcb p).fetch = some (ins, pcb))
    (he : Executed B env c.past c.free ins (m.view p) s') :
    (c.run B p env).2.Describes B (m.store p pcb s') := by
  obtain ⟨hpaged, hstored⟩ := he
  have hfetch : (c.pcb p).fetch = some (ins, pcb) := by rwa [← h.pcb]
  have hown : (m.view p).mm = { c.mm p with fifoPgn := (m.mm p).fifoPgn } := h.mm p
  have hother : ∀ q, q ≠ p → ∀ pg, (m.mm q).fifoPgn = some pg →
      s'.pages.cell pg ≠ none ∧ s'.mm.fifoPgn ≠ some pg := fun q hq pg hpg =>
    hpaged.others pg (h.live q pg hpg) (h.apart q p pg hq hpg)
  simp only [Account.run, turn, outward, hfetch, Machine.store]
  constructor
  · rw [h.pcb]
  · intro q
    by_cases hq : q = p
    · subst hq
      simp only [Function.update_self]
      rw [hpaged.mm, hown, onSymbols_fifoPgn]
    · simp only [Function.update_of_ne hq]
      exact h.mm q
  · rw [hown, misses_fifoPgn] at hstored
    exact hstored
  · intro q
    by_cases hq : q = p
    · subst hq
      simpa [hpaged.areas, paged_mmap hpaged, Machine.view] using h.area q
    · simpa [Function.update_of_ne hq, hpaged.areas, Machine.view] using h.area q
  · intro q pg hpg
    by_cases hq : q = p
    · subst hq
      simp only [Machine.view, Function.update_self] at hpg
      exact hpaged.head pg hpg
    · simp only [Machine.view, Function.update_of_ne hq] at hpg
      exact (hother q hq pg hpg).1
  · intro q q' pg hne hpg
    by_cases hq : q = p
    · subst hq
      simp only [Function.update_self] at hpg
      simp only [Function.update_of_ne (Ne.symm hne)]
      exact fun hpg' => (hother q' (Ne.symm hne) pg hpg').2 hpg
    · simp only [Function.update_of_ne hq] at hpg
      by_cases hq' : q' = p
      · subst hq'
        simp only [Function.update_self]
        exact (hother q hq pg hpg).2
      · simp only [Function.update_of_ne hq']
        exact h.apart q q' pg hne hpg

theorem machine_run (m : Machine P) (caller : PcbDevices) (p : P) (env : Env) : m.run caller p env =
    match (m.pcb p).fetch with
    | none => .ok (1, m)
    | some (ins, pcb) => dispatch env caller ins (m.view p) >>=
        fun r => .ok (r.1, m.store p pcb r.2) := by
  unfold Machine.run
  cases hf : (m.pcb p).fetch with
  | none =>
    have hstore : m.store p (m.pcb p) (m.view p) = m := by simp [Machine.store, Machine.view]
    simp [Cpu.run, hf, hstore]
  | some r =>
    obtain ⟨ins, pcb⟩ := r
    rw [run_fetch hf]
    cases hd : dispatch env caller ins (m.view p) <;> simp [hd]

theorem account_run_pcb (c : Account P) (p : P) (env : Env) :
    (c.run B p env).2.pcb = Function.update c.pcb p (c.pcb p).advance := by
  unfold Account.run turn outward Pcb.advance
  cases (c.pcb p).fetch <;> rfl

theorem account_run_ram (c : Account P) (p : P) (env : Env) :
    (c.run B p env).2.free B.mram = c.free B.mram := by
  unfold Account.run turn outward
  cases (c.pcb p).fetch with
  | none => rfl
  | some r => exact B.taken_of_ne _ _ B.ne

theorem describes_mmap (h : c.Describes B m) (h' : (c.run B p env).2.Describes B m') :
    (fun q => (m'.mm q).mmap) = fun q => (m.mm q).mmap := by
  funext q
  rw [h'.mm q, h.mm q]
  show ((c.run B p env).2.mm q).mmap = (c.mm q).mmap
  by_cases hq : q = p
  · subst hq
    unfold Account.run turn outward
    cases (c.pcb q).fetch with
    | none => simp
    | some r => simp [onSymbols_mmap]
  · simp [Account.run, Function.update_of_ne hq]

theorem describes_run (h : c.Describes B m) (env : Env)
    (hsafe : ∀ ins pcb, (m.pcb p).fetch = some (ins, pcb) →
      Safe B (c.free B.mram) (m.mm p).mmap ins) :
    ∃ m', m.run B.caller p env = .ok ((c.run B p env).1, m') ∧
      (c.run B p env).2.Describes B m' := by
  rw [machine_run]
  cases hf : (m.pcb p).fetch with
  | none =>
    have hfetch : (c.pcb p).fetch = none := by rwa [← h.pcb]
    have hrun : c.run B p env = (1, c) := by simp [Account.run, turn, outward, hfetch]
    rw [hrun]
    exact ⟨m, rfl, h⟩
  | some r =>
    obtain ⟨ins, pcb⟩ := r
    obtain ⟨s', hd, he⟩ := dispatch_safe (s := m.view p) h.stored (h.live p) (h.area p) env
      (hsafe ins pcb hf)
    have hfetch : (c.pcb p).fetch = some (ins, pcb) := by rwa [← h.pcb]
    have hstat : (c.run B p env).1 = statOf ins := by simp [Account.run, turn, hfetch]
    refine ⟨m.store p pcb s', ?_, describes_executed h hf he⟩
    simp [hd, hstat]

theorem safe_of_run (h : c.Describes B m) (hrun : m.run B.caller p env = .ok r)
    (hf : (m.pcb p).fetch = some (ins, pcb)) : Safe B (c.free B.mram) (m.mm p).mmap ins := by
  rw [machine_run, hf] at hrun
  simp only [bind_eq_ok] at hrun
  obtain ⟨_, hd, -⟩ := hrun
  exact safe_of_dispatch (s := m.view p) h.stored (h.area p) hd

-- ---------------------------------------------------------------------------
-- Calls in any order
-- ---------------------------------------------------------------------------

def rest (pcb : Pcb) : List Inst := pcb.code.text.drop pcb.pc

theorem rest_eq (pcb : Pcb) :
    rest pcb = ((pcb.fetch.map fun r => r.1 :: rest r.2).getD []) := by
  unfold rest Pcb.fetch
  split
  · rename_i hlt
    exact List.drop_eq_getElem_cons hlt
  · rename_i hge
    exact List.drop_eq_nil_of_le (Nat.not_lt.mp hge)

def Allowed (B : Board) (ram : List Int) (mmap : P → Ptr) (pcb : P → Pcb) (order : List P) : Prop :=
  ∀ p, ∀ ins ∈ (rest (pcb p)).take (order.count p), Safe B ram (mmap p) ins

theorem allowed_cons {mmap : P → Ptr} {pcb : P → Pcb} : Allowed B ram mmap pcb (p :: order) ↔
    (∀ ins pcb', (pcb p).fetch = some (ins, pcb') → Safe B ram (mmap p) ins) ∧
      Allowed B ram mmap (Function.update pcb p (pcb p).advance) order := by
  have hother : ∀ q, q ≠ p → ((rest (Function.update pcb p (pcb p).advance q)).take
      (order.count q) = (rest (pcb q)).take ((p :: order).count q)) := by
    intro q hq
    rw [Function.update_of_ne hq, List.count_cons_of_ne (Ne.symm hq)]
  have hown : ∀ ins, ins ∈ (rest (pcb p)).take ((p :: order).count p) ↔
      (∃ pcb', (pcb p).fetch = some (ins, pcb')) ∨
        ins ∈ (rest (Function.update pcb p (pcb p).advance p)).take (order.count p) := by
    intro ins
    rw [Function.update_self, List.count_cons_self, rest_eq (pcb p), Pcb.advance]
    cases hf : (pcb p).fetch with
    | none => simp [rest_eq (pcb p), hf]
    | some r =>
      obtain ⟨ins', pcb'⟩ := r
      simp [eq_comm]
  constructor
  · intro hall
    refine ⟨fun ins pcb' hf => hall p ins ((hown ins).2 (.inl ⟨pcb', hf⟩)), fun q ins hins => ?_⟩
    by_cases hq : q = p
    · subst hq
      exact hall q ins ((hown ins).2 (.inr hins))
    · rw [hother q hq] at hins
      exact hall q ins hins
  · rintro ⟨hfirst, hall⟩ q ins hins
    by_cases hq : q = p
    · subst hq
      rcases (hown ins).1 hins with ⟨pcb', hf⟩ | hins
      · exact hfirst ins pcb' hf
      · exact hall q ins hins
    · rw [← hother q hq] at hins
      exact hall q ins hins

theorem runs_describes (h : c.Describes B m) (order : List (P × Env))
    (hsafe : Allowed B (c.free B.mram) (fun p => (m.mm p).mmap) m.pcb (order.map Prod.fst)) :
    ∃ m', m.runs B.caller order = .ok ((c.runs B order).1, m') ∧
      (c.runs B order).2.Describes B m' := by
  induction order generalizing m c with
  | nil => exact ⟨m, rfl, h⟩
  | cons x order ih =>
    obtain ⟨p, env⟩ := x
    obtain ⟨hfirst, hrest⟩ := allowed_cons.1 hsafe
    obtain ⟨m₁, hrun, h₁⟩ := describes_run h env hfirst
    have hpcb : m₁.pcb = Function.update m.pcb p (m.pcb p).advance := by
      rw [h₁.pcb, account_run_pcb, h.pcb]
    rw [← hpcb, ← account_run_ram c p env, ← describes_mmap h h₁] at hrest
    obtain ⟨m', hruns, h'⟩ := ih h₁ hrest
    refine ⟨m', ?_, h'⟩
    simp [Machine.runs, Account.runs, hrun, hruns]

theorem allowed_of_runs (h : c.Describes B m) (order : List (P × Env))
    (hruns : m.runs B.caller order = .ok r) :
    Allowed B (c.free B.mram) (fun p => (m.mm p).mmap) m.pcb (order.map Prod.fst) := by
  induction order generalizing m c r with
  | nil =>
    intro p ins hins
    simp at hins
  | cons x order ih =>
    obtain ⟨p, env⟩ := x
    simp only [Machine.runs, bind_eq_ok] at hruns
    obtain ⟨⟨stat, m₁⟩, hrun, ⟨stats, m'⟩, hruns, -⟩ := hruns
    have hfirst : ∀ ins pcb, (m.pcb p).fetch = some (ins, pcb) →
        Safe B (c.free B.mram) (m.mm p).mmap ins := fun ins pcb hf => safe_of_run h hrun hf
    obtain ⟨m₂, hrun', h₁⟩ := describes_run h env hfirst
    rw [hrun] at hrun'
    cases hrun'
    have hrest := ih h₁ hruns
    rw [account_run_ram, h₁.pcb, account_run_pcb, ← h.pcb, describes_mmap h h₁] at hrest
    exact allowed_cons.2 ⟨hfirst, hrest⟩

theorem runs_account (h : c.Describes B m) (order : List (P × Env))
    (hruns : m.runs B.caller order = .ok (stats, m')) :
    stats = (c.runs B order).1 ∧ (c.runs B order).2.Describes B m' := by
  obtain ⟨m₁, hruns', h'⟩ := runs_describes h order (allowed_of_runs h order hruns)
  rw [hruns] at hruns'
  cases hruns'
  exact ⟨rfl, h'⟩

/-- Whether the calls return is decided by the instructions that each process has to execute and by
how often it is called, not by the order; and if they do, the machine is as the account says. -/
theorem interleaving_sound (h : c.Describes B m) (order : List (P × Env)) :
    ((∃ r, m.runs B.caller order = .ok r) ↔
        Allowed B (c.free B.mram) (fun p => (m.mm p).mmap) m.pcb (order.map Prod.fst)) ∧
      ∀ stats m', m.runs B.caller order = .ok (stats, m') →
        stats = (c.runs B order).1 ∧ (c.runs B order).2.Describes B m' := by
  refine ⟨⟨fun ⟨r, hr⟩ => allowed_of_runs h order hr, fun hsafe => ?_⟩,
    fun stats m' => runs_account h order⟩
  obtain ⟨m', hruns, -⟩ := runs_describes h order hsafe
  exact ⟨_, hruns⟩

end

/-- Processes that have not started; each one's area 0 is at the address of this number. -/
def started (devs : Devices) (frames : FrameHeap) (areas : Heap VmAreaStruct) (area : P → Addr)
    (code : P → CodeSeg) : Machine P where
  devs := devs
  frames := frames
  pages := .empty
  areas := areas
  regions := .empty
  mm p := ⟨.replicate pagingMaxPgn 0, some (area p),
    .replicate pagingMaxSymtblSz ⟨0, 0, none⟩, none⟩
  pcb p := ⟨code p, 0⟩

def Machine.account (m : Machine P) (free : DevId → List Int) : Account P := ⟨m.mm, m.pcb, [], free⟩

theorem started_describes {B : Board} {frames : FrameHeap} (h : B.Stored [] free frames devs)
    (areas : Heap VmAreaStruct) (area : P → Addr)
    (harea : ∀ p, areas.cell (area p) = some ⟨0, 0, 0, 0, some 0, none⟩) (code : P → CodeSeg) :
    ((started devs frames areas area code).account free).Describes B
      (started devs frames areas area code) where
  pcb := rfl
  mm _ := rfl
  stored := h
  area p _ := ⟨_, _, rfl, harea p, rfl, rfl, Option.some_ne_none 0⟩
  live _ _ hpg := nomatch hpg
  apart _ _ _ _ hpg := nomatch hpg

/-- One process allocates a region and reads it, the other writes 200 to the RAM. -/
def twoPrograms : Bool → CodeSeg
  | false => ⟨[⟨.alloc, 16, 3, 0, 0⟩, ⟨.read, 3, 0, 0, 0⟩], show 2 < UInt32.size by decide⟩
  | true => oneInst ⟨.syscall, 17, 5, 300, 200⟩

def twoAreas : Heap VmAreaStruct := (Heap.empty.set 0 ⟨0, 0, 0, 0, some 0, none⟩).set 1
    ⟨0, 0, 0, 0, some 0, none⟩

theorem two_usable :
    mram ∈ Usable (sizes 512 [512, 0, 0, 0]) ∧ mswp 0 ∈ Usable (sizes 512 [512, 0, 0, 0]) :=
  ⟨show (512 : Int) ≤ 512 by decide, show (512 : Int) ≤ 512 by decide⟩

abbrev twoBoard : Board := mainBoard 512 [512, 0, 0, 0] two_usable.1 two_usable.2

theorem two_stored : ∃ devs frames,
    initDevices (.bump (9, some 9)) 512 [512, 0, 0, 0]
      (fun _ => ⟨[], 0, 0, 0, .prior (some 4)⟩) .empty =
      some (devs, frames) ∧
    twoBoard.Stored [] (allFrames (sizes 512 [512, 0, 0, 0])) frames devs :=
  stored_main _ two_usable.1 two_usable.2 (by decide) (by decide) (by decide) _ _

theorem twoPrograms_safe (ram : List Int) (hmmap : mmap ≠ none) (b : Bool) :
    ∀ ins ∈ (twoPrograms b).text, Safe twoBoard ram mmap ins := by
  intro ins hins
  cases b with
  | false =>
    rcases List.mem_cons.mp hins with rfl | hins
    · exact ⟨hmmap, by decide⟩
    · obtain rfl := List.mem_singleton.mp hins
      exact ⟨hmmap, by decide⟩
  | true =>
    obtain rfl := List.mem_singleton.mp hins
    refine ⟨by decide, fun _ => ⟨⟨fun hop => absurd hop (by decide), fun _ => ?_⟩,
      fun hop => absurd hop (by decide)⟩⟩
    exact ⟨by decide, show asInt 300 < 512 by decide⟩

theorem interleaving_sound_two : ∃ devs frames stats m',
    (started devs frames twoAreas Bool.toNat twoPrograms).runs ⟨some 0, some 1⟩
      [(false, .filled 0), (true, .filled 0), (false, .filled 0)] = .ok (stats, m') ∧
    stats = [(false, 0), (true, 0), (false, 0)] ∧ byteAt m'.devs 0 300 = some (-56) := by
  obtain ⟨devs, frames, -, hstored⟩ := two_stored
  have hd := started_describes hstored twoAreas Bool.toNat (by decide) twoPrograms
  obtain ⟨hiff, hout⟩ := interleaving_sound hd
    [(false, .filled 0), (true, .filled 0), (false, .filled 0)]
  obtain ⟨⟨stats, m'⟩, hruns⟩ := hiff.2 fun b ins hins =>
    twoPrograms_safe _ (Option.some_ne_none _) b ins (List.mem_of_mem_take hins)
  obtain ⟨hstats, hd'⟩ := hout stats m' hruns
  refine ⟨devs, frames, stats, m', hruns, hstats, ?_⟩
  exact hd'.stored.holds.ramBytes 300 (by decide) (show (300 : Int) < 512 by decide)

section
variable {P : Type} [DecidableEq P] {B : Board} {c : Account P}

-- ---------------------------------------------------------------------------
-- One process among others
-- ---------------------------------------------------------------------------

def alone : (n : Nat) → MmStruct → Pcb → List Int × MmStruct × Pcb
  | 0, mm, pcb => ([], mm, pcb)
  | n + 1, mm, pcb =>
    let (stat, mm, pcb) := turn mm pcb
    let (stats, mm, pcb) := alone n mm pcb
    (stat :: stats, mm, pcb)

def answersTo (p : P) (stats : List (P × Int)) : List Int := (stats.filter (·.1 = p)).map Prod.snd

theorem turn_fifoPgn (mm : MmStruct) (pcb : Pcb) (head : Ptr) :
    turn { mm with fifoPgn := head } pcb =
      ((turn mm pcb).1, { (turn mm pcb).2.1 with fifoPgn := head }, (turn mm pcb).2.2) := by
  unfold turn
  cases pcb.fetch with
  | none => rfl
  | some r => simp only [onSymbols_fifoPgn]

theorem alone_fifoPgn (n : Nat) (mm : MmStruct) (pcb : Pcb) (head : Ptr) :
    alone n { mm with fifoPgn := head } pcb =
      ((alone n mm pcb).1, { (alone n mm pcb).2.1 with fifoPgn := head },
        (alone n mm pcb).2.2) := by
  induction n generalizing mm pcb with
  | zero => rfl
  | succ n ih => simp only [alone, turn_fifoPgn, ih]

theorem turn_advance (mm : MmStruct) (pcb : Pcb) : (turn mm pcb).2.2 = pcb.advance := by
  unfold turn Pcb.advance
  cases pcb.fetch <;> rfl

theorem alone_pcb (n : Nat) (mm : MmStruct) (pcb : Pcb) :
    (alone n mm pcb).2.2 = Pcb.advance^[n] pcb := by
  induction n generalizing mm pcb with
  | zero => rfl
  | succ n ih =>
    rw [Function.iterate_succ_apply, ← turn_advance mm pcb]
    exact ih _ _

theorem alone_mm (n : Nat) (mm : MmStruct) (pcb : Pcb) :
    (alone n mm pcb).2.1 = ((rest pcb).take n).foldl (fun mm ins => onSymbols ins mm) mm := by
  induction n generalizing mm pcb with
  | zero => rfl
  | succ n ih =>
    refine (ih _ _).trans ?_
    rw [rest_eq pcb]
    cases hf : pcb.fetch with
    | none => simp [rest_eq pcb, hf]
    | some r => simp

theorem iterate_executed (n : Nat) (pcb : Pcb) :
    (Pcb.advance^[n] pcb).executed = pcb.executed ++ (rest pcb).take n := by
  induction n generalizing pcb with
  | zero => simp
  | succ n ih =>
    rw [Function.iterate_succ_apply, ih, Pcb.advance_executed, List.append_assoc,
      rest_eq pcb, Pcb.advance]
    cases hf : pcb.fetch with
    | none => simp [rest_eq pcb, hf]
    | some r => simp

theorem account_alone (c : Account P) (order : List (P × Env)) (p : P) :
    alone ((order.map Prod.fst).count p) (c.mm p) (c.pcb p) =
      (answersTo p (c.runs B order).1, (c.runs B order).2.mm p, (c.runs B order).2.pcb p) := by
  induction order generalizing c with
  | nil => rfl
  | cons x order ih =>
    obtain ⟨q, env⟩ := x
    have hnext := ih (c.run B q env).2
    by_cases hq : q = p
    · subst hq
      have hmm : (c.run B q env).2.mm q = (turn (c.mm q) (c.pcb q)).2.1 := by simp [Account.run]
      have hpcb : (c.run B q env).2.pcb q = (turn (c.mm q) (c.pcb q)).2.2 := by simp [Account.run]
      rw [hmm, hpcb] at hnext
      simp only [List.map_cons, List.count_cons_self, alone, hnext]
      simp [answersTo, Account.runs, Account.run]
    · have hmm : (c.run B q env).2.mm p = c.mm p := by
        simp [Account.run, Function.update_of_ne (Ne.symm hq)]
      have hpcb : (c.run B q env).2.pcb p = c.pcb p := by
        simp [Account.run, Function.update_of_ne (Ne.symm hq)]
      rw [hmm, hpcb] at hnext
      simp only [List.map_cons, List.count_cons_of_ne hq, hnext]
      simp [answersTo, Account.runs, hq]

end

theorem Account.Describes.bare {c : Account P} (h : c.Describes B m) (p : P) :
    ({ m.mm p with fifoPgn := none } : MmStruct) = { c.mm p with fifoPgn := none } := by
  rw [h.mm p]

section
variable {P Q : Type} [DecidableEq P] [DecidableEq Q] {B B' : Board} {c : Account P} {m : Machine P}
  {c' : Account Q} {m' : Machine Q}

theorem describes_alone (h : c.Describes B m) (order : List (P × Env)) (p : P)
    (hruns : m.runs B.caller order = .ok (stats, t)) :
    alone ((order.map Prod.fst).count p) { m.mm p with fifoPgn := none } (m.pcb p) =
      (answersTo p stats, { t.mm p with fifoPgn := none }, t.pcb p) := by
  obtain ⟨rfl, ht⟩ := runs_account h order hruns
  rw [h.bare p, ht.bare p, h.pcb, ht.pcb, alone_fifoPgn, account_alone (B := B)]

/-- Two processes with the same program and the same symbol table, each among others of its own and
on devices of its own: called equally often, they get the same answers and end up the same. -/
theorem noninterference (h : c.Describes B m) (h' : c'.Describes B' m') (p : P) (q : Q)
    (hpcb : m.pcb p = m'.pcb q)
    (hmm : { m.mm p with fifoPgn := none } = { m'.mm q with fifoPgn := none })
    (order : List (P × Env)) (order' : List (Q × Env))
    (hcount : (order.map Prod.fst).count p = (order'.map Prod.fst).count q)
    (hruns : m.runs B.caller order = .ok (stats, t))
    (hruns' : m'.runs B'.caller order' = .ok (stats', t')) :
    answersTo p stats = answersTo q stats' ∧ t.pcb p = t'.pcb q ∧
      ({ t.mm p with fifoPgn := none } : MmStruct) = { t'.mm q with fifoPgn := none } := by
  have halone := describes_alone h order p hruns
  rw [hpcb, hmm, hcount, describes_alone h' order' q hruns'] at halone
  simp only [Prod.mk.injEq] at halone
  obtain ⟨hstats, hend, hpc⟩ := halone
  exact ⟨hstats.symm, hpc.symm, hend.symm⟩

end

theorem noninterference_two : ∃ devs frames stats t stats' t',
    (started devs frames twoAreas Bool.toNat twoPrograms).runs ⟨some 0, some 1⟩
      [(false, .filled 0), (true, .filled 0), (false, .filled 0)] = .ok (stats, t) ∧
    (started devs frames twoAreas (fun _ : Unit => 0) fun _ => twoPrograms false).runs
      ⟨some 0, some 1⟩
      [((), .filled 0), ((), .filled 0)] = .ok (stats', t') ∧
    answersTo false stats = answersTo () stats' ∧ t.pcb false = t'.pcb () := by
  obtain ⟨devs, frames, -, hstored⟩ := two_stored
  have hd := started_describes hstored twoAreas Bool.toNat (by decide) twoPrograms
  have hd' := started_describes hstored twoAreas (fun _ : Unit => 0) (fun _ => rfl)
    fun _ => twoPrograms false
  obtain ⟨t, hruns, -⟩ := runs_describes hd
    [(false, .filled 0), (true, .filled 0), (false, .filled 0)]
    fun b ins hins => twoPrograms_safe _ (Option.some_ne_none _) b ins (List.mem_of_mem_take hins)
  obtain ⟨t', hruns', -⟩ := runs_describes hd' [((), .filled 0), ((), .filled 0)]
    fun _ ins hins => twoPrograms_safe _ (Option.some_ne_none _) false ins
      (List.mem_of_mem_take hins)
  obtain ⟨hstats, hpcb, -⟩ := noninterference hd hd' false () rfl rfl _ _ rfl hruns hruns'
  exact ⟨devs, frames, _, t, _, t', hruns, hruns', hstats, hpcb⟩

end AssignmentOS.Cpu
