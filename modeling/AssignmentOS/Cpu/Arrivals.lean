import AssignmentOS.Cpu.Schedule
import AssignmentOS.Os.Response

/-!
# Processes that arrive

`ld_routine` gives a process its `mm` when it adds it, while the others run. When that
is makes no difference: the calls do what they do if every process gets its `mm`
before the first of them (`works_account`). `init_mm` leaves `mmap` as it finds it, so in
memory that nobody has used before a process has no area, and nothing undefined
happens as long as it does without one (`arrivals_sound`).
-/

namespace AssignmentOS.Cpu

open Memory Fallible Transition Mm Os

-- ---------------------------------------------------------------------------
-- The loader's part
-- ---------------------------------------------------------------------------

/-- What the allocators do for a new process. The memory of its `mm` holds no pointers yet. -/
structure Arrival where
  env : Env
  mm : MmStruct
  mmap : mm.mmap = none
  fifoPgn : mm.fifoPgn = none

def Arrival.mmStruct (a : Arrival) : MmStruct := { a.mm with pgd := a.env.pgd }

inductive Work (P E : Type)
  | arrive (p : P)
  | run (p : P) (env : E)

/-- The instruction leaves nothing undefined in a process without an area, on devices of these
sizes. -/
def Areafree (memramsz memswpsz : Int) (ins : Inst) : Prop :=
  match ins.opcode with
  | .calc | .free => True
  | .alloc | .read | .write => False
  | .syscall => ins.arg0 ≠ 101 ∧ (ins.arg0 = 17 →
    asInt ins.arg1 ≠ sysmemIncOp ∧
      (⟨ins.arg1, ins.arg2, ins.arg3⟩ : ScRegs).InRange memramsz memswpsz)

theorem safe_noArea (B : Board) (ram : List Int) (ins : Inst) :
    Safe B ram none ins ↔ Areafree B.memramsz B.memswpsz ins := by
  unfold Safe Areafree
  cases ins.opcode with
  | «calc» | free => rfl
  | alloc | read | write => simp
  | syscall =>
    refine and_congr_right fun _ => imp_congr_right fun _ => ?_
    exact ⟨fun h => ⟨fun hop => (h.grows hop).1 rfl, h.inRange⟩,
      fun h => ⟨h.2, fun hop => absurd hop h.1⟩⟩

section
variable {P E : Type}

def Work.erase : Work P E → Work P Unit
  | .arrive p => .arrive p
  | .run p _ => .run p ()

def Work.arrives : Work P E → Option P
  | .arrive p => some p
  | .run .. => none

def Work.calls : Work P E → Option (P × E)
  | .arrive _ => none
  | .run p env => some (p, env)

def arrivals (ws : List (Work P E)) : List P := ws.filterMap Work.arrives

def calls (ws : List (Work P E)) : List (P × E) := ws.filterMap Work.calls

/-- No process arrives after it has been called. -/
def InOrder : List (Work P E) → Prop
  | [] => True
  | .arrive _ :: ws => InOrder ws
  | .run p _ :: ws => p ∉ arrivals ws ∧ InOrder ws

theorem arrivals_erase (ws : List (Work P E)) : arrivals (ws.map Work.erase) = arrivals ws := by
  rw [arrivals, arrivals, List.filterMap_map]
  congr 1
  funext w
  cases w <;> rfl

theorem calls_erase (ws : List (Work P E)) : (calls (ws.map Work.erase)).map Prod.fst =
    (calls ws).map Prod.fst := by
  rw [calls, calls, List.filterMap_map, List.map_filterMap, List.map_filterMap]
  congr 1
  funext w
  cases w <;> rfl

theorem inOrder_erase (ws : List (Work P E)) : InOrder (ws.map Work.erase) ↔ InOrder ws := by
  induction ws with
  | nil => rfl
  | cons w ws ih =>
    cases w with
    | arrive p => exact ih
    | run p env =>
      simp only [List.map_cons, Work.erase, InOrder, arrivals_erase, ih]

theorem arrivals_append (ws : List (Work P E)) (w : Work P E) :
    arrivals (ws ++ [w]) = arrivals ws ++ w.arrives.toList := by
  rw [arrivals, arrivals, List.filterMap_append]
  cases w <;> rfl

theorem inOrder_append {ws : List (Work P E)} {w : Work P E} (h : InOrder ws)
    (hnew : ∀ p, w.arrives = some p → p ∉ (calls ws).map Prod.fst) : InOrder (ws ++ [w]) := by
  induction ws with
  | nil => cases w <;> simp [InOrder, arrivals]
  | cons v ws ih =>
    cases v with
    | arrive p => exact ih h hnew
    | run p env =>
      have hp : w.arrives ≠ some p := fun he => hnew p he List.mem_cons_self
      refine ⟨fun hmem => ?_, ih h.2 fun q hq hmem => hnew q hq (List.mem_cons_of_mem _ hmem)⟩
      have hmem' : p ∈ arrivals (ws ++ [w]) := hmem
      rw [arrivals_append, List.mem_append, Option.mem_toList] at hmem'
      exact hmem'.elim h.1 hp

end

section
variable {P : Type} [DecidableEq P]

/-- `proc->mm = malloc(sizeof(struct mm_struct)); init_mm(proc->mm, proc)` for the process `p`. -/
def Machine.arrive (m : Machine P) (p : P) (a : Arrival) : Except Fault (Machine P) := do
  let (_, s) ← initMm a.env { m.view p with mm := a.mm }
  .ok (m.store p (m.pcb p) s)

def Machine.works (caller : PcbDevices) (arrival : P → Arrival) :
    List (Work P Env) → Machine P → Except Fault (List (P × Int) × Machine P)
  | [], m => .ok ([], m)
  | .arrive p :: ws, m => do
    let m ← m.arrive p (arrival p)
    Machine.works caller arrival ws m
  | .run p env :: ws, m => do
    let (stat, m) ← m.run caller p env
    let (stats, m) ← Machine.works caller arrival ws m
    .ok ((p, stat) :: stats, m)

-- ---------------------------------------------------------------------------
-- One arrival
-- ---------------------------------------------------------------------------

def Account.arrive (c : Account P) (p : P) (a : Arrival) : Account P :=
  { c with mm := Function.update c.mm p a.mmStruct }

variable {B : Board} {c : Account P} {m : Machine P} {arrival : P → Arrival}
  {ws : List (Work P Env)}

theorem SoleArea.set {areas : Heap VmAreaStruct} (h : SoleArea areas mmap)
    (ha : areas.cell a = none) (vma : VmAreaStruct) : SoleArea (areas.set a vma) mmap := by
  obtain ⟨b, old, hmmap, hcell, hrest⟩ := h
  have hne : b ≠ a := fun he => by
    rw [he, ha] at hcell
    cases hcell
  exact ⟨b, old, hmmap, by rwa [set_cell_of_ne _ _ hne], hrest⟩

/-- `init_mm` makes an area that no process can reach, and the others keep theirs. -/
theorem describes_arrive (h : c.Describes B m) (p : P) (a : Arrival) :
    ∃ m', m.arrive p a = .ok m' ∧ (c.arrive p a).Describes B m' := by
  obtain ⟨rg, -, hinit⟩ := initMm_spec a.env { m.view p with mm := a.mm }
  refine ⟨_, by rw [Machine.arrive, hinit]; rfl, ?_⟩
  have hmm : ∀ q pg, (Function.update m.mm p a.mmStruct q).fifoPgn = some pg →
      q ≠ p ∧ (m.mm q).fifoPgn = some pg := by
    intro q pg hpg
    by_cases hq : q = p
    · subst hq
      rw [Function.update_self] at hpg
      exact absurd (a.fifoPgn.symm.trans hpg) (Option.some_ne_none pg).symm
    · rw [Function.update_of_ne hq] at hpg
      exact ⟨hq, hpg⟩
  constructor
  · exact (Function.update_eq_self p m.pcb).trans h.pcb
  · intro q
    by_cases hq : q = p
    · subst hq
      simp only [Machine.store, Account.arrive, Function.update_self]
      rfl
    · simp only [Machine.store, Account.arrive, Function.update_of_ne hq]
      exact h.mm q
  · exact h.stored
  · intro q hne
    by_cases hq : q = p
    · subst hq
      simp only [Machine.store, Function.update_self] at hne
      exact absurd a.mmap hne
    · simp only [Machine.store, Function.update_of_ne hq] at hne ⊢
      exact SoleArea.set (h.area q hne) (a.env.area.fresh m.areas) _
  · intro q pg hpg
    exact h.live q pg (hmm q pg hpg).2
  · intro q q' pg hne hpg hpg'
    exact h.apart q q' pg hne (hmm q pg hpg).2 (hmm q' pg hpg').2

-- ---------------------------------------------------------------------------
-- Arrivals among calls
-- ---------------------------------------------------------------------------

def Account.joined (c : Account P) (arrival : P → Arrival) (ws : List (Work P Env)) : Account P :=
  { c with mm := fun p => if p ∈ arrivals ws then (arrival p).mmStruct else c.mm p }

theorem joined_arrive (c : Account P) (arrival : P → Arrival) (p : P) (ws : List (Work P Env)) :
    (c.arrive p (arrival p)).joined arrival ws = c.joined arrival (.arrive p :: ws) := by
  have hmm : ∀ q, (if q ∈ arrivals ws then (arrival q).mmStruct
      else Function.update c.mm p (arrival p).mmStruct q) =
      if q ∈ p :: arrivals ws then (arrival q).mmStruct else c.mm q := by
    intro q
    by_cases hq : q = p
    · subst hq
      simp
    · simp [hq]
  simp only [Account.joined, Account.arrive, hmm]
  rfl

theorem joined_run (c : Account P) (arrival : P → Arrival) (env : Env) (hp : p ∉ arrivals ws) :
    (c.joined arrival ws).run B p env =
      ((c.run B p env).1, (c.run B p env).2.joined arrival ws) := by
  have hmm : (c.joined arrival ws).mm p = c.mm p := if_neg hp
  have hupdate : ∀ mm, Function.update (c.joined arrival ws).mm p mm =
      fun q => if q ∈ arrivals ws then (arrival q).mmStruct else Function.update c.mm p mm q := by
    intro mm
    funext q
    by_cases hq : q = p
    · subst hq
      simp [hp]
    · simp [Account.joined, hq]
  simp only [Account.run, hmm, hupdate]
  rfl

theorem joined_mmap_of_not_mem (h : c.Describes B m) (arrival : P → Arrival)
    (hp : p ∉ arrivals ws) :
    ((c.joined arrival ws).mm p).mmap = (m.mm p).mmap := by
  have hmm : (c.joined arrival ws).mm p = c.mm p := if_neg hp
  rw [hmm, h.mm p]

theorem joined_mmap (h : c.Describes B m) (h' : (c.run B p env).2.Describes B m') :
    (fun q => (((c.run B p env).2.joined arrival ws).mm q).mmap) =
      fun q => ((c.joined arrival ws).mm q).mmap := by
  funext q
  by_cases hq : q ∈ arrivals ws
  · have hmm : ∀ c : Account P, (c.joined arrival ws).mm q = (arrival q).mmStruct :=
      fun c => if_pos hq
    rw [hmm, hmm]
  · rw [joined_mmap_of_not_mem h' arrival hq, joined_mmap_of_not_mem h arrival hq]
    exact congrFun (describes_mmap h h') q

theorem works_describes (h : c.Describes B m) (horder : InOrder ws)
    (hsafe : Allowed B (c.free B.mram) (fun p => ((c.joined arrival ws).mm p).mmap) m.pcb
      ((calls ws).map Prod.fst)) :
    ∃ m', m.works B.caller arrival ws = .ok (((c.joined arrival ws).runs B (calls ws)).1, m') ∧
      ((c.joined arrival ws).runs B (calls ws)).2.Describes B m' := by
  induction ws generalizing m c with
  | nil => exact ⟨m, rfl, h⟩
  | cons w ws ih =>
    cases w with
    | arrive p =>
      obtain ⟨m₁, harrive, h₁⟩ := describes_arrive h p (arrival p)
      have hpcb : m₁.pcb = m.pcb := h₁.pcb.trans h.pcb.symm
      rw [← joined_arrive, ← hpcb] at hsafe
      obtain ⟨m', hworks, h'⟩ := ih h₁ horder hsafe
      rw [joined_arrive] at hworks h'
      refine ⟨m', ?_, h'⟩
      rw [Machine.works, harrive]
      exact hworks
    | run p env =>
      obtain ⟨hp, horder⟩ := horder
      obtain ⟨hfirst, hrest⟩ := allowed_cons.1 hsafe
      obtain ⟨m₁, hrun, h₁⟩ := describes_run h env fun ins pcb hf => by
        rw [← joined_mmap_of_not_mem h arrival hp]
        exact hfirst ins pcb hf
      have hpcb : m₁.pcb = Function.update m.pcb p (m.pcb p).advance := by
        rw [h₁.pcb, account_run_pcb, h.pcb]
      have hrest' : Allowed B ((c.run B p env).2.free B.mram)
          (fun q => (((c.run B p env).2.joined arrival ws).mm q).mmap) m₁.pcb
            ((calls ws).map Prod.fst) := by
        rw [joined_mmap h h₁, account_run_ram, hpcb]
        exact hrest
      obtain ⟨m', hworks, h'⟩ := ih h₁ horder hrest'
      have hruns : (c.joined arrival (.run p env :: ws)).runs B (calls (.run p env :: ws)) =
          ((p, (c.run B p env).1) :: (((c.run B p env).2.joined arrival ws).runs B (calls ws)).1,
            (((c.run B p env).2.joined arrival ws).runs B (calls ws)).2) := by
        show (c.joined arrival ws).runs B ((p, env) :: calls ws) = _
        rw [Account.runs, joined_run c arrival env hp]
      rw [hruns]
      exact ⟨m', by simp [Machine.works, hrun, hworks], h'⟩

theorem allowed_of_works (h : c.Describes B m) (horder : InOrder ws)
    (hworks : m.works B.caller arrival ws = .ok r) :
    Allowed B (c.free B.mram) (fun p => ((c.joined arrival ws).mm p).mmap) m.pcb
      ((calls ws).map Prod.fst) := by
  induction ws generalizing m c r with
  | nil =>
    intro p ins hins
    simp [calls] at hins
  | cons w ws ih =>
    cases w with
    | arrive p =>
      obtain ⟨m₁, harrive, h₁⟩ := describes_arrive h p (arrival p)
      simp only [Machine.works, harrive, ok_bind] at hworks
      have hrest := ih h₁ horder hworks
      rw [h₁.pcb] at hrest
      rw [← joined_arrive, h.pcb]
      exact hrest
    | run p env =>
      obtain ⟨hp, horder⟩ := horder
      simp only [Machine.works, bind_eq_ok] at hworks
      obtain ⟨⟨stat, m₁⟩, hrun, ⟨stats, m'⟩, hworks, -⟩ := hworks
      have hfirst : ∀ ins pcb, (m.pcb p).fetch = some (ins, pcb) →
          Safe B (c.free B.mram) (m.mm p).mmap ins := fun ins pcb hf => safe_of_run h hrun hf
      obtain ⟨m₂, hrun', h₁⟩ := describes_run h env hfirst
      rw [hrun] at hrun'
      cases hrun'
      have hrest := ih h₁ horder hworks
      rw [joined_mmap h h₁, account_run_ram, h₁.pcb, account_run_pcb, ← h.pcb] at hrest
      refine allowed_cons.2 ⟨fun ins pcb hf => ?_, hrest⟩
      have hmmap := joined_mmap_of_not_mem h arrival hp
      exact hmmap.symm ▸ hfirst ins pcb hf

theorem works_account (h : c.Describes B m) (horder : InOrder ws)
    (hworks : m.works B.caller arrival ws = .ok (stats, m')) :
    stats = ((c.joined arrival ws).runs B (calls ws)).1 ∧
      ((c.joined arrival ws).runs B (calls ws)).2.Describes B m' := by
  obtain ⟨m₁, hworks', h'⟩ := works_describes h horder (allowed_of_works h horder hworks)
  rw [hworks] at hworks'
  cases hworks'
  exact ⟨rfl, h'⟩

end

-- ---------------------------------------------------------------------------
-- Arrivals in a run
-- ---------------------------------------------------------------------------

section
variable {cfg : Config} {mayMiss : Bool} {s t : State cfg}

/-- `add_proc` comes right after `init_mm`. -/
def Label.work : Label cfg → Option (Work cfg.Pid Unit)
  | .exec _ p _ => some (.run p ())
  | .ld (.addProc p) _ => some (.arrive p)
  | _ => none

def work (tr : List (Label cfg)) : List (Work cfg.Pid Unit) := tr.filterMap Label.work

theorem work_append (tr : List (Label cfg)) (e : Label cfg) :
    work (tr ++ [e]) = work tr ++ (Label.work e).toList := by
  rw [work, work, List.filterMap_append]
  cases he : Label.work e <;> simp [he]

theorem arrivals_work (tr : List (Label cfg)) : arrivals (work tr) = adds tr := by
  rw [arrivals, work, adds, List.filterMap_filterMap]
  congr 1
  funext e
  cases e with
  | ld op => cases op <;> rfl
  | timer | cpu | exec => rfl

theorem calls_work (tr : List (Label cfg)) : (calls (work tr)).map Prod.fst = called tr := by
  rw [calls, work, called, runs, List.filterMap_filterMap, List.map_filterMap, List.map_filterMap]
  congr 1
  funext e
  cases e with
  | ld op => cases op <;> rfl
  | timer | cpu | exec => rfl

theorem step_runs_added (ho : Owned s) (hs : Step mayMiss s e t) (he : e.runs = some (c, p)) :
    p.val < s.ld.added := by
  cases hs with
  | timer | ld => cases he
  | @cpu _ op _ _ d _ hop _ =>
    rw [label_runs] at he
    cases op with
    | run q =>
      cases he
      exact held_added ho (cpuRoutine_held hop).1
    | getProc | putProc | free | inspect | readDone | nextSlot | detachEvent => cases he

theorem run_inOrder (h : Run (system mayMiss cfg) tr s) :
    InOrder (work tr) ∧ (∀ p, p.val < s.ld.added → p ∈ adds tr) ∧
      ∀ p ∈ called tr, p.val < s.ld.added := by
  refine h.invariant (P := fun tr s => InOrder (work tr) ∧ (∀ p, p.val < s.ld.added → p ∈ adds tr) ∧
    ∀ p ∈ called tr, p.val < s.ld.added) ?_ ?_
  · rintro _ rfl
    exact ⟨trivial, fun p hp => absurd hp (Nat.not_lt_zero _),
      fun p hp => absurd hp List.not_mem_nil⟩
  · rintro tr s e t hr ⟨horder, hadds, hcalled⟩ ⟨a, ha⟩
    have hs := next_step ha
    obtain ⟨hadded, hnext⟩ := step_added hs
    refine ⟨?_, fun p hp => ?_, fun p hp => ?_⟩
    · rw [work_append]
      cases hw : Label.work e with
      | none => simpa using horder
      | some w =>
        refine inOrder_append horder fun p hp hmem => ?_
        rw [calls_work] at hmem
        have he : e.adds = some p := by
          unfold Label.work at hw
          split at hw <;> cases hw <;> cases hp
          rfl
        exact absurd (hcalled p hmem) (Nat.not_lt.mpr (Nat.le_of_eq (hnext p he)))
    · rw [adds_append, List.mem_append, Option.mem_toList]
      rw [hadded] at hp
      cases he : e.adds with
      | none => exact .inl (hadds p (by simpa [he] using hp))
      | some q =>
        have hq := hnext q he
        rcases Nat.lt_or_ge p.val s.ld.added with hlt | hge
        · exact .inl (hadds p hlt)
        · refine .inr (congrArg some (Fin.ext ?_))
          rw [he] at hp
          simp only [Option.toList_some, List.length_singleton] at hp
          omega
    · rw [called_append, List.mem_append] at hp
      rcases hp with hp | hp
      · exact Nat.lt_of_lt_of_le (hcalled p hp) (hadded ▸ Nat.le_add_right _ _)
      · obtain ⟨⟨c, q⟩, he, rfl⟩ := Option.map_eq_some_iff.mp (Option.mem_toList.mp hp)
        exact Nat.lt_of_lt_of_le (step_runs_added (reachable_owned hr.reachable) hs he)
          (hadded ▸ Nat.le_add_right _ _)

def waiting (devs : Devices) (frames : FrameHeap) (pages : Heap PgnT) (areas : Heap VmAreaStruct)
    (regions : Heap VmRgStruct) (arrival : P → Arrival) (pcb : P → Pcb) : Machine P :=
  ⟨devs, frames, pages, areas, regions, fun p => (arrival p).mm, pcb⟩

theorem waiting_describes {B : Board} {frames : FrameHeap} (h : B.Stored [] free frames devs)
    (pages : Heap PgnT) (areas : Heap VmAreaStruct) (regions : Heap VmRgStruct)
    (arrival : P → Arrival) (pcb : P → Pcb) :
    ((waiting devs frames pages areas regions arrival pcb).account free).Describes B
      (waiting devs frames pages areas regions arrival pcb) where
  pcb := rfl
  mm _ := rfl
  stored := h
  area p hne := absurd (arrival p).mmap hne
  live p pg hpg := absurd ((arrival p).fifoPgn.symm.trans hpg) (Option.some_ne_none pg).symm
  apart p _ pg _ hpg := absurd ((arrival p).fifoPgn.symm.trans hpg) (Option.some_ne_none pg).symm

variable {B : Board} {c : Account cfg.Pid} {m : Machine cfg.Pid}

theorem account_called (h : Run (system mayMiss cfg) tr s) (hstart : c.pcb = (State.start cfg).pcb)
    {order : List (cfg.Pid × Env)} (horder : order.map Prod.fst = called tr) (p : cfg.Pid) :
    (c.runs B order).2.pcb p = s.pcb p ∧
      (c.runs B order).2.mm p = (s.pcb p).executed.foldl
        (fun mm ins => onSymbols ins mm) (c.mm p) := by
  have halone := account_alone (B := B) c order p
  rw [Prod.ext_iff, Prod.ext_iff, horder, hstart] at halone
  obtain ⟨-, hmm, hpcb⟩ := halone
  constructor
  · rw [alone_pcb] at hpcb
    exact hpcb.symm.trans (run_pcb h p).symm
  · rw [alone_mm, executed_eq h p] at hmm
    exact hmm.symm

theorem onSymbols_noArea {l : List Inst} (h : ∀ ins ∈ l, Areafree memramsz memswpsz ins)
    (mm : MmStruct) :
    l.foldl (fun mm ins => onSymbols ins mm) mm = mm := by
  induction l with
  | nil => rfl
  | cons ins l ih =>
    have hins : onSymbols ins mm = mm := by
      have hsafe := h ins List.mem_cons_self
      unfold Areafree at hsafe
      unfold onSymbols
      split
      · simp_all
      · rfl
    rw [List.foldl_cons, hins]
    exact ih fun i hi => h i (List.mem_cons_of_mem _ hi)

/-- Whatever the schedule, and whenever the processes arrive: nothing undefined happens exactly if
every instruction executed so far does without an area. A process's `mm` is then still as `init_mm`
has made it. -/
theorem arrivals_sound (h : Run (system mayMiss cfg) tr s) (hd : c.Describes B m)
    (hstart : m.pcb = (State.start cfg).pcb) (arrival : cfg.Pid → Arrival)
    (ws : List (Work cfg.Pid Env)) (hws : ws.map Work.erase = work tr) :
    ((∃ r, m.works B.caller arrival ws = .ok r) ↔
        ∀ p, ∀ ins ∈ (s.pcb p).executed, Areafree B.memramsz B.memswpsz ins) ∧
      ∀ stats m', m.works B.caller arrival ws = .ok (stats, m') →
        m'.pcb = s.pcb ∧ ((c.joined arrival ws).runs B (calls ws)).2.Describes B m' ∧
        ∀ p ∈ adds tr, ({ m'.mm p with fifoPgn := none } : MmStruct) = (arrival p).mmStruct := by
  obtain ⟨horder, hadds, hcalled⟩ := run_inOrder h
  rw [← hws, inOrder_erase] at horder
  have harrivals : arrivals ws = adds tr := by rw [← arrivals_erase, hws, arrivals_work]
  have hcalls : (calls ws).map Prod.fst = called tr := by rw [← calls_erase, hws, calls_work]
  have hjoined : ∀ p ∈ adds tr, (c.joined arrival ws).mm p = (arrival p).mmStruct := fun p hp =>
    if_pos (harrivals ▸ hp)
  have hallowed : Allowed B (c.free B.mram) (fun p => ((c.joined arrival ws).mm p).mmap) m.pcb
      ((calls ws).map Prod.fst) ↔ ∀ p, ∀ ins ∈ (s.pcb p).executed,
        Areafree B.memramsz B.memswpsz ins := by
    simp only [Allowed, hstart, hcalls, executed_eq h]
    refine forall_congr' fun p => forall₂_congr fun ins hins => ?_
    -- something has been executed for this process, so it has arrived
    have hmem : p ∈ called tr := by
      by_contra hnot
      rw [← executed_eq h p, List.count_eq_zero_of_not_mem hnot, List.take_zero] at hins
      exact List.not_mem_nil hins
    rw [hjoined p (hadds p (hcalled p hmem)), Arrival.mmStruct, (arrival p).mmap]
    exact safe_noArea B _ ins
  refine ⟨⟨fun hreturns => ?_, fun hsafe => ?_⟩, fun stats m' hworks => ?_⟩
  · obtain ⟨r, hr⟩ := hreturns
    exact hallowed.1 (allowed_of_works hd horder hr)
  · obtain ⟨m', hworks, -⟩ := works_describes hd horder (hallowed.2 hsafe)
    exact ⟨_, hworks⟩
  · have hsafe := hallowed.1 (allowed_of_works hd horder hworks)
    obtain ⟨-, hd'⟩ := works_account hd horder hworks
    have hrun : (c.joined arrival ws).pcb = (State.start cfg).pcb := hd.pcb.symm.trans hstart
    refine ⟨funext fun p => ?_, hd', fun p hp => ?_⟩
    · rw [hd'.pcb]
      exact (account_called h hrun hcalls p).1
    · rw [hd'.bare p, (account_called h hrun hcalls p).2, onSymbols_noArea (hsafe p), hjoined p hp,
        Arrival.mmStruct, (arrival p).fifoPgn.symm]

end

def Arrival.zero : Arrival :=
  ⟨.filled 0, ⟨.replicate _ 0, none, .replicate _ ⟨0, 0, none⟩, none⟩, rfl, rfl⟩

theorem areafree_write {address value : UInt32} (h0 : 0 ≤ asInt address)
    (hlt : asInt address < memramsz) :
    Areafree memramsz memswpsz ⟨.syscall, 17, 5, address, value⟩ := by
  have hwrite : asInt 5 ≠ sysmemIncOp ∧ asInt 5 ≠ sysmemSwpOp := by decide
  exact ⟨show (17 : UInt32) ≠ 101 by decide, fun _ => ⟨hwrite.1, fun hop => absurd hop hwrite.2,
    fun _ => ⟨h0, hlt⟩⟩⟩

/-- Process 1 arrives between the two writes of process 0, and writes before the second of them. -/
theorem arrivals_sound_twoProcesses :
    let cfg := twoProcesses ⟨.syscall, 17, 5, 300, 200⟩ ⟨.syscall, 17, 5, 300, 7⟩
      ⟨.syscall, 17, 5, 301, 9⟩
    ∃ devs frames tr s stats m', exec (Os.next false) twoSlots (.start cfg) = some (tr, s) ∧
      (waiting devs frames .empty .empty .empty (fun _ => .zero) (State.start cfg).pcb).works
        ⟨some 0, some 1⟩ (fun _ => .zero)
        [.arrive 0, .run 0 (.filled 0), .arrive 1, .run 1 (.filled 0), .run 0 (.filled 0)] =
          .ok (stats, m') ∧
      m'.pcb = s.pcb ∧ byteAt m'.devs 0 300 = some 7 ∧ byteAt m'.devs 0 301 = some 9 := by
  intro cfg
  obtain ⟨devs, frames, -, hstored⟩ := two_stored
  obtain ⟨tr, s, hexec, hwork, hfirst, hother⟩ : ∃ tr s,
      exec (Os.next false) twoSlots (.start cfg) = some (tr, s) ∧
        work tr = [.arrive 0, .run 0 (), .arrive 1, .run 1 (), .run 0 ()] ∧
        (s.pcb 0).executed = [⟨.syscall, 17, 5, 300, 200⟩, ⟨.syscall, 17, 5, 300, 7⟩] ∧
        (s.pcb 1).executed = [⟨.syscall, 17, 5, 301, 9⟩] := ⟨_, _, rfl, rfl, rfl, rfl⟩
  have hd := waiting_describes hstored .empty .empty .empty (fun _ => Arrival.zero)
    (State.start cfg).pcb
  have hr : Run (system false cfg) tr s := run_exec hexec
  obtain ⟨hiff, hout⟩ := arrivals_sound hr hd rfl (fun _ => .zero)
    [.arrive 0, .run 0 (.filled 0), .arrive 1, .run 1 (.filled 0), .run 0 (.filled 0)] hwork.symm
  have hsafe : ∀ address value : UInt32, 0 ≤ asInt address → asInt address < 512 →
      Areafree twoBoard.memramsz twoBoard.memswpsz ⟨.syscall, 17, 5, address, value⟩ :=
    fun _ _ => areafree_write
  obtain ⟨⟨stats, m'⟩, hworks⟩ := hiff.2 <| by
    refine Fin.forall_fin_two.mpr ⟨?_, ?_⟩
    · rw [hfirst]
      exact List.forall_mem_cons.mpr ⟨hsafe 300 200 (by decide) (by decide),
        List.forall_mem_singleton.mpr (hsafe 300 7 (by decide) (by decide))⟩
    · rw [hother]
      exact List.forall_mem_singleton.mpr (hsafe 301 9 (by decide) (by decide))
  obtain ⟨hpcb, hd', -⟩ := hout stats m' hworks
  have hbytes := hd'.stored.holds.ramBytes
  exact ⟨devs, frames, tr, s, stats, m', hexec, hworks, hpcb,
    hbytes 300 (by decide) (show (300 : Int) < 512 by decide),
    hbytes 301 (by decide) (show (301 : Int) < 512 by decide)⟩

end AssignmentOS.Cpu
