import AssignmentOS.Cpu.Machine
import AssignmentOS.Os.Boot

/-!
# What load leaves as it was

`load` assigns the arguments that belong to an opcode, the others keep what `malloc`
has returned. `run` does not read those: a machine with the loaded programs and one
with the printed ones do the same, failures included (`boot_runs`).
-/

namespace AssignmentOS.Cpu

open Memory Fallible Mm Os
open Loader (used args arity)

variable {env : Env} {caller : PcbDevices}

theorem dispatch_used (h : used ins' = used ins) (s : MmState) :
    dispatch env caller ins' s = dispatch env caller ins s := by
  obtain ⟨opcode, arg0, arg1, arg2, arg3⟩ := ins
  obtain ⟨opcode', arg0', arg1', arg2', arg3'⟩ := ins'
  simp only [used, Prod.mk.injEq] at h
  obtain ⟨rfl, hargs⟩ := h
  cases opcode' <;> simp_all [args, arity, dispatch]

def recode (proc : Pcb) (code : CodeSeg) : Pcb := ⟨code, proc.pc⟩

theorem fetch_recode (h : code.text.map used = proc.code.text.map used) :
    (proc.fetch = none ∧ (recode proc code).fetch = none) ∨
      ∃ ins ins', proc.fetch = some (ins, ⟨proc.code, proc.pc + 1⟩) ∧
        (recode proc code).fetch = some (ins', ⟨code, proc.pc + 1⟩) ∧ used ins' = used ins := by
  have hsize : code.size = proc.code.size := by simpa [CodeSeg.size] using congrArg List.length h
  by_cases hlt : proc.pc < proc.code.size
  · have hlt' : proc.pc < code.size := hsize ▸ hlt
    refine .inr ⟨_, _, dif_pos hlt, dif_pos hlt', ?_⟩
    have hget : (code.text.map used)[proc.pc]? = (proc.code.text.map used)[proc.pc]? := by rw [h]
    rw [List.getElem?_map, List.getElem?_map, List.getElem?_eq_getElem hlt,
      List.getElem?_eq_getElem hlt'] at hget
    exact Option.some.inj hget
  · exact .inl ⟨dif_neg hlt, dif_neg (hsize ▸ hlt)⟩

theorem run_recode (h : code.text.map used = proc.code.text.map used) (s : MmState) :
    run env caller (recode proc code) s =
      (run env caller proc s).map fun r => (r.1, recode r.2.1 code, r.2.2) := by
  rcases fetch_recode h with ⟨hf, hf'⟩ | ⟨ins, ins', hf, hf', hused⟩
  · simp only [run, hf, hf']
    rfl
  · rw [run_fetch hf, run_fetch hf', dispatch_used hused]
    cases dispatch env caller ins s <;> rfl

section
variable {P : Type} [DecidableEq P] {m m' : Machine P} {code : P → CodeSeg}

def Machine.recode (m : Machine P) (code : P → CodeSeg) : Machine P :=
  { m with pcb := fun p => Cpu.recode (m.pcb p) (code p) }

/-- Both machines have the same programs, as far as they are in use. -/
def Machine.Alike (m : Machine P) (code : P → CodeSeg) : Prop :=
  ∀ p, (code p).text.map used = (m.pcb p).code.text.map used

theorem store_recode (m : Machine P) (code : P → CodeSeg) (p : P) (proc : Pcb) (s : MmState) :
    (m.recode code).store p (Cpu.recode proc (code p)) s = (m.store p proc s).recode code := by
  have hpcb : Function.update (m.recode code).pcb p (Cpu.recode proc (code p)) =
      fun q => Cpu.recode (Function.update m.pcb p proc q) (code q) := by
    funext q
    by_cases hq : q = p
    · subst hq
      simp
    · rw [Function.update_of_ne hq, Function.update_of_ne hq]
      rfl
  simp only [Machine.store, Machine.recode] at hpcb ⊢
  rw [hpcb]

theorem Machine.run_recode (h : m.Alike code) (p : P) (env : Env) :
    (m.recode code).run caller p env =
      (m.run caller p env).map fun r => (r.1, r.2.recode code) := by
  have hrun : Cpu.run env caller ((m.recode code).pcb p) ((m.recode code).view p) =
      (Cpu.run env caller (m.pcb p) (m.view p)).map
        fun r => (r.1, Cpu.recode r.2.1 (code p), r.2.2) :=
    Cpu.run_recode (h p) (m.view p)
  rw [Machine.run, Machine.run, hrun]
  cases Cpu.run env caller (m.pcb p) (m.view p) with
  | error e => rfl
  | ok r => exact congrArg (fun m => Except.ok (r.1, m)) (store_recode m code p r.2.1 r.2.2)

theorem run_code (h : run env caller proc s = .ok (stat, proc', s')) : proc'.code = proc.code := by
  have hsame : proc.code.text.map used = proc.code.text.map used := rfl
  rcases fetch_recode hsame with ⟨hf, -⟩ | ⟨ins, -, hf, -⟩
  · simp only [run, hf] at h
    cases h
    rfl
  · rw [((run_ok_iff hf).mp h).1]

theorem Machine.Alike.run (h : m.Alike code) (hrun : m.run caller p env = .ok (stat, m')) :
    m'.Alike code := by
  obtain ⟨⟨stat, proc, s⟩, hcpu, hstore⟩ := bind_eq_ok.mp hrun
  cases hstore
  intro q
  by_cases hq : q = p
  · subst hq
    simp only [Machine.store, Function.update_self, run_code hcpu]
    exact h q
  · simp only [Machine.store, Function.update_of_ne hq]
    exact h q

theorem Machine.runs_recode (h : m.Alike code) (order : List (P × Env)) :
    (m.recode code).runs caller order =
      (m.runs caller order).map fun r => (r.1, r.2.recode code) := by
  induction order generalizing m with
  | nil => rfl
  | cons call order ih =>
    rw [Machine.runs, Machine.runs, Machine.run_recode h]
    cases hrun : m.run caller call.1 call.2 with
    | error e => rfl
    | ok r =>
      have hrest := ih (h.run hrun)
      simp only [Except.map, ok_bind, hrest]
      cases r.2.runs caller order <;> rfl

end

/-- For printed files with no negative size: what a machine with the loaded programs does, in any
order of the calls and whatever else is in memory, is what it does with the programs as they were
printed. -/
theorem boot_runs (M : FrameMalloc) (before : BootBefore) (h : Printed files arg file program)
    (h0 : file.Storable) (devs : Devices) (heap : FrameHeap) :
    ∃ b, boot M before files arg devs heap = .ok b ∧
      ∀ (m : Machine b.config.Pid) (code : b.config.Pid → CodeSeg),
        (∀ p, (m.pcb p).code = (b.config.desc p).code) →
        (∀ p line, file.lines[p.val]? = some line →
          code p = (program (ConfigLine.ldProcess line).path).2) →
        ∀ caller order,
          (m.recode code).runs caller order =
            (m.runs caller order).map fun r => (r.1, r.2.recode code) := by
  obtain ⟨b, hboot, hof⟩ := boot_of M before h h0 devs heap
  refine ⟨b, hboot, fun m code hloaded hcode caller order => ?_⟩
  have halike : m.Alike code := by
    intro p
    obtain ⟨line, proc, hline, -, hloads, -, hdesc⟩ := hof.desc p
    rw [hcode p line hline, hloaded, hdesc, hloads.text]
  exact Machine.runs_recode halike order

theorem boot_runs_twoLines : ∃ before devs heap b,
    boot (.bump (9, some 9)) before twoLinesFiles "two".toList devs heap = .ok b ∧
      ∀ order, (started b.devs b.frames twoAreas Fin.val fun _ => Loader.threeLines).runs
        ⟨some 0, some 1⟩ order =
        ((started b.devs b.frames twoAreas Fin.val fun p => (b.config.desc p).code).runs
          ⟨some 0, some 1⟩ order).map
          fun r => (r.1, r.2.recode fun _ => Loader.threeLines) := by
  obtain ⟨b, hboot, hruns⟩ := boot_runs (.bump (9, some 9))
    ⟨⟨fun _ => 0, fun _ => 0, fun _ => [], fun _ => 0, fun _ => 0⟩, fun _ => .zero⟩ twoLines_printed
    twoLines_storable    (fun _ => ⟨[], 0, 0, 0, .prior (some 4)⟩) .empty
  exact ⟨_, _, _, b, hboot, hruns (started b.devs b.frames twoAreas Fin.val
    fun p => (b.config.desc p).code) (fun _ => Loader.threeLines) (fun _ => rfl) (fun _ _ _ => rfl)
      ⟨some 0, some 1⟩⟩

end AssignmentOS.Cpu
