import AssignmentOS.Mm.Devices
import AssignmentOS.Os.Completion
import AssignmentOS.Os.Printing
import AssignmentOS.Os.Priority

/-!
# From the files to the threads

What `main` and `ld_routine` make of the files: the configuration, the devices
and the processes. For printed files nothing fails but a negative size of a device,
and what the CPUs execute are the printed programs, as far as their instructions are
in use (`boot_printed`).
-/

namespace AssignmentOS.Os

open Fallible Scan Transition Mm
open Loader (EndsLine LoadFault LoadedPcb Printable load printProgram used)

-- ---------------------------------------------------------------------------
-- main and the calls of load
-- ---------------------------------------------------------------------------

inductive BootFault
  -- the argument does not fit into `path`
  | path
  | config (e : ConfigFault)
  -- `init_memphy` has followed a pointer that is not valid, NULL for a negative size
  | devices
  | load (e : LoadFault)
  deriving DecidableEq, Repr

structure BootBefore where
  config : ConfigBefore
  load : Nat → Loader.Before

/-- `path` in `main`, for its argument. -/
def configPath (arg : List Char) : Except BootFault (List Char) :=
  let path := "input/".toList ++ cString arg
  if path.length < 100 then .ok path else .error .path

/-- The calls of `load` by `ld_routine` from index `i` on, each with the next `avail_pid`. -/
def loadProcs (before : Nat → Loader.Before) (files : List Char → Option (List Char)) :
    {n : Nat} → (i : Nat) → (availPid : UInt32) → List.Vector LdProcess n →
      Except LoadFault (List.Vector LoadedPcb n)
  | 0, _, _, _ => .ok .nil
  | _ + 1, i, availPid, ps => do
    let (proc, availPid) ← load (before i) availPid ps.head.path (files ps.head.path)
    let procs ← loadProcs before files (i + 1) availPid ps.tail
    .ok (.cons proc procs)

structure Booted where
  conf : Configuration
  devs : Devices
  frames : FrameHeap
  procs : List.Vector LoadedPcb conf.numProcesses.toNat

/-- `main` on its argument, with the calls of `load` that its loader makes; `fopen` gives the
characters of a file. -/
def boot (M : FrameMalloc) (before : BootBefore) (files : List Char → Option (List Char))
    (arg : List Char) (devs : Devices) (h : FrameHeap) : Except BootFault Booted := do
  let path ← configPath arg
  let conf ← (readConfig before.config (files path)).mapError .config
  let (devs, frames) ← need .devices (initDevices M conf.memramsz conf.memswpsz devs h)
  let procs ← (loadProcs before.load files 0 1 conf.ldProcesses).mapError .load
  .ok ⟨conf, devs, frames, procs⟩

theorem noCode_lt :
    ([] : List Inst).length < UInt32.size := Nat.zero_lt_of_lt (UInt32.toNat_lt_size 0)

def Booted.code (b : Booted) (i : Nat) : CodeSeg :=
  b.procs.toList[i]?.elim ⟨[], noCode_lt⟩ fun proc => proc.pcb.code

def Booted.config (b : Booted) : Config := b.conf.config b.code

-- ---------------------------------------------------------------------------
-- Printed programs
-- ---------------------------------------------------------------------------

structure Loads (pid priority : UInt32) (code : CodeSeg) (proc : LoadedPcb) : Prop where
  pid : proc.pid = pid
  priority : proc.priority = priority
  pc : proc.pcb.pc = 0
  text : proc.pcb.code.text.map used = code.text.map used

theorem load_printed (before : Loader.Before) (availPid : UInt32) (path : List Char)
    (priority : UInt32) (code : CodeSeg) (hcode : ∀ ins ∈ code.text, Printable ins)
    (htail : EndsLine tail) :
    ∃ proc, load before availPid path (some (printProgram priority code ++ tail)) =
      .ok (proc, availPid + 1) ∧
      Loads availPid priority code proc := by
  obtain ⟨size, hheader, hsize⟩ := Loader.scanHeader_printed before priority code htail
  obtain ⟨loaded, hloaded, hmap⟩ :=
    Loader.loadText_printed (s := ⟨before.opcode, before.buf, Loader.printText code.text ++ tail⟩)
      before code.text hcode htail hsize 0 rfl
  refine ⟨Loader.newPcb availPid priority path size loaded, ?_, rfl, rfl, rfl, ?_⟩
  · rw [Loader.load_of_header availPid path hheader, hloaded]
    rfl
  · exact (List.map_map ..).trans hmap

/-- The program of each process, with its default priority, stands in the file that its line
names. -/
def Installed (files : List Char → Option (List Char)) (ps : List LdProcess)
    (program : List Char → UInt32 × CodeSeg) : Prop :=
  ∀ p ∈ ps, (∀ ins ∈ (program p.path).2.text, Printable ins) ∧
    ∃ tail, EndsLine tail ∧
      files p.path = some (printProgram (program p.path).1 (program p.path).2 ++ tail)

variable {files : List Char → Option (List Char)} {program : List Char → UInt32 × CodeSeg}

theorem loadProcs_printed (before : Nat → Loader.Before) (ps : List.Vector LdProcess n)
    (h : Installed files ps.toList program) (i : Nat) (availPid : UInt32) :
    ∃ procs, loadProcs before files i availPid ps = .ok procs ∧
      ∀ (j : Nat) proc, procs.toList[j]? = some proc → ∃ p : LdProcess, ps.toList[j]? = some p ∧
        Loads (availPid + .ofNat j) (program p.path).1 (program p.path).2 proc := by
  induction n generalizing i availPid with
  | zero =>
    refine ⟨.nil, rfl, fun j proc hproc => ?_⟩
    rw [List.Vector.toList_nil, List.getElem?_nil] at hproc
    cases hproc
  | succ n ih =>
    obtain ⟨p, ps, rfl⟩ := ps.exists_eq_cons
    rw [List.Vector.toList_cons] at h
    obtain ⟨hcode, tail, htail, hfile⟩ := h p List.mem_cons_self
    obtain ⟨proc, hload, hproc⟩ := load_printed (before i) availPid p.path
      (program p.path).1 _ hcode htail
    obtain ⟨procs, hprocs, hall⟩ := ih ps (fun q hq => h q (List.mem_cons_of_mem p hq))
      (i + 1) (availPid + 1)
    refine ⟨.cons proc procs, ?_, fun j proc' hj => ?_⟩
    · simp only [loadProcs, List.Vector.head_cons, List.Vector.tail_cons, hfile, hload,
        ok_bind, hprocs]
    · rw [List.Vector.toList_cons] at hj ⊢
      cases j with
      | zero =>
        cases hj
        exact ⟨p, rfl, by simpa using hproc⟩
      | succ j =>
        obtain ⟨q, hq, hloads⟩ := hall j proc' hj
        have hpid : availPid + 1 + UInt32.ofNat j = availPid + UInt32.ofNat (j + 1) := by
          rw [UInt32.add_assoc, UInt32.ofNat_add, UInt32.add_comm 1]
          rfl
        exact ⟨q, hq, hpid ▸ hloads⟩

-- ---------------------------------------------------------------------------
-- The system of the files
-- ---------------------------------------------------------------------------

/-- The files of a simulation: its configuration under this argument, and its programs. -/
structure Printed (files : List Char → Option (List Char)) (arg : List Char) (file : ConfigFile)
    (program : List Char → UInt32 × CodeSeg) : Prop where
  path : ("input/".toList ++ cString arg).length < 100
  config : ∃ tail, EndsLine tail ∧ files ("input/".toList ++ cString arg) =
    some (printConfig file ++ tail)
  programs : Installed files (file.lines.map ConfigLine.ldProcess) program

def ConfigFile.sizes (file : ConfigFile) : DevId → Int :=
  Mm.sizes file.memramsz.toInt (file.memswpsz.toList.map Int32.toInt)

/-- Every device that it asks for can have its storage. -/
def ConfigFile.Storable (file : ConfigFile) : Prop :=
  ∀ size ∈ file.memramsz.toInt :: file.memswpsz.toList.map Int32.toInt, 0 ≤ size

/-- `main` has read this configuration, formatted the devices that it asks for and got a process
from each line. -/
structure Booted.Of (M : FrameMalloc) (file : ConfigFile) (program : List Char → UInt32 × CodeSeg)
    (b : Booted) : Prop where
  conf : b.conf = file.configuration
  devices : Formatted M file.sizes (mswp pagingMaxMmswp) b.devs b.frames
  procs : ∀ i proc, b.procs.toList[i]? = some proc →
    ∃ line : ConfigLine, file.lines[i]? = some line ∧
    Loads (1 + .ofNat i) (program line.ldProcess.path).1 (program line.ldProcess.path).2 proc

theorem Printed.readConfig (before : BootBefore) (h : Printed files arg file program) :
    readConfig before.config (files ("input/".toList ++ cString arg)) = .ok file.configuration := by
  obtain ⟨tail, htail, hfile⟩ := h.config
  rw [hfile]
  exact readConfig_printed before.config file htail

theorem boot_of (M : FrameMalloc) (before : BootBefore) (h : Printed files arg file program)
    (h0 : file.Storable) (devs : Devices) (heap : FrameHeap) :
    ∃ b, boot M before files arg devs heap = .ok b ∧ b.Of M file program := by
  have hconf := h.readConfig before
  obtain ⟨devs', frames, hinit, hf⟩ := initDevices_formatted M h0 devs heap
  have hinit' : initDevices M file.configuration.memramsz file.configuration.memswpsz devs heap =
      some (devs', frames) := hinit
  obtain ⟨procs, hprocs, hall⟩ := loadProcs_printed before.load
    file.configuration.ldProcesses h.programs 0 1
  refine ⟨⟨file.configuration, devs', frames, procs⟩, ?_, rfl, ?_, fun i proc hproc => ?_⟩
  · simp only [boot, configPath, if_pos h.path, ok_bind, hconf, Except.mapError, hinit',
      need_some, hprocs]
  · have hswaps : (file.memswpsz.toList.map Int32.toInt).length = pagingMaxMmswp :=
      (List.length_map _).trans file.memswpsz.toList_length
    rwa [hswaps] at hf
  · obtain ⟨p, hp, hloads⟩ := hall i proc hproc
    have hp' : (file.lines.map ConfigLine.ldProcess)[i]? = some p := hp
    rw [List.getElem?_map] at hp'
    obtain ⟨line, hline, rfl⟩ := Option.map_eq_some_iff.mp hp'
    exact ⟨line, hline, hloads⟩

/-- `main` does not get to the threads with a negative size. -/
theorem storable_of_boot (h : Printed files arg file program)
    (hboot : boot M before files arg devs heap = .ok b) : file.Storable := by
  obtain ⟨path, hpath, hboot⟩ := bind_eq_ok.mp hboot
  rw [configPath, if_pos h.path] at hpath
  cases hpath
  rw [h.readConfig before] at hboot
  obtain ⟨_, hconf, hboot⟩ := bind_eq_ok.mp hboot
  cases hconf
  obtain ⟨r, hinit, -⟩ := bind_eq_ok.mp hboot
  exact initDevices_nonneg (need_eq_ok.mp hinit)

theorem desc_config (conf : Configuration) (code : Nat → CodeSeg) (p : (conf.config code).Pid) :
    (conf.config code).desc p =
      ⟨(conf.ldProcesses.get (p.cast (conf.numProcesses_config code))).startTime, code p⟩ :=
  List.get_ofFn _ p

section
variable {M : FrameMalloc} {file : ConfigFile} {b : Booted}

theorem Booted.Of.desc (h : b.Of M file program) (p : b.config.Pid) :
    ∃ line proc, file.lines[p.val]? = some line ∧ b.procs.toList[p.val]? = some proc ∧
      Loads (1 + .ofNat p) (program line.ldProcess.path).1 (program line.ldProcess.path).2 proc ∧
      (b.config.desc p).startTime = line.startTime ∧ (b.config.desc p).code = proc.pcb.code := by
  have hp : p.val < b.procs.toList.length := by
    rw [List.Vector.toList_length, ← b.conf.numProcesses_config b.code]
    exact p.isLt
  obtain ⟨line, hline, hloads⟩ := h.procs p _ (List.getElem?_eq_getElem hp)
  have hdesc := desc_config b.conf b.code p
  refine ⟨line, _, hline, List.getElem?_eq_getElem hp, hloads, ?_, ?_⟩
  · have hlines : b.conf.ldProcesses.toList = file.lines.map ConfigLine.ldProcess := by
      rw [h.conf]
      rfl
    have hget : b.conf.ldProcesses.get (p.cast (b.conf.numProcesses_config b.code)) =
        line.ldProcess := by
      have hsome : b.conf.ldProcesses.toList[p.val]? = some line.ldProcess := by
        rw [hlines, List.getElem?_map, hline]
        rfl
      rw [List.Vector.get_eq_get_toList]
      exact (List.getElem?_eq_some_iff.mp hsome).2
    have hstart := congrArg ProcDesc.startTime hdesc
    rwa [hget] at hstart
  · have hcode := congrArg ProcDesc.code hdesc
    rwa [Booted.code, List.getElem?_eq_getElem hp] at hcode

theorem Booted.Of.executes (h : b.Of M file program) (hr : Run (system mayMiss b.config) tr s)
    (p : b.config.Pid) :
    ∃ line : ConfigLine, file.lines[p.val]? = some line ∧
      (execs p tr).map used = ((program line.ldProcess.path).2.text.take (s.pcb p).pc).map used ∧
      (s.freed p ≠ 0 → (execs p tr).map used = (program line.ldProcess.path).2.text.map used) := by
  obtain ⟨line, proc, hline, -, hloads, -, hcode⟩ := h.desc p
  have htr := run_traced hr
  have hexecs : (execs p tr).map used =
      ((program line.ldProcess.path).2.text.take (s.pcb p).pc).map used := by
    rw [htr.execs p, Pcb.executed, htr.code p, hcode, List.map_take, hloads.text, List.map_take]
  refine ⟨line, hline, hexecs, fun hfreed => ?_⟩
  obtain ⟨-, hpc⟩ := through_of_freed hr hfreed
  have hsize : (s.pcb p).pc = (program line.ldProcess.path).2.text.length := by
    rw [hpc, hcode, CodeSeg.size, ← List.length_map used, hloads.text, List.length_map]
  rw [hexecs, hsize, List.take_length]

end

/-- Printed files are read and run: the threads are reached exactly if no device has a negative
size, and whatever the schedule, the CPUs execute for each line the program that it names, from the
first instruction on. If `get_proc` finds what is queued, all of it has been executed when the
deadline is over. -/
theorem boot_printed (M : FrameMalloc) (before : BootBefore) (h : Printed files arg file program)
    (devs : Devices) (heap : FrameHeap) :
    ((∃ b, boot M before files arg devs heap = .ok b) ↔ file.Storable) ∧
    ∀ b, boot M before files arg devs heap = .ok b → b.Of M file program ∧
      ∀ mayMiss tr s, Run (system mayMiss b.config) tr s → ∀ p, ∃ line : ConfigLine,
        file.lines[p.val]? = some line ∧
        (execs p tr).map used = ((program line.ldProcess.path).2.text.take (s.pcb p).pc).map used ∧
        (s.freed p ≠ 0 ∨ (mayMiss = false ∧ 0 < file.numCpus.toInt ∧ b.config.deadline < ticks tr) →
          (execs p tr).map used = (program line.ldProcess.path).2.text.map used) := by
  constructor
  · constructor
    · rintro ⟨b, hboot⟩
      exact storable_of_boot h hboot
    · intro h0
      obtain ⟨b, hboot, -⟩ := boot_of M before h h0 devs heap
      exact ⟨b, hboot⟩
  intro b hboot
  obtain ⟨_, hboot', hof⟩ := boot_of M before h (storable_of_boot h hboot) devs heap
  rw [hboot] at hboot'
  cases hboot'
  refine ⟨hof, fun mayMiss tr s hr p => ?_⟩
  obtain ⟨line, hline, hexecs, hall⟩ := hof.executes hr p
  refine ⟨line, hline, hexecs, ?_⟩
  rintro (hfreed | ⟨rfl, hcpus, hlate⟩)
  · exact hall hfreed
  · have hpos : 0 < b.config.numCpus := by
      have hnum : b.config.numCpus = file.numCpus.toInt.toNat :=
        congrArg (fun conf : Configuration => conf.numCpus.toNat) hof.conf
      omega
    exact hall (freed_of_late hpos hr hlate p)

def twoLinesFiles (path : List Char) : Option (List Char) :=
  if path = "input/two".toList then some (printConfig twoLinesFile)
  else some (printProgram 20 Loader.threeLines)

theorem twoLinesFiles_program (line : ConfigLine) :
    twoLinesFiles line.ldProcess.path = some (printProgram 20 Loader.threeLines) := by
  have hdir : "input/proc/".toList.length = 11 := rfl
  have htwo : "input/two".toList.length = 9 := rfl
  have hne : line.ldProcess.path ≠ "input/two".toList := by
    intro heq
    have hlength : ("input/proc/".toList ++ line.proc).length = "input/two".toList.length :=
      congrArg List.length heq
    rw [List.length_append, hdir, htwo] at hlength
    omega
  rw [twoLinesFiles, if_neg hne]

theorem twoLines_printed :
    Printed twoLinesFiles "two".toList twoLinesFile fun _ => (20, Loader.threeLines) where
  path := by decide
  config := ⟨[], .inl rfl, by simp [twoLinesFiles, cString]⟩
  programs p hp := by
    obtain ⟨line, -, rfl⟩ := List.mem_map.mp hp
    refine ⟨by simp [Loader.threeLines, Printable, Loader.args, Loader.arity], [], .inl rfl, ?_⟩
    rw [twoLinesFiles_program, List.append_nil]

theorem twoLines_storable : twoLinesFile.Storable := by
  rw [ConfigFile.Storable]
  decide

theorem boot_printed_twoLines : ∃ before devs heap b,
    boot (.bump (9, some 9)) before twoLinesFiles "two".toList devs heap = .ok b ∧
      b.conf = twoLinesFile.configuration ∧
      ∀ tr s, Run (system false b.config) tr s → b.config.deadline < ticks tr →
        ∀ p, (execs p tr).map used = Loader.threeLines.text.map used := by
  obtain ⟨hboots, hall⟩ := boot_printed (.bump (9, some 9))
    ⟨⟨fun _ => 0, fun _ => 0, fun _ => [], fun _ => 0, fun _ => 0⟩, fun _ => .zero⟩ twoLines_printed
    (fun _ => ⟨[], 0, 0, 0, .prior (some 4)⟩) .empty
  obtain ⟨b, hboot⟩ := hboots.2 twoLines_storable
  obtain ⟨hof, hruns⟩ := hall b hboot
  refine ⟨_, _, _, b, hboot, hof.conf, fun tr s hr hlate p => ?_⟩
  obtain ⟨line, -, -, hall⟩ := hruns false tr s hr p
  exact hall (.inr ⟨rfl, by decide, hlate⟩)

end AssignmentOS.Os
