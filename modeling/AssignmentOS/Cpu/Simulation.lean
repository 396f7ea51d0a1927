import AssignmentOS.Cpu.Arrivals
import AssignmentOS.Cpu.Leftovers

/-!
# The simulation as it stands

`main` from its files on, with the memory of the processes: it boots, the loader
gives each process its `mm`, and the CPUs call `run`. Whether something undefined
happens stands in the files (`simulation_sound`).
-/

namespace AssignmentOS.Cpu

open Memory Fallible Transition Mm Os
open Loader (used args arity)

theorem areafree_used (h : used ins' = used ins) :
    Areafree memramsz memswpsz ins' ↔ Areafree memramsz memswpsz ins := by
  obtain ⟨opcode, arg0, arg1, arg2, arg3⟩ := ins
  obtain ⟨opcode', arg0', arg1', arg2', arg3'⟩ := ins'
  simp only [used, Prod.mk.injEq] at h
  obtain ⟨rfl, hargs⟩ := h
  cases opcode' <;> simp_all [args, arity, Areafree]

theorem areafree_printed {l l' : List Inst} (h : l.map used = l'.map used)
    (hall : ∀ ins ∈ l, Areafree memramsz memswpsz ins) :
    ∀ ins ∈ l', Areafree memramsz memswpsz ins := by
  intro ins hins
  have hmem : used ins ∈ l.map used := h ▸ List.mem_map_of_mem hins
  obtain ⟨ins', hins', hused⟩ := List.mem_map.mp hmem
  exact (areafree_used hused).1 (hall ins' hins')

/-- For printed files, no negative size, a RAM and a first swap of two frames or more, and new
memory that holds no pointers: in every run of the threads the calls of `init_mm` and `run` return
exactly if each line's program, as far as it has got, consists of instructions that need no area. -/
theorem simulation_sound (M : FrameMalloc) (before : BootBefore)
    (h : Printed files arg file program) (h0 : file.Storable) (hram : mram ∈ Usable file.sizes)
    (hswp : mswp 0 ∈ Usable file.sizes) (devs : Devices) (heap : FrameHeap) :
    ∃ b, boot M before files arg devs heap = .ok b ∧
      ∀ mayMiss tr s, Run (system mayMiss b.config) tr s →
        ∀ pages areas regions arrival ws, ws.map Work.erase = work tr →
          ((∃ r, (waiting b.devs b.frames pages areas regions arrival
            (State.start b.config).pcb).works ⟨some mram, some (mswp 0)⟩ arrival ws = .ok r) ↔
            ∀ (p : b.config.Pid) (line : ConfigLine), file.lines[p.val]? = some line →
              ∀ ins ∈ (program line.ldProcess.path).2.text.take (s.pcb p).pc,
                Areafree file.memramsz.toInt (file.sizes (mswp 0)) ins) := by
  obtain ⟨b, hboot, hof⟩ := boot_of M before h h0 devs heap
  refine ⟨b, hboot, fun mayMiss tr s hr pages areas regions arrival ws hws => ?_⟩
  have hswaps : (file.memswpsz.toList.map Int32.toInt).length = pagingMaxMmswp :=
    (List.length_map _).trans file.memswpsz.toList_length
  have hlt : ∀ x : Int32, x.toInt < 0x80000000 := fun x => by
    have := x.toInt_lt
    omega
  have hlt' : (file.memswpsz.toList.map Int32.toInt).getD 0 0 < 0x80000000 := by
    rw [show (0 : Int) = (0 : Int32).toInt from rfl, List.getD_map]
    exact hlt _
  have hstored := stored_formatted hram hswp (hlt _) hlt' (hswaps.symm ▸ hof.devices)
  have hd := waiting_describes hstored pages areas regions arrival (State.start b.config).pcb
  refine (arrivals_sound hr hd rfl arrival ws hws).1.trans
    ⟨fun hall p line hline => ?_, fun hall p => ?_⟩
  · obtain ⟨line', hline', hexecs, -⟩ := hof.executes hr p
    rw [hline] at hline'
    cases hline'
    rw [(run_traced hr).execs p] at hexecs
    exact areafree_printed hexecs (hall p)
  · obtain ⟨line, hline, hexecs, -⟩ := hof.executes hr p
    rw [(run_traced hr).execs p] at hexecs
    exact areafree_printed hexecs.symm (hall p line hline)

/-- ALLOC is the second instruction: the calls cannot return any more once it has been executed. -/
theorem simulation_sound_twoLines : ∃ before devs heap b,
    boot (.bump (9, some 9)) before twoLinesFiles "two".toList devs heap = .ok b ∧
      ∀ tr s, Run (system false b.config) tr s → ∀ p : b.config.Pid, p.val = 0 → 2 ≤ (s.pcb p).pc →
        ∀ ws, ws.map Work.erase = work tr →
          ¬ ∃ r, (waiting b.devs b.frames .empty .empty .empty (fun _ => .zero)
            (State.start b.config).pcb).works
            ⟨some 0, some 1⟩ (fun _ => .zero) ws = .ok r := by
  have hram : mram ∈ Usable twoLinesFile.sizes := show (512 : Int) ≤ 1048576 by decide
  have hswp : mswp 0 ∈ Usable twoLinesFile.sizes := show (512 : Int) ≤ 16777216 by decide
  obtain ⟨b, hboot, hruns⟩ := simulation_sound (.bump (9, some 9))
    ⟨⟨fun _ => 0, fun _ => 0, fun _ => [], fun _ => 0, fun _ => 0⟩, fun _ => .zero⟩ twoLines_printed
    twoLines_storable hram hswp
    (fun _ => ⟨[], 0, 0, 0, .prior (some 4)⟩) .empty
  refine ⟨_, _, _, b, hboot, fun tr s hr p hp hpc ws hws hreturns => ?_⟩
  obtain ⟨line, hline⟩ : ∃ line, twoLinesFile.lines[p.val]? = some line := by
    rw [hp]
    exact ⟨_, rfl⟩
  obtain ⟨n, hn⟩ := Nat.exists_eq_add_of_le' hpc
  have hall := (hruns false tr s hr .empty .empty .empty (fun _ => .zero) ws hws).1
    hreturns p line hline
  rw [hn] at hall
  exact hall ⟨.alloc, 300, 4, 0, 0⟩ (List.mem_cons_of_mem _ List.mem_cons_self)

end AssignmentOS.Cpu
