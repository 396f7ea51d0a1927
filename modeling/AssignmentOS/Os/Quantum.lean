import AssignmentOS.Lib.Transition
import AssignmentOS.Os.Threads

/-!
# The time quantum

`cpu_routine` on its own, with any answers of `get_proc` and any values of
`done`. A process stays with the CPU until it ends or its time is up; the time
left is 0 whenever the CPU has no process, so each one starts with all of it.
-/

namespace AssignmentOS

/-- `proc->pc == proc->code->size`. -/
def Pcb.finished (proc : Pcb) : Bool := proc.pc == proc.code.size

def Pcb.remaining (proc : Pcb) : Nat := proc.code.size - proc.pc

def Pcb.after (proc : Pcb) (n : Nat) : Pcb := Pcb.advance^[n] proc

section
variable {proc : Pcb}

theorem Pcb.after_succ (proc : Pcb) (n : Nat) : proc.after (n + 1) = proc.advance.after n := rfl

theorem Pcb.advance_remaining (h : proc.pc ≤ proc.code.size) :
    proc.advance.remaining = proc.remaining - 1 := by
  unfold remaining
  rw [advance_code]
  unfold advance fetch
  split
  · simp only [Option.map_some, Option.getD_some]
    omega
  · simp only [Option.map_none, Option.getD_none]
    omega

theorem Pcb.finished_iff : proc.finished = true ↔ proc.pc = proc.code.size := beq_iff_eq

theorem Pcb.finished_iff_remaining (h : proc.pc ≤ proc.code.size) :
    proc.finished = true ↔ proc.remaining = 0 := by
  rw [finished_iff, remaining]
  omega

end

end AssignmentOS

namespace AssignmentOS.Os

open Transition

-- ---------------------------------------------------------------------------
-- The routine on its own
-- ---------------------------------------------------------------------------

/-- One operation. No other thread touches the process meanwhile, and `run` leaves it where its
code has taken it. -/
def soloNext (timeSlot : Int) (c : Cpu Pcb) (a : Option Pcb × Bool) :
    Option (CpuOp Pcb × Cpu Pcb) := do
  let (op, c) ← cpuRoutine timeSlot Pcb.finished c a.1 a.2
  match op with
  | .run p => some (op, { c with proc := some p.advance })
  | _ => some (op, c)

def solo (timeSlot : Int) : System (Cpu Pcb) (CpuOp Pcb) := .ofNext .start (soloNext timeSlot)

/-- `run` in each of `n` slots, and between two of them a look at the process. -/
def slots : (n : Nat) → (p : Pcb) → List (CpuOp Pcb)
  | 0, _ => []
  | 1, p => [.run p, .nextSlot]
  | n + 2, p => .run p :: .nextSlot :: .inspect p.advance :: slots (n + 1) p.advance

inductive TurnEnds (timeSlot : Int) (n : Nat) (p : Pcb) : CpuOp Pcb → Prop
  | free : p.pc = p.code.size → TurnEnds timeSlot n p (.free p)
  | putProc : p.pc ≠ p.code.size → n = timeSlot → TurnEnds timeSlot n p (.putProc p)

def quantum (timeSlot : Int) (p : Pcb) : Nat := min timeSlot.toNat (max 1 p.remaining)

def turn : (left : Nat) → (p : Pcb) → List (CpuOp Pcb)
  | 0, p => [.run p, .nextSlot, if p.advance.finished then .free p.advance else .putProc p.advance]
  | left + 1, p => .run p :: .nextSlot ::
    if p.advance.finished then [.free p.advance] else .inspect p.advance :: turn left p.advance

inductive Owes (timeSlot : Int) : Cpu Pcb → List (CpuOp Pcb) → Prop
  | dispatched : (if time = 0 then timeSlot else time) = ((left : Nat) : Int) + 1 →
      Owes timeSlot ⟨.recheck, some p, time⟩ (turn left p)
  | ran : Owes timeSlot ⟨.top, some p, time⟩ ops →
      Owes timeSlot ⟨.slot, some p, time⟩ (.nextSlot :: ops)
  | ended : p.finished = true → Owes timeSlot ⟨.top, some p, time⟩ [.free p]
  | expired : p.finished = false → Owes timeSlot ⟨.top, some p, 0⟩ [.putProc p]
  | goesOn : p.finished = false → (left : Nat) →
      Owes timeSlot ⟨.top, some p, left + 1⟩ (.inspect p :: turn left p)
  | paid : Owes timeSlot c []

-- ---------------------------------------------------------------------------
-- The time left
-- ---------------------------------------------------------------------------

section
variable {timeSlot : Int} {c c' : Cpu Pcb} {p : Pcb}

/-- No process has left some time over, but for one that has just been freed. -/
def Cpu.Spent (c : Cpu Pcb) : Prop := c.proc = none ∨ c.pc = .refetch → c.timeLeft = 0

theorem spent_step (hc : c.Spent) (hs : soloNext timeSlot c a = some (op, c')) : c'.Spent := by
  simp only [soloNext, Option.bind_eq_bind, Option.bind_eq_some_iff] at hs
  obtain ⟨⟨op', c₁⟩, hcpu, hs⟩ := hs
  cases cpuRoutine_step hcpu with
  | first _ hproc =>
    cases hs
    exact fun _ => hc (.inl hproc)
  | putProc _ _ _ htime =>
    cases hs
    exact fun _ => htime
  | reload =>
    cases hs
    exact fun _ => rfl
  | refetch hpc =>
    cases hs
    exact fun _ => hc (.inr hpc)
  | readDone _ hproc =>
    cases hs
    exact fun _ => hc (.inl hproc)
  | free _ hproc | inspect _ hproc =>
    cases hs
    simp [Cpu.Spent, hproc]
  | run =>
    cases hs
    simp [Cpu.Spent]
  | nextSlot hpc | detachEvent hpc =>
    cases hs
    exact fun hidle => hc (.inl (hidle.resolve_right (by simp)))

theorem reachable_spent (hc : Reachable (solo timeSlot) c) : c.Spent := by
  refine hc.invariant ?_ ?_
  · rintro _ rfl _
    rfl
  · rintro s op t - hspent ⟨a, hs⟩
    exact spent_step hspent hs

theorem soloNext_getProc (hc : c.Spent)
    (hs : soloNext timeSlot c a = some (.getProc (some p), c')) :
    c' = ⟨.recheck, some p, 0⟩ := by
  obtain ⟨ans, done⟩ := a
  simp only [soloNext, Option.bind_eq_bind, Option.bind_eq_some_iff] at hs
  obtain ⟨⟨op, c₁⟩, hcpu, hs⟩ := hs
  cases cpuRoutine_step hcpu with
  | first _ hproc =>
    cases hs
    simp [hc (.inl hproc)]
  | reload =>
    cases hs
    rfl
  | refetch hpc =>
    cases hs
    simp [hc (.inr hpc)]
  | _ => cases hs

-- ---------------------------------------------------------------------------
-- A turn
-- ---------------------------------------------------------------------------

theorem owes_turn (timeSlot : Int) (left : Nat) (p : Pcb) :
    ∃ ops, turn left p = .run p :: .nextSlot :: ops ∧
      Owes timeSlot ⟨.top, some p.advance, left⟩ ops := by
  cases left with
  | zero =>
    refine ⟨_, rfl, ?_⟩
    split
    · rename_i hfin
      exact .ended hfin
    · rename_i hfin
      exact .expired (Bool.not_eq_true _ ▸ hfin)
  | succ left =>
    refine ⟨_, rfl, ?_⟩
    split
    · rename_i hfin
      exact .ended hfin
    · rename_i hfin
      exact .goesOn (Bool.not_eq_true _ ▸ hfin) left

theorem owes_step (hc : Owes timeSlot c (op :: ops)) (a : Option Pcb × Bool) :
    ∃ c', soloNext timeSlot c a = some (op, c') ∧ Owes timeSlot c' ops := by
  generalize hl : op :: ops = l at hc
  cases hc with
  | @dispatched t left p htime =>
    obtain ⟨rest, hturn, hrest⟩ := owes_turn timeSlot left p
    rw [hturn] at hl
    cases hl
    refine ⟨_, by simp [soloNext, cpuRoutine]; rfl, ?_⟩
    rw [htime, Int.add_sub_cancel]
    exact .ran hrest
  | ran hrest =>
    cases hl
    exact ⟨_, rfl, hrest⟩
  | ended hfin =>
    cases hl
    exact ⟨_, by simp [soloNext, cpuRoutine, hfin]; rfl, .paid⟩
  | expired hfin =>
    cases hl
    exact ⟨_, by simp [soloNext, cpuRoutine, hfin]; rfl, .paid⟩
  | @goesOn p hfin left =>
    cases hl
    have htime : (left : Int) + 1 ≠ 0 := by omega
    refine ⟨_, by simp [soloNext, cpuRoutine, hfin, htime]; rfl, .dispatched ?_⟩
    rw [if_neg htime]
  | paid => cases hl

theorem TurnEnds.succ (h : TurnEnds timeSlot n p op) : TurnEnds (timeSlot + 1) (n + 1) p op := by
  cases h with
  | free hpc => exact .free hpc
  | putProc hpc hn => exact .putProc hpc (by rw [Int.natCast_succ, hn])

theorem slots_succ (hn : 0 < n) (p : Pcb) :
    slots (n + 1) p = .run p :: .nextSlot :: .inspect p.advance :: slots n p.advance := by
  cases n with
  | zero => cases hn
  | succ n => rfl

theorem turn_slots (hp : p.pc ≤ p.code.size) (left : Nat) :
    ∃ n op, n = min (left + 1) (max 1 p.remaining) ∧ turn left p = slots n p ++ [op] ∧
      TurnEnds (left + 1) n (p.after n) op := by
  induction left generalizing p with
  | zero =>
    have hn : 1 = min (0 + 1) (max 1 p.remaining) := by omega
    refine ⟨1, _, hn, rfl, ?_⟩
    by_cases hfin : p.advance.finished
    · rw [if_pos hfin]
      exact .free (Pcb.finished_iff.1 hfin)
    · rw [if_neg hfin]
      exact .putProc (mt Pcb.finished_iff.2 hfin) rfl
  | succ left ih =>
    have hp' : p.advance.pc ≤ p.advance.code.size := by
      rw [Pcb.advance_code]
      exact p.advance_pc_le hp
    have hrem := Pcb.advance_remaining hp
    have hfin := Pcb.finished_iff_remaining hp'
    by_cases hlast : p.advance.finished
    · have hn : 1 = min (left + 1 + 1) (max 1 p.remaining) := by
        have := hfin.1 hlast
        omega
      exact ⟨1, .free p.advance, hn, by rw [turn, if_pos hlast]; rfl,
        .free (Pcb.finished_iff.1 hlast)⟩
    · obtain ⟨n, op, hn, hturn, hends⟩ := ih hp'
      have hmore : p.advance.remaining ≠ 0 := mt hfin.2 hlast
      have hpos : 0 < n := by omega
      refine ⟨n + 1, op, by omega, ?_, ?_⟩
      · rw [turn, if_neg hlast, hturn, slots_succ hpos]
        rfl
      · rw [Pcb.after_succ]
        exact hends.succ

/-- With the process the CPU gets the whole quantum, and uses it unless the code ends before. -/
theorem time_quantum (hslot : 1 ≤ timeSlot) (hc : Reachable (solo timeSlot) c)
    (hget : (solo timeSlot).step c (.getProc (some p)) c') (hp : p.pc ≤ p.code.size) :
    ∃ op, TurnEnds timeSlot (quantum timeSlot p) (p.after (quantum timeSlot p)) op ∧
      ∀ answers : List (Option Pcb × Bool), answers.length =
        (slots (quantum timeSlot p) p ++ [op]).length →
        ∃ c'', exec (soloNext timeSlot) answers c' =
          some (slots (quantum timeSlot p) p ++ [op], c'') := by
  obtain ⟨a, hget⟩ := hget
  obtain rfl := soloNext_getProc (reachable_spent hc) hget
  obtain ⟨left, hleft⟩ : ∃ left : Nat, timeSlot = left + 1 := ⟨timeSlot.toNat - 1, by omega⟩
  obtain ⟨n, op, hn, hturn, hends⟩ := turn_slots hp left
  have hquantum : quantum timeSlot p = n := by
    rw [hn, quantum, hleft]
    rfl
  rw [hquantum]
  refine ⟨op, hleft ▸ hends, fun answers hlen => exec_owed
    (fun _ _ _ a h => owes_step h a) ?_ answers hlen⟩
  rw [← hturn]
  exact .dispatched hleft

end

def threeCalcs : Pcb := ⟨⟨.replicate 3 ⟨.calc, 0, 0, 0, 0⟩, by decide⟩, 0⟩

theorem time_quantum_two : ∃ op, TurnEnds 2 2 (threeCalcs.after 2) op ∧
    ∀ answers : List (Option Pcb × Bool), answers.length = (slots 2 threeCalcs ++ [op]).length →
      ∃ c, exec (soloNext 2) answers ⟨.recheck, some threeCalcs, 0⟩ =
        some (slots 2 threeCalcs ++ [op], c) := by
  have hget : (solo 2).step .start (.getProc (some threeCalcs)) ⟨.recheck, some threeCalcs, 0⟩ :=
    ⟨(some threeCalcs, false), rfl⟩
  have hp : threeCalcs.pc ≤ threeCalcs.code.size := Nat.zero_le _
  exact time_quantum (by decide) ⟨[], .init rfl⟩ hget hp

end AssignmentOS.Os
