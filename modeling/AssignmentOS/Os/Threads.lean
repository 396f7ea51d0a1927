import AssignmentOS.Common

/-!
# The thread programs

`cpu_routine` and `ld_routine` as the operations they make on what they share.
`cpuRoutine` is given the values the environment would return to the next
operation (the answer of `get_proc`, the `done` flag, whether a process has
reached the end of its code) and returns that operation and the thread after it.
-/

namespace AssignmentOS.Os

-- ---------------------------------------------------------------------------
-- cpu_routine
-- ---------------------------------------------------------------------------

/-- Program points between two operations. `reload` and `refetch` are the two
calls of `get_proc` after `free` and after `put_proc`. -/
inductive CpuPc
  | top
  | reload
  | refetch
  | recheck
  | slot
  | stopped
  | exited
  deriving DecidableEq, Repr

structure Cpu (P : Type) where
  pc : CpuPc
  proc : Option P
  timeLeft : Int
  deriving DecidableEq, Repr

inductive CpuOp (P : Type)
  | getProc (ans : Option P)
  | inspect (p : P)
  | free (p : P)
  | putProc (p : P)
  | readDone (done : Bool)
  | run (p : P)
  | nextSlot
  | detachEvent
  deriving DecidableEq, Repr

variable {P : Type}

def Cpu.start : Cpu P := ⟨.top, none, 0⟩

/-- One operation of `cpu_routine`; `none` once the thread has ended. The
dispatch (`time_left = time_slot`) and `time_left--` go with the call of `run`
between them. -/
def cpuRoutine (timeSlot : Int) (finished : P → Bool) (c : Cpu P) (ans : Option P) (done : Bool) :
    Option (CpuOp P × Cpu P) :=
  match c.pc with
  | .top =>
    match c.proc with
    | none =>
      -- First load failed: `next_slot` and `continue`, past the test of `done`.
      some (.getProc ans, { c with proc := ans, pc := if ans.isNone then .slot else .recheck })
    | some p =>
      if finished p then some (.free p, { c with pc := .reload })
      else if c.timeLeft = 0 then some (.putProc p, { c with pc := .refetch })
      else some (.inspect p, { c with pc := .recheck })
  | .reload => some (.getProc ans, ⟨.recheck, ans, 0⟩)
  | .refetch => some (.getProc ans, { c with proc := ans, pc := .recheck })
  | .recheck =>
    match c.proc with
    | none => some (.readDone done, { c with pc := if done then .stopped else .slot })
    | some p =>
      let dispatched := if c.timeLeft = 0 then timeSlot else c.timeLeft
      some (.run p, { c with timeLeft := dispatched - 1, pc := .slot })
  | .slot => some (.nextSlot, { c with pc := .top })
  | .stopped => some (.detachEvent, { c with pc := .exited })
  | .exited => none

/-- The process the thread may still touch. After `free` and `put_proc` the
pointer in `proc` is stale and is overwritten before it is read. -/
def Cpu.held (c : Cpu P) : Option P :=
  match c.pc with
  | .reload | .refetch => none
  | _ => c.proc

def Cpu.Asks (c : Cpu P) : Prop :=
  c.pc ≠ .stopped ∧ c.pc ≠ .exited ∧ ¬ (c.pc = .recheck ∧ c.proc = none)

def Cpu.Left (c : Cpu P) : Prop := c.pc = .stopped ∨ c.pc = .exited

section
variable {timeSlot : Int} {finished : P → Bool} {c c' : Cpu P} {ans : Option P} {done : Bool}

/-- Everything one operation of `cpu_routine` can do. -/
inductive CpuStep (timeSlot : Int) (finished : P → Bool) (c : Cpu P) (ans : Option P)
    (done : Bool) :
    CpuOp P → Cpu P → Prop
  | first : c.pc = .top → c.proc = none → CpuStep timeSlot finished c ans done (.getProc ans)
      { c with proc := ans, pc := if ans.isNone then .slot else .recheck }
  | free : c.pc = .top → c.proc = some p → finished p = true →
      CpuStep timeSlot finished c ans done (.free p) { c with pc := .reload }
  | putProc : c.pc = .top → c.proc = some p → finished p = false → c.timeLeft = 0 →
      CpuStep timeSlot finished c ans done (.putProc p) { c with pc := .refetch }
  | inspect : c.pc = .top → c.proc = some p → finished p = false → c.timeLeft ≠ 0 →
      CpuStep timeSlot finished c ans done (.inspect p) { c with pc := .recheck }
  | reload : c.pc = .reload → CpuStep timeSlot finished c ans done (.getProc ans) ⟨.recheck, ans, 0⟩
  | refetch : c.pc = .refetch →
      CpuStep timeSlot finished c ans done (.getProc ans) { c with proc := ans, pc := .recheck }
  | readDone : c.pc = .recheck → c.proc = none →
      CpuStep timeSlot finished c ans done (.readDone done)
        { c with pc := if done then .stopped else .slot }
  | run : c.pc = .recheck → c.proc = some p → CpuStep timeSlot finished c ans done (.run p)
      { c with timeLeft := (if c.timeLeft = 0 then timeSlot else c.timeLeft) - 1, pc := .slot }
  | nextSlot : c.pc = .slot → CpuStep timeSlot finished c ans done .nextSlot { c with pc := .top }
  | detachEvent : c.pc = .stopped → CpuStep timeSlot finished c ans done .detachEvent
      { c with pc := .exited }

theorem cpuRoutine_step (h : cpuRoutine timeSlot finished c ans done = some (op, c')) :
    CpuStep timeSlot finished c ans done op c' := by
  unfold cpuRoutine at h
  split at h
  · rename_i hpc
    split at h
    · rename_i hproc
      cases h
      exact .first hpc hproc
    · rename_i p hproc
      split at h
      · rename_i hf
        cases h
        exact .free hpc hproc hf
      · rename_i hf
        rw [Bool.not_eq_true] at hf
        split at h
        · rename_i htime
          cases h
          exact .putProc hpc hproc hf htime
        · rename_i htime
          cases h
          exact .inspect hpc hproc hf htime
  · rename_i hpc
    cases h
    exact .reload hpc
  · rename_i hpc
    cases h
    exact .refetch hpc
  · rename_i hpc
    split at h
    · rename_i hproc
      cases h
      exact .readDone hpc hproc
    · rename_i p hproc
      cases h
      exact .run hpc hproc
  · rename_i hpc
    cases h
    exact .nextSlot hpc
  · rename_i hpc
    cases h
    exact .detachEvent hpc
  · cases h

theorem cpuRoutine_held : cpuRoutine timeSlot finished c ans done = some (op, c') →
    match op with
    | .getProc a => a = ans ∧ c.held = none ∧ c'.held = ans
    | .free p => finished p = true ∧ c.held = some p ∧ c'.held = none
    | .putProc p => finished p = false ∧ c.held = some p ∧ c'.held = none
    | .inspect p | .run p => c.held = some p ∧ c'.held = some p
    | .readDone d => d = done ∧ c'.held = c.held
    | .nextSlot | .detachEvent => c'.held = c.held := by
  intro h
  cases cpuRoutine_step h with
  | first hpc hproc => cases ans <;> simp [Cpu.held, hpc, hproc]
  | free hpc hproc hf => simp [Cpu.held, hpc, hproc, hf]
  | putProc hpc hproc hf => simp [Cpu.held, hpc, hproc, hf]
  | readDone hpc hproc => cases done <;> simp [Cpu.held, hpc, hproc]
  | inspect hpc hproc | run hpc hproc => simp [Cpu.held, hpc, hproc]
  | reload hpc | refetch hpc | nextSlot hpc | detachEvent hpc => simp [Cpu.held, hpc]

theorem cpuRoutine_control : cpuRoutine timeSlot finished c ans done = some (op, c') →
    match op with
    | .nextSlot => c.pc = .slot ∧ c' = { c with pc := .top }
    | .detachEvent => c.pc = .stopped ∧ c' = { c with pc := .exited }
    | .readDone d => c.pc = .recheck ∧ c.proc = none ∧
        c' = { c with pc := if d then .stopped else .slot }
    | .getProc a => (c'.pc = .recheck ∨ (c.pc = .top ∧ a = none ∧ c'.pc = .slot)) ∧ c'.proc = a
    | .putProc _ => c'.pc = .refetch
    | .free _ => c'.pc = .reload
    | .run _ => c'.pc = .slot
    | .inspect _ => c'.pc = .recheck := by
  intro h
  cases cpuRoutine_step h with
  | first hpc => cases ans <;> simp [hpc]
  | reload | refetch => exact ⟨.inl rfl, rfl⟩
  | readDone hpc hproc => exact ⟨hpc, hproc, rfl⟩
  | nextSlot hpc | detachEvent hpc => exact ⟨hpc, rfl⟩
  | free | putProc | inspect | run => rfl

end

-- ---------------------------------------------------------------------------
-- ld_routine
-- ---------------------------------------------------------------------------

/-- Program points of `ld_routine` for `m` processes, with the index `i`, which
the loop never takes past `m`. -/
inductive Ld (m : Nat)
  | loop (i : Fin (m + 1))
  | wait (i : Fin m)
  | waitSlot (i : Fin m)
  | add (i : Fin m)
  | slot (i : Fin m)
  | fin
  | detach
  | exited
  deriving DecidableEq, Repr

inductive LdOp (m : Nat)
  | load (i : Fin m)
  | leaveLoop
  | readTime
  | addProc (i : Fin m)
  | setDone
  | nextSlot
  | detachEvent
  deriving DecidableEq, Repr

variable {m : Nat}

/-- One operation of `ld_routine`; `now` is what `current_time()` returns. -/
def ldRoutine (startTime : Fin m → UInt64) (now : UInt64) : Ld m → Option (LdOp m × Ld m)
  | .loop i =>
    if h : i.val < m then some (.load ⟨i, h⟩, .wait ⟨i, h⟩) else some (.leaveLoop, .fin)
  | .wait i => some (.readTime, if now < startTime i then .waitSlot i else .add i)
  | .waitSlot i => some (.nextSlot, .wait i)
  | .add i => some (.addProc i, .slot i)
  | .slot i => some (.nextSlot, .loop i.succ)
  | .fin => some (.setDone, .detach)
  | .detach => some (.detachEvent, .exited)
  | .exited => none

inductive LdStep (startTime : Fin m → UInt64) (now : UInt64) : Ld m → LdOp m → Ld m → Prop
  | load (i : Fin m) : LdStep startTime now (.loop i.castSucc) (.load i) (.wait i)
  | leaveLoop : LdStep startTime now (.loop (Fin.last m)) .leaveLoop .fin
  | early (i : Fin m) : now < startTime i → LdStep startTime now (.wait i) .readTime (.waitSlot i)
  | due (i : Fin m) : ¬ now < startTime i → LdStep startTime now (.wait i) .readTime (.add i)
  | waitSlot (i : Fin m) : LdStep startTime now (.waitSlot i) .nextSlot (.wait i)
  | addProc (i : Fin m) : LdStep startTime now (.add i) (.addProc i) (.slot i)
  | slot (i : Fin m) : LdStep startTime now (.slot i) .nextSlot (.loop i.succ)
  | setDone : LdStep startTime now .fin .setDone .detach
  | detachEvent : LdStep startTime now .detach .detachEvent .exited

theorem ldRoutine_step {l l' : Ld m} (h : ldRoutine startTime now l = some (op, l')) :
    LdStep startTime now l op l' := by
  cases l with
  | loop i =>
    simp only [ldRoutine] at h
    split at h
    · rename_i hlt
      cases h
      exact .load ⟨i, hlt⟩
    · rename_i hge
      cases h
      obtain rfl : i = Fin.last m := Fin.ext (Nat.le_antisymm i.is_le (Nat.le_of_not_lt hge))
      exact .leaveLoop
  | wait i =>
    cases h
    split
    · rename_i hlt
      exact .early i hlt
    · rename_i hge
      exact .due i hge
  | waitSlot i =>
    cases h
    exact .waitSlot i
  | add i =>
    cases h
    exact .addProc i
  | slot i =>
    cases h
    exact .slot i
  | fin =>
    cases h
    exact .setDone
  | detach =>
    cases h
    exact .detachEvent
  | exited => cases h

def Ld.added : Ld m → Nat
  | .loop i => i
  | .wait i | .waitSlot i | .add i => i
  | .slot i => i + 1
  | .fin | .detach | .exited => m

theorem ldRoutine_added {l l' : Ld m} : ldRoutine startTime now l = some (op, l') →
    match op with
    | .addProc i => l.added = i ∧ l'.added = i + 1
    | .load i => l.added = i ∧ l'.added = i
    | _ => l'.added = l.added := by
  intro h
  cases ldRoutine_step h with
  | load | addProc => exact ⟨rfl, rfl⟩
  | leaveLoop | early | due | waitSlot | slot | setDone | detachEvent => rfl

end AssignmentOS.Os
