import Mathlib.Data.Fintype.Basic

/-!
# Instructions and processes

The part of `common.h` that the scheduler and the CPUs read. `code->size` is
the length of `code->text`; `load` allocates exactly that many instructions.
-/

namespace AssignmentOS

inductive InsOpcode
  | calc
  | alloc
  | free
  | read
  | write
  | syscall
  deriving DecidableEq, Repr

structure Inst where
  opcode : InsOpcode
  arg0 : UInt32
  arg1 : UInt32
  arg2 : UInt32
  arg3 : UInt32
  deriving DecidableEq, Repr

/-- A code segment; its size is a `uint32_t`. -/
structure CodeSeg where
  text : List Inst
  size_lt : text.length < UInt32.size

def CodeSeg.size (code : CodeSeg) : Nat := code.text.length

structure Pcb where
  code : CodeSeg
  pc : Nat

/-- The head of `run`: the instruction at `pc`, with `pc` moved on, or nothing
when `pc` is not below `code->size`. -/
def Pcb.fetch (proc : Pcb) : Option (Inst × Pcb) :=
  if h : proc.pc < proc.code.size then
    some (proc.code.text.get ⟨proc.pc, h⟩, { proc with pc := proc.pc + 1 })
  else none

def Pcb.advance (proc : Pcb) : Pcb := (proc.fetch.map Prod.snd).getD proc

def Pcb.executed (proc : Pcb) : List Inst := proc.code.text.take proc.pc

@[simp] theorem Pcb.advance_code (proc : Pcb) : proc.advance.code = proc.code := by
  unfold advance fetch
  split <;> rfl

theorem Pcb.advance_pc_le (proc : Pcb) (h : proc.pc ≤ proc.code.size) :
    proc.advance.pc ≤ proc.code.size := by
  unfold advance fetch
  split
  · rename_i hlt
    exact hlt
  · exact h

theorem Pcb.advance_executed (proc : Pcb) :
    proc.advance.executed = proc.executed ++ (proc.fetch.map Prod.fst).toList := by
  unfold advance executed fetch
  split
  · rename_i hlt
    exact List.take_succ_eq_append_getElem hlt
  · simp

end AssignmentOS
