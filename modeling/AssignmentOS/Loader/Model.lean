import AssignmentOS.Common
import AssignmentOS.Lib.Fallible
import AssignmentOS.Lib.Scan
import Mathlib.Data.Vector.Basic

/-!
# Reading a process from its file

`load` of `loader.c` on the characters of the file. It looks at no return
value of a scanning function, so the model keeps with every opcode and argument
where its value comes from.
-/

namespace AssignmentOS.Loader

open Fallible Scan

inductive Origin
  -- a token of the file, told by the number of characters left where it starts
  | token (left : Nat)
  -- the head of a token, cut off by the end of a buffer
  | piece
  -- whatever memory held before
  | leftover
  deriving DecidableEq, Repr

def Origin.left? : Origin → Option Nat
  | .token left => some left
  | .piece => none
  | .leftover => none

structure Slot where
  value : UInt32
  origin : Origin
  deriving DecidableEq, Repr

def Slot.leftover (value : UInt32) : Slot := ⟨value, .leftover⟩

/-- `struct inst_t`, with the origin of the opcode. -/
structure LoadedInst where
  opcode : InsOpcode
  origin : Origin
  arg0 : Slot
  arg1 : Slot
  arg2 : Slot
  arg3 : Slot
  deriving DecidableEq, Repr

def LoadedInst.inst (l : LoadedInst) : Inst :=
  ⟨l.opcode, l.arg0.value, l.arg1.value, l.arg2.value, l.arg3.value⟩

/-- The arguments of the opcode that `run` passes on. -/
def arity : InsOpcode → Nat
  | .calc => 0
  | .alloc => 2
  | .free => 1
  | .read => 3
  | .write => 3
  | .syscall => 4

def LoadedInst.slots (l : LoadedInst) : List Slot :=
  [l.arg0, l.arg1, l.arg2, l.arg3].take (arity l.opcode)

def LoadedInst.origins (l : LoadedInst) : List Origin := l.origin :: l.slots.map Slot.origin

/-- What is there before the file is read: the memory that `malloc` returns,
the local buffers, and what a numeral out of range converts to. -/
structure Before where
  priority : UInt32
  size : UInt32
  text : Nat → Inst
  opcode : List Char
  buf : List Char
  outsideUnsigned : Numeral → UInt32
  outsideSigned : Numeral → UInt32

def Before.zero : Before := ⟨0, 0, fun _ => ⟨.calc, 0, 0, 0, 0⟩, [], [], fun _ => 0, fun _ => 0⟩

structure Reader where
  opcode : List Char
  buf : List Char
  rest : List Char

inductive LoadFault
  -- a message and `exit(1)`
  | exit
  -- more is stored than `opcode` has room for
  | overflow
  deriving DecidableEq, Repr

-- ---------------------------------------------------------------------------
-- Opcodes
-- ---------------------------------------------------------------------------

def optCalc : List Char := ['c', 'a', 'l', 'c']
def optAlloc : List Char := ['a', 'l', 'l', 'o', 'c']
def optFree : List Char := ['f', 'r', 'e', 'e']
def optRead : List Char := ['r', 'e', 'a', 'd']
def optWrite : List Char := ['w', 'r', 'i', 't', 'e']
def optSyscall : List Char := ['s', 'y', 's', 'c', 'a', 'l', 'l']

def getOpcode (opt : List Char) : Except LoadFault InsOpcode :=
  if cString opt = optCalc then .ok .calc
  else if cString opt = optAlloc then .ok .alloc
  else if cString opt = optFree then .ok .free
  else if cString opt = optRead then .ok .read
  else if cString opt = optWrite then .ok .write
  else if cString opt = optSyscall then .ok .syscall
  else .error .exit

def opcodeSz : Nat := 10

/-- `fscanf(file, "%s", opcode)`, where a NUL follows the word. At the end of
the file `opcode` stays as it is. -/
def scanOpcode (s : Reader) : Except LoadFault (Origin × Reader) :=
  match word s.rest with
  | none => .ok (.leftover, { s with rest := [] })
  | some (w, rest) =>
    if w.length < opcodeSz then
      .ok (.token (skipSpace s.rest).length, { s with opcode := w, rest := rest })
    else .error .overflow

-- ---------------------------------------------------------------------------
-- Arguments
-- ---------------------------------------------------------------------------

def bufSz : Nat := 200

/-- `fscanf` with `count` times `%u` and a newline. -/
def scanUnsigned (before : Before) (count : Nat) (s : Reader) : List Slot × Reader :=
  let (values, rest) := numeralsLine count s.rest
  (values.map fun v => ⟨unsigned before.outsideUnsigned v.1, .token v.2⟩, { s with rest := rest })

def tokenAt (text : List Char) (left : Nat) (m : Numeral) : Origin :=
  if StandsAt text left m then .token left else .piece

def scanSyscall (before : Before) (s : Reader) : List Slot × Reader :=
  match fgets bufSz s.rest with
  | none =>
    -- `buf` still holds an earlier line, or nothing that was read
    ((numerals 4 (cString s.buf)).1.map fun v => .leftover (signed before.outsideSigned v.1), s)
  | some (line, rest) =>
    let beyond := s.rest.length - (cString line).length
    ((numerals 4 (cString line)).1.map fun v =>
      ⟨signed before.outsideSigned v.1, tokenAt s.rest (v.2 + beyond) v.1⟩,
      { s with buf := line, rest := rest })

/-- The arguments that the case of the opcode assigns. -/
def scanArgs (before : Before) (opcode : InsOpcode) (s : Reader) : List Slot × Reader :=
  match opcode with
  | .calc => ([], s)
  | .alloc => scanUnsigned before 2 s
  | .free => scanUnsigned before 1 s
  | .read | .write => scanUnsigned before 3 s
  | .syscall => scanSyscall before s

/-- The instruction in `text[i]`, of which only some arguments are assigned. -/
def assign (opcode : InsOpcode) (origin : Origin) (slots : List Slot) (old : Inst) :
    LoadedInst where
  opcode := opcode
  origin := origin
  arg0 := slots[0]?.getD (.leftover old.arg0)
  arg1 := slots[1]?.getD (.leftover old.arg1)
  arg2 := slots[2]?.getD (.leftover old.arg2)
  arg3 := slots[3]?.getD (.leftover old.arg3)

-- ---------------------------------------------------------------------------
-- The loop and the PCB
-- ---------------------------------------------------------------------------

def loadInst (before : Before) (old : Inst) (s : Reader) :
    Except LoadFault (LoadedInst × Reader) := do
  let (origin, s) ← scanOpcode s
  let opcode ← getOpcode s.opcode
  let (slots, s) := scanArgs before opcode s
  .ok (assign opcode origin slots old, s)

/-- The loop from index `i` on, with `left` turns to go. -/
def loadText (before : Before) :
    (left i : Nat) → Reader → Except LoadFault (List.Vector LoadedInst left)
  | 0, _, _ => .ok .nil
  | left + 1, i, s => do
    let (inst, s) ← loadInst before (before.text i) s
    let text ← loadText before left (i + 1) s
    .ok (.cons inst text)

structure LoadedPcb where
  pid : UInt32
  priority : UInt32
  path : List Char
  pc : Nat
  bp : UInt32
  text : List LoadedInst
  size_lt : text.length < UInt32.size

def LoadedPcb.pcb (proc : LoadedPcb) : Pcb where
  code := ⟨proc.text.map LoadedInst.inst, by simpa using proc.size_lt⟩
  pc := proc.pc

def pageSize : UInt32 := (1 : UInt32) <<< 10

/-- `fscanf(file, "%u %u", &priority, &size)`. -/
def scanHeader (before : Before) (text : List Char) : UInt32 × UInt32 × List Char :=
  let (values, rest) := numerals 2 text
  (values[0]?.elim before.priority (unsigned before.outsideUnsigned ·.1),
    values[1]?.elim before.size (unsigned before.outsideUnsigned ·.1), rest)

def newPcb (availPid priority : UInt32) (path : List Char) (size : UInt32)
    (text : List.Vector LoadedInst size.toNat) : LoadedPcb where
  pid := availPid
  priority := priority
  path := path.take 16
  pc := 0
  bp := pageSize
  text := text.toList
  size_lt := by
    rw [text.toList_length]
    exact size.toNat_lt_size

/-- `load` and the next `avail_pid`; no characters when the file cannot be opened. -/
def load (before : Before) (availPid : UInt32) (path : List Char) (file : Option (List Char)) :
    Except LoadFault (LoadedPcb × UInt32) :=
  match file with
  | none => .error .exit
  | some chars => do
    let (priority, size, rest) := scanHeader before chars
    let text ← loadText before size.toNat 0 ⟨before.opcode, before.buf, rest⟩
    .ok (newPcb availPid priority path size text, availPid + 1)

theorem load_of_header (availPid : UInt32) (path : List Char)
    (h : scanHeader before chars = (priority, size, rest)) :
    load before availPid path (some chars) =
      loadText before size.toNat 0 ⟨before.opcode, before.buf, rest⟩ >>= fun text =>
        .ok (newPcb availPid priority path size text, availPid + 1) := by
  unfold load
  dsimp only
  rw [h]

-- ---------------------------------------------------------------------------
-- The arguments of an assigned instruction
-- ---------------------------------------------------------------------------

theorem arity_le (opcode : InsOpcode) : arity opcode ≤ 4 := by
  cases opcode <;> decide

theorem assign_all (opcode : InsOpcode) (origin : Origin) (old : Inst) (h : slots.length ≤ 4) :
    let l := assign opcode origin slots old
    [l.arg0, l.arg1, l.arg2, l.arg3] =
      slots ++ ([old.arg0, old.arg1, old.arg2, old.arg3].map Slot.leftover).drop slots.length := by
  match slots, h with
  | [], _ => rfl
  | [_], _ => rfl
  | [_, _], _ => rfl
  | [_, _, _], _ => rfl
  | [_, _, _, _], _ => rfl

theorem assign_slots (origin : Origin) (old : Inst) (h : slots.length ≤ arity opcode) :
    ∃ stale, (assign opcode origin slots old).slots = slots ++ stale ∧
      (∀ slot ∈ stale, slot.origin = .leftover) ∧ slots.length + stale.length = arity opcode := by
  have hfour := arity_le opcode
  have hall := assign_all opcode origin old (Nat.le_trans h hfour)
  refine ⟨(([old.arg0, old.arg1, old.arg2, old.arg3].map Slot.leftover).drop slots.length).take
    (arity opcode - slots.length), ?_, ?_, ?_⟩
  · exact (congrArg (List.take (arity opcode)) hall).trans
      (by rw [List.take_append, List.take_of_length_le h])
  · intro slot hslot
    obtain ⟨value, -, rfl⟩ := List.mem_map.mp (List.mem_of_mem_drop (List.mem_of_mem_take hslot))
    rfl
  · simp only [List.length_take, List.length_drop, List.length_map, List.length_cons,
      List.length_nil]
    omega

end AssignmentOS.Loader
