import AssignmentOS.Timer.Progress
import AssignmentOS.Os.Ownership
import AssignmentOS.Os.Control
import AssignmentOS.Os.Arrival
import AssignmentOS.Os.Shutdown
import AssignmentOS.Os.Stopping
import AssignmentOS.Lib.BitField
import AssignmentOS.Mm.Pte
import AssignmentOS.Lib.Memory
import AssignmentOS.Mm.Memphy
import AssignmentOS.Mm.FreeList
import AssignmentOS.Mm.SwapPage
import AssignmentOS.Mm.SysMem
import AssignmentOS.Mm.Sequential
import AssignmentOS.Mm.Representable
import AssignmentOS.Lib.Fallible
import AssignmentOS.Mm.Space
import AssignmentOS.Mm.Page
import AssignmentOS.Lib.Walk
import AssignmentOS.Mm.Region
import AssignmentOS.Mm.Limit
import AssignmentOS.Cpu.Run
import AssignmentOS.Cpu.SymbolTable
import AssignmentOS.Cpu.Storage
import AssignmentOS.Cpu.Reporting
import AssignmentOS.Lib.Scan
import AssignmentOS.Lib.Decimal
import AssignmentOS.Lib.Held
import AssignmentOS.Loader.Model
import AssignmentOS.Loader.Printing
import AssignmentOS.Loader.Reading
import AssignmentOS.Loader.Rejection
import AssignmentOS.Mm.Address
import AssignmentOS.Mm.InitPte
import AssignmentOS.Mm.Areas
import AssignmentOS.Mm.FreeRegions
import AssignmentOS.Cpu.Confinement
import AssignmentOS.Mm.Allocation
import AssignmentOS.Mm.Exhaustion
import AssignmentOS.Mm.Devices
import AssignmentOS.Mm.Sharing
import AssignmentOS.Cpu.Soundness
import AssignmentOS.Cpu.Machine
import AssignmentOS.Os.Quantum
import AssignmentOS.Cpu.Killall
import AssignmentOS.Cpu.Registers
import AssignmentOS.Mm.Alignment
import AssignmentOS.Os.Sched
import AssignmentOS.Os.Configuration
import AssignmentOS.Os.Printing
import AssignmentOS.Os.Priority
import AssignmentOS.Lib.Potential
import AssignmentOS.Timer.Bound
import AssignmentOS.Timer.DevList
import AssignmentOS.Os.Slot
import AssignmentOS.Os.Progress
import AssignmentOS.Os.Response
import AssignmentOS.Os.Completion
import AssignmentOS.Os.Boot
import AssignmentOS.Cpu.Leftovers
import AssignmentOS.Os.Shipped
import AssignmentOS.Cpu.Confluence
import AssignmentOS.Cpu.Schedule
import AssignmentOS.Cpu.Arrivals
import AssignmentOS.Cpu.Simulation
