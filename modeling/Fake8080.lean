import Fake8080.Interrupts.EnableDelay
import Fake8080.Interrupts.Halt
import Fake8080.Interrupts.Reset
import Fake8080.Bus.Mapping
import Fake8080.Bus.Rom
import Fake8080.Isa.Arithmetic
import Fake8080.Isa.Conditional
import Fake8080.Isa.Flags
import Fake8080.Isa.Length
import Fake8080.Multibyte.Decimal
import Fake8080.Multibyte.Rotation
import Fake8080.Stack.Words
import Fake8080.Bus.AddressSpace
import Fake8080.Arch.Observation
import Fake8080.Arch.SaveRestore
import Fake8080.Arch.Reads
import Fake8080.Interrupts.Signals
import Fake8080.Arch.Runaway
import Fake8080.Arch.Log
import Fake8080.Arch.Interference
import Fake8080.Arch.FullAbstraction
import Fake8080.Arch.Devices
import Fake8080.Arch.Hotplug
import Fake8080.Arch.Rotations
import Fake8080.Arch.Recoding
import Fake8080.Programs.Copy
import Fake8080.Programs.Load
import Fake8080.Registers.Writes
