import Fake8080.Model.MemoryBus

/-!
# The I/O bus and the machine's surroundings

`IOBus.hpp` and `IOBus.cpp`, and the record `Buses` of everything the CPU reaches through
its two references: the region table with the bytes behind it, the port table with the
devices behind it, and a log of the calls made on either bus.

A device is a pointer of some type `ι`; the virtual functions of `IOPort` act on a state
`δ` that holds the state of all devices. `log` has no counterpart in the source. It
records each `MemoryBus::write` and each call of a device, in order, so that what a run
does to the outside can be stated.
-/

namespace Fake8080

universe u v

/-- The interface `IOPort`: the two virtual functions of a device. -/
class IOPort (ι : Type u) (δ : Type v) where
  /-- `in`: the byte read from the device, and the devices afterwards. -/
  inp : ι → δ → Byte × δ
  /-- `out`: the devices after a byte is written to one of them. -/
  out : ι → Byte → δ → δ

/-- The I/O bus: 256 pointers, null where no device is attached. -/
structure IOBus (ι : Type u) where
  /-- The array `ports_m`. -/
  ports : Byte → Option ι

namespace IOBus

variable {ι : Type u}

/-- The constructor: every port is free. -/
def initial : IOBus ι := ⟨fun _ => none⟩

/-- `attach`: connect a device to a port, in place of any earlier one. -/
def attach (bus : IOBus ι) (port : Byte) (device : ι) : IOBus ι :=
  ⟨Function.update bus.ports port (some device)⟩

/-- The bus that a sequence of `attach` calls builds on a new one. -/
def build (calls : List (Byte × ι)) : IOBus ι :=
  calls.foldl (fun bus call => bus.attach call.1 call.2) initial

end IOBus

/-- A call on one of the two buses that something outside the CPU can notice. -/
inductive BusEvent (ι : Type u)
  | write (address : Word) (value : Byte)
  | deviceIn (device : ι)
  | deviceOut (device : ι) (value : Byte)
  deriving DecidableEq

/-- What the CPU reaches through `memoryBus_m` and `IOBus_m`. -/
structure Buses (ι : Type u) (δ : Type v) where
  /-- The table of mapped regions. -/
  memoryBus : MemoryBus
  /-- The table of ports. -/
  ioBus : IOBus ι
  /-- The bytes the regions' spans view. -/
  host : Host
  /-- The state of the devices. -/
  devices : δ
  /-- The writes and device calls made so far. -/
  log : List (BusEvent ι)

namespace Buses

variable {ι : Type u} {δ : Type v}

/-- `MemoryBus::read` on the CPU's bus. -/
def read (b : Buses ι δ) (address : Word) : Byte := b.memoryBus.read b.host address

/-- `MemoryBus::write` on the CPU's bus. -/
def write (b : Buses ι δ) (address : Word) (value : Byte) : Buses ι δ :=
  { b with
    host := b.memoryBus.write b.host address value
    log := b.log ++ [.write address value] }

variable [IOPort ι δ]

/-- `IOBus::in`: the byte of the port's device, `0xFF` if the port is free. -/
def inp (b : Buses ι δ) (port : Byte) : Byte × Buses ι δ :=
  match b.ioBus.ports port with
  | none => (0xFF, b)
  | some device =>
    ((IOPort.inp device b.devices).1,
      { b with
        devices := (IOPort.inp device b.devices).2
        log := b.log ++ [.deviceIn device] })

/-- `IOBus::out`: hand the byte to the port's device, if there is one. -/
def out (b : Buses ι δ) (port : Byte) (value : Byte) : Buses ι δ :=
  match b.ioBus.ports port with
  | none => b
  | some device =>
    { b with
      devices := IOPort.out device value b.devices
      log := b.log ++ [.deviceOut device value] }

end Buses

/-! ### The fixture of the tests -/

/-- A machine without devices. -/
instance : IOPort Empty Unit where
  inp device := device.elim
  out device := device.elim

/-- `mapMemory` of the test helper: the bytes mapped as RAM from address 0, no devices. The
last address is the length less one modulo 65536. -/
def Buses.mapMemory (memory : List Byte) : Buses Empty Unit where
  memoryBus := .build
    [⟨0, BitVec.ofNat 16 memory.length - 1, .ramRegion ⟨0, memory.length⟩⟩]
  ioBus := .initial
  host := fun a => memory.getD a 0
  devices := ()
  log := []

/-- All of memory mapped as RAM, no devices. -/
def Buses.fullRam (host : Host) : Buses Empty Unit where
  memoryBus := .build [⟨0, 0xFFFF, .ramRegion ⟨0, 65536⟩⟩]
  ioBus := .initial
  host := host
  devices := ()
  log := []

end Fake8080
