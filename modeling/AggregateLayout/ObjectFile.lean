import AggregateLayout.DebugInfo
import AggregateLayout.Log
import AggregateLayout.Profile.Builtin

namespace AggregateLayout

structure ObjectFile where
  width : Int := 64
  littleEndian : Bool := true
  machine : String := "EM_X86_64"
  units : Option DebugInfo.Units := none

namespace ObjectFile

def magic : List UInt8 := [0x7f, 0x45, 0x4c, 0x46]

def hasMagic (bytes : List UInt8) : Bool := bytes.take magic.length == magic

/-- What reads the bytes of an object file, or says why they are none. How they are encoded is not
part of this library. -/
abbrev Opener := List UInt8 → Except String ObjectFile

end ObjectFile

namespace MachineProfile

def ofHeader {μ : Type} [Measure μ] (f : ObjectFile) : MachineProfile μ :=
  if f.width == 64 then if f.littleEndian then lp64 else lp64BigEndian
  else if f.machine == "EM_386" then i386
  else if f.littleEndian then ilp32
  else { ilp32 with label := .text "ilp32-be", bitfieldDirection := .highToLow }

end MachineProfile

namespace ObjectFile

def profile (f : ObjectFile) : MachineProfile Quantity := .ofHeader f

def detection (f : ObjectFile) : LogLine :=
  .info s!"Detected {f.machine} ELF{f.width}, using profile {f.profile.name}"

end ObjectFile

end AggregateLayout
