import AggregateLayout.Profile
import AggregateLayout.Text.Code
import AggregateLayout.Text.LowerCase

namespace AggregateLayout.MachineProfile

variable {μ : Type} [Measure μ]

def lp64 : MachineProfile μ where
  label := .text "lp64"
  wordSize := .eight
  pointerSize := .eight
  description := .text "64-bit Unix (x86-64 SysV, AArch64)"

def lp64BigEndian : MachineProfile μ where
  label := .text "lp64-be"
  wordSize := .eight
  pointerSize := .eight
  bitfieldDirection := .highToLow
  description := .text "64-bit big-endian (PowerPC64, s390x)"

def llp64 : MachineProfile μ where
  label := .text "llp64"
  wordSize := .eight
  pointerSize := .eight
  longSize := some .four
  longDoubleSize := Measure.whole 8
  longDoubleAlignment := .eight
  description := .text "64-bit Windows"

def ilp32 : MachineProfile μ where
  label := .text "ilp32"
  wordSize := .four
  pointerSize := .four
  longDoubleSize := Measure.whole 8
  longDoubleAlignment := .eight
  description := .text "32-bit with naturally aligned double (ARM EABI)"

def i386 : MachineProfile μ where
  label := .text "i386"
  wordSize := .four
  pointerSize := .four
  doubleAlignmentOverride := some .four
  longDoubleSize := Measure.whole 12
  longDoubleAlignment := .four
  description := .text "32-bit x86 SysV, double and long double aligned to 4"

def builtin : List (MachineProfile μ) := [i386, ilp32, llp64, lp64, lp64BigEndian]

def named? (name : String) : Option (MachineProfile μ) :=
  builtin.find? (·.name == Text.lower (Text.trim name))

def unknownMessage (name : String) : String :=
  let known := ", ".intercalate ((builtin : List (MachineProfile Int)).map (·.name))
  s!"Unknown machine profile '{name}' (known: {known})"

end AggregateLayout.MachineProfile
