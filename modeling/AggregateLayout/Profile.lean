import AggregateLayout.Document.Same
import AggregateLayout.Measure

namespace AggregateLayout

inductive BitfieldDirection where
  | lowToHigh
  | highToLow
  deriving DecidableEq

namespace BitfieldDirection

def text : BitfieldDirection → String
  | .lowToHigh => "low-to-high"
  | .highToLow => "high-to-low"

def ofText? (s : String) : Option BitfieldDirection :=
  [lowToHigh, highToLow].find? (·.text == s)

end BitfieldDirection

structure MachineProfile (μ : Type) [Measure μ] where
  label : Document
  wordSize : PowerOfTwo
  pointerSize : PowerOfTwo
  cacheLineSize : PowerOfTwo := .sixtyFour
  bitfieldDirection : BitfieldDirection := .lowToHigh
  doubleAlignmentOverride : Option PowerOfTwo := none
  longSize : Option PowerOfTwo := none
  longDoubleSize : μ := Measure.whole 16
  longDoubleSize_pos : ¬ longDoubleSize ≤ Measure.whole 0 := by
    rw [Measure.whole_le_whole]; decide
  longDoubleAlignment : PowerOfTwo := .sixteen
  enumSize : PowerOfTwo := .four
  byteRestart : Document := .boolean false
  description : Document := .text ""

namespace MachineProfile

variable {μ : Type} [Measure μ]

def name (p : MachineProfile μ) : String := p.label.plain

def bitfieldByteRestart (p : MachineProfile μ) : Bool := p.byteRestart.isSet

def effectiveLongSize (p : MachineProfile μ) : PowerOfTwo := p.longSize.getD p.wordSize

def doubleAlignment (p : MachineProfile μ) : PowerOfTwo :=
  p.doubleAlignmentOverride.getD .eight

def sameTarget (p q : MachineProfile μ) : Bool :=
  p.label.sameAs q.label && p.wordSize.val == q.wordSize.val &&
    p.pointerSize.val == q.pointerSize.val && p.cacheLineSize.val == q.cacheLineSize.val &&
    p.bitfieldDirection == q.bitfieldDirection &&
    p.doubleAlignmentOverride.map (·.val) == q.doubleAlignmentOverride.map (·.val) &&
    p.longSize.map (·.val) == q.longSize.map (·.val) && p.longDoubleSize == q.longDoubleSize &&
    p.longDoubleAlignment.val == q.longDoubleAlignment.val &&
    p.enumSize.val == q.enumSize.val && p.byteRestart.sameAs q.byteRestart

end MachineProfile

end AggregateLayout
