import AggregateLayout.Measure

namespace AggregateLayout

inductive TypeKind where
  | scalar
  | pointer
  | array
  | aggregate
  deriving DecidableEq

namespace TypeKind

def text : TypeKind → String
  | .scalar => "scalar"
  | .pointer => "pointer"
  | .array => "array"
  | .aggregate => "aggregate"

def ofText? (s : String) : Option TypeKind :=
  [scalar, pointer, array, aggregate].find? (·.text == s)

end TypeKind

inductive TypeDescriptor (μ : Type) [Measure μ] where
  | basic (name : String) (size : Size μ) (alignment : PowerOfTwo) (kind : TypeKind)
    (isInteger : Bool)
  | array (element : TypeDescriptor μ) (count : Size μ)

inductive TypeFault (μ : Type) where
  | negativeSize (name : String) (size : μ)
  | badAlignment (name : String) (alignment : μ)
  | fraction
  | negativeLength (element : String) (count : μ)
  | number (fault : NumberFault)
  deriving DecidableEq

variable {μ : Type} [Measure μ]

def TypeFault.message : TypeFault μ → String
  | .negativeSize name size => s!"Type '{name}' has negative size {size}"
  | .badAlignment name alignment =>
    s!"Type '{name}' alignment must be a positive power of two, got {alignment}"
  | .fraction => "unsupported operand type(s) for &: 'float' and 'float'"
  | .negativeLength element count => s!"Array of '{element}' has negative length {count}"
  | .number fault => fault.message

namespace TypeDescriptor

open AggregateLayout.Measure (whole)

def name : TypeDescriptor μ → String
  | .basic name _ _ _ _ => name
  | .array element count => s!"{element.name}[{count.val}]"

def size : TypeDescriptor μ → Size μ
  | .basic _ size _ _ _ => size
  | .array element count => .of (element.size.val * count.val)

def alignment : TypeDescriptor μ → PowerOfTwo
  | .basic _ _ alignment _ _ => alignment
  | .array element _ => element.alignment

def kind : TypeDescriptor μ → TypeKind
  | .basic _ _ _ kind _ => kind
  | .array _ _ => .array

def isInteger : TypeDescriptor μ → Bool
  | .basic _ _ _ _ isInteger => isInteger
  | .array _ _ => false

def bitSize (d : TypeDescriptor μ) : μ := d.size.val * whole 8

def sameAs : TypeDescriptor μ → TypeDescriptor μ → Bool
  | .basic name size alignment kind isInteger, .basic name' size' alignment' kind' isInteger' =>
    name == name' && size.val == size'.val && alignment.val == alignment'.val && kind == kind' &&
      isInteger == isInteger'
  | .array element count, .array element' count' =>
    element.sameAs element' && count.val == count'.val
  | _, _ => false

def make (name : String) (size alignment : μ) (kind : TypeKind) (isInteger : Bool) :
    Except (TypeFault μ) (TypeDescriptor μ) :=
  if h : size < whole 0 then .error (.negativeSize name size)
  else
    match Measure.power? alignment with
    | some power => .ok (.basic name ⟨size, h⟩ power kind isInteger)
    | none =>
      .error (if !Measure.isWhole alignment && whole 0 < alignment then .fraction
        else .badAlignment name alignment)

def scalar (name : String) (size : μ) (alignment : Option μ) (isInteger : Bool) :
    Except (TypeFault μ) (TypeDescriptor μ) :=
  make name size (alignment.getD (Measure.larger size (whole 1))) .scalar isInteger

def pointer (target : String) (size : PowerOfTwo) : TypeDescriptor μ :=
  .basic (target ++ "*") (.of size.measure) size .pointer false

def aggregate (name : String) (size : Size μ) (alignment : PowerOfTwo) : TypeDescriptor μ :=
  .basic name size alignment .aggregate false

def arrayOf (element : TypeDescriptor μ) (count : μ) :
    Except (TypeFault μ) (TypeDescriptor μ) := do
  (Measure.written count).mapError .number
  if h : count < whole 0 then .error (.negativeLength element.name count)
  else
    (Measure.computed (element.size.val * count)).mapError .number
    return .array element ⟨count, h⟩

end TypeDescriptor

end AggregateLayout
