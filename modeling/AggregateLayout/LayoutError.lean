import AggregateLayout.Aggregate

namespace AggregateLayout

inductive MemberFault (μ : Type) where
  | unnamed
  | duplicate (name : String)
  | bitfieldArray
  | notInteger (type : String)
  | tooDeep (levels : μ)
  | badLength (fault : TypeFault μ)
  | unknownPath (path : String)
  | notNested (part path : String)
  | stated (message : String)
  deriving DecidableEq

variable {μ : Type} [Measure μ]

def MemberFault.message : MemberFault μ → String
  | .unnamed => "Member has no name"
  | .duplicate name => s!"Duplicate member name '{name}'"
  | .bitfieldArray => "A bitfield cannot be an array"
  | .notInteger type => s!"Bitfield type '{type}' is not an integer type"
  | .tooDeep levels => s!"Aggregates nested deeper than {levels} levels"
  | .badLength fault => fault.message
  | .unknownPath path => s!"Disjoint assertion names unknown member path '{path}'"
  | .notNested part path => s!"Cannot descend into '{part}' of '{path}': not a nested aggregate"
  | .stated message => message

inductive LayoutCause (μ : Type) where
  | general (message : String)
  | unknownType (name : String)
  | invalidMember (fault : MemberFault μ)
  | bitfieldWidth (width most : μ)
  | cycle (path : List String)
  | overlap (first second : String) (start stop : μ)
  deriving DecidableEq

def LayoutCause.message : LayoutCause μ → String
  | .general message => message
  | .unknownType name => s!"Unknown type '{name}'"
  | .invalidMember fault => fault.message
  | .bitfieldWidth width most => s!"Bitfield width {width} is outside 1..{most}"
  | .cycle path => "Aggregate contains itself by value: " ++ " -> ".intercalate path
  | .overlap first second start stop =>
    s!"Members '{first}' and '{second}' are asserted disjoint but overlap at bytes " ++
      s!"[{start}, {stop})"

/-- The cause is how aggregates are nested on the way to a place, not what stands there. -/
def LayoutCause.OfChain : LayoutCause μ → Prop
  | .cycle _ => True
  | .invalidMember (.tooDeep _) => True
  | _ => False

structure LayoutError (μ : Type) where
  cause : LayoutCause μ
  aggregate : Option String := none
  member : Option String := none
  deriving DecidableEq

namespace LayoutError

def located (e : LayoutError μ) (aggregate member : Option String) : LayoutError μ :=
  { e with aggregate := e.aggregate <|> aggregate, member := e.member <|> member }

def place (e : LayoutError μ) : List String :=
  ([e.aggregate, e.member].filterMap id).filter (!·.isEmpty)

def message (e : LayoutError μ) : String :=
  match e.place with
  | [] => e.cause.message
  | parts => s!"{e.cause.message} [" ++ ".".intercalate parts ++ "]"

end LayoutError

inductive LayoutFailure (μ : Type) where
  | invalid (error : LayoutError μ)
  | number (fault : NumberFault)
  deriving DecidableEq

def LayoutFailure.located (f : LayoutFailure μ) (aggregate member : Option String) :
    LayoutFailure μ :=
  match f with
  | .invalid e => .invalid (e.located aggregate member)
  | .number fault => .number fault

end AggregateLayout
