import AggregateLayout.Description
import AggregateLayout.Disjointness
import AggregateLayout.Progress
import AggregateLayout.Report

namespace AggregateLayout

structure BatchOptions where
  repack : Bool := false
  rules : PackingRules := {}
  checkUnions : Bool := false
  workers : Int := 1
  maxDepth : Quantity := .whole 64
  wasteWarning : Float := 25

inductive OutcomeError where
  | layout (error : LayoutError Quantity)
  | rejected (fault : DescriptionFault)

namespace LayoutError

def kind {μ : Type} (e : LayoutError μ) : String :=
  match e.cause with
  | .general _ => "LayoutError"
  | .unknownType _ => "UnknownType"
  | .invalidMember _ => "InvalidMember"
  | .bitfieldWidth _ _ => "InvalidBitfieldWidth"
  | .cycle _ => "CyclicDefinition"
  | .overlap _ _ _ _ => "IncompatibleUnionLayout"

end LayoutError

namespace OutcomeError

def kind : OutcomeError → String
  | .layout e => e.kind
  | .rejected _ => "DescriptionError"

def message : OutcomeError → String
  | .layout e => e.message
  | .rejected fault => fault.message

def member : OutcomeError → Option String
  | .layout e => e.member
  | .rejected _ => none

end OutcomeError

structure Outcome where
  name : String
  result : Except OutcomeError Report

namespace Outcome

def report? (o : Outcome) : Option Report := o.result.toOption

def error? (o : Outcome) : Option OutcomeError :=
  match o.result with
  | .ok _ => none
  | .error e => some e

def ok (o : Outcome) : Bool := o.error?.isNone

end Outcome

namespace Target

def examine (t : Target Quantity) (o : BatchOptions) (a : Aggregate Quantity) :
    Except (LayoutFailure Quantity) (Layout Quantity × Option (Repack Quantity)) := do
  let l ← t.layout a
  if o.checkUnions then t.checkDisjoint a l
  if o.repack then return (l, some (← t.repack o.rules a)) else return (l, none)

def reportOn (o : BatchOptions) (name : String) (l : Layout Quantity)
    (repack : Option (Repack Quantity)) : Except NumberFault Report × List LogLine :=
  match l.wastePercent with
  | .error fault => (.error fault, [])
  | .ok waste =>
    let wasteful :=
      if waste > o.wasteWarning then
        [.warning s!"{name} wastes {Decimal.fixed 1 waste}% of its {l.totalSize} bytes"]
      else []
    (Report.ofLayout l repack, wasteful)

def outcome (t : Target Quantity) (o : BatchOptions) (a : Aggregate Quantity) :
    Except NumberFault Outcome × List LogLine :=
  let name := orAnonymous a.name
  match t.examine o a with
  | .error (.invalid e) =>
    (.ok { name, result := .error (.layout e) }, [.error s!"[FAILED] {name}: {e.message}"])
  | .error (.number fault) => (.error fault, [])
  | .ok (l, repack) =>
    let kept := (repack.bind (Repack.warning? o.rules)).map LogLine.warning
    let (report, lines) := reportOn o name l repack
    (report.map fun report => { name, result := .ok report }, kept.toList ++ lines)

end Target

namespace Batch

def target (c : Catalog Quantity) (o : BatchOptions) : Target Quantity :=
  { catalog := c, maxDepth := o.maxDepth }

def untilFault {α β : Type} :
    List (Except NumberFault α × β) → List (Except NumberFault α × β)
  | [] => []
  | (.ok a, b) :: rest => (.ok a, b) :: untilFault rest
  | (.error fault, b) :: _ => [(.error fault, b)]

def recordAll (outcomes : List Outcome) : Progress × List LogLine :=
  outcomes.foldl (fun (p, lines) o =>
    let (p, line) := p.record o.name o.ok
    (p, lines ++ [line])) ({}, [])

/-- One outcome for each aggregate, in their order. Several workers keep what they log to
themselves. -/
def process (c : Catalog Quantity) (o : BatchOptions) (aggregates : List (Aggregate Quantity)) :
    Except NumberFault (List Outcome) × List LogLine :=
  if aggregates.isEmpty then (.ok [], [])
  else
    let count := aggregates.length
    let operation := s!"layout of {count} aggregates"
    let started := (({} : Progress).start operation).2
    let workers := min o.workers count
    let results := aggregates.map ((target c o).outcome o)
    let lines :=
      if workers > 1 then [.info s!"Processing {count} aggregates using {workers} workers"]
      else (untilFault results).flatMap (·.2)
    match results.mapM (·.1) with
    | .error fault =>
      (.error fault, started :: lines ++ [Progress.failure operation fault.message])
    | .ok outcomes =>
      let (p, records) := recordAll outcomes
      (.ok outcomes, started :: lines ++ [Progress.completed operation] ++ records ++ [p.summary])

end Batch

end AggregateLayout
