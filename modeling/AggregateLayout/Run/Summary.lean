import AggregateLayout.Batch
import AggregateLayout.Document.Writer
import AggregateLayout.Path

namespace AggregateLayout

namespace Outcome

def ofRejected (d : Description) : List Outcome :=
  d.rejected.map fun (label, fault) => { name := label, result := .error (.rejected fault) }

def document (o : Outcome) : Document :=
  match o.result with
  | .ok r => r.document
  | .error e =>
    .object [("name", .text o.name), ("error", .text e.kind), ("message", .text e.message),
      ("member", (e.member.map Document.text).getD .null)]

def plainName : List Char → List Char
  | ':' :: ':' :: rest => '_' :: plainName rest
  | '<' :: rest => '_' :: plainName rest
  | '>' :: rest => '_' :: plainName rest
  | c :: rest => c :: plainName rest
  | [] => []

def fileName (extension : String) (o : Outcome) : String :=
  let stem := String.ofList (plainName o.name.toList)
  (if stem.isEmpty then "anonymous" else stem) ++ "." ++ extension

def file (extension : String) (o : Outcome) : Path := .ofText (o.fileName extension)

def sizeWarning? (recorded : Table DebugInfo.AttributeValue) (o : Outcome) : Option LogLine :=
  match o.report?, Table.find? o.name recorded with
  | some r, some size =>
    let computed := r.listing.layout.totalSize
    if size.isMissing || size.isNumber computed then none
    else some (.warning (s!"{o.name}: computed size {computed} differs from compiler-reported " ++
      s!"{size.inline} (packing attributes or C++ layout rules?)"))
  | _, _ => none

def savings? (o : Outcome) : Option Quantity :=
  (o.report?.bind (·.packing)).map (·.repack.savings)

def failureLine? (o : Outcome) : Option LogLine :=
  o.error?.map fun e => .info s!"  - {o.name}: {e.kind}: {e.message}"

end Outcome

abbrev Outcomes := List Outcome

namespace Outcomes

def reports (outcomes : Outcomes) : List Report := outcomes.filterMap Outcome.report?

def text (outcomes : Outcomes) : String :=
  "\n\n".intercalate (outcomes.reports.map (·.text)) ++ "\n"

def documentText (outcomes : Outcomes) : String :=
  (Document.list (outcomes.map (·.document))).lines ++ "\n"

def failed (outcomes : Outcomes) : Nat := outcomes.countP fun o => !o.ok

def savings (outcomes : Outcomes) : Quantity := Measure.sum (outcomes.filterMap Outcome.savings?)

def summary (outcomes : Outcomes) (repack : Bool) : List LogLine :=
  let rule := LogLine.info (String.ofList (List.replicate 70 '='))
  let count := outcomes.length
  let failed := outcomes.failed
  let saved := if repack then [.info s!"Bytes saved by repacking: {outcomes.savings}"] else []
  let failures :=
    if failed == 0 then []
    else LogLine.info "Failed aggregates:" :: outcomes.filterMap Outcome.failureLine?
  [rule, .info "LAYOUT SUMMARY", rule, .info s!"Total aggregates: {count}",
    .info s!"Laid out: {count - failed}", .info s!"Failed: {failed}"] ++ saved ++ failures

end Outcomes

end AggregateLayout
