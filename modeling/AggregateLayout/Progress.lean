import AggregateLayout.Log

namespace AggregateLayout

structure Progress where
  processed : Nat := 0
  failed : Nat := 0
  operations : List String := []

namespace Progress

def start (name : String) (p : Progress) : Progress × LogLine :=
  ({ p with operations := p.operations ++ [name] },
    { level := .debug, text := s!"Starting operation: {name}" })

def completed (name : String) : LogLine :=
  { level := .debug, text := s!"Completed operation: {name} in ", afterTime := "" }

def failure (name message : String) : LogLine :=
  { level := .error, text := s!"Failed operation: {name} after ", afterTime := s!": {message}" }

def leave? (p : Progress) : Option Progress :=
  if p.operations.isEmpty then none else some { p with operations := p.operations.dropLast }

def record (name : String) (ok : Bool) (p : Progress) : Progress × LogLine :=
  let processed := p.processed + 1
  let result := if ok then "ok" else "failed"
  ({ p with processed, failed := if ok then p.failed else p.failed + 1 },
    { level := .debug, text := s!"Aggregate #{processed} {name}: {result}" })

def summary (p : Progress) : LogLine :=
  .info s!"Processing complete: {p.processed} aggregates ({p.failed} failed)"

def context (p : Progress) : String :=
  if p.operations.isEmpty then "idle" else " -> ".intercalate p.operations

end Progress

end AggregateLayout
