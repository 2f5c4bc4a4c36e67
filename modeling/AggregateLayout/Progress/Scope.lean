import AggregateLayout.Progress

/-!
Programs over the progress: operations enclose steps and may be cut short by a failure, which does
not go beyond the operation that it leaves. Each step that runs to its end gives an answer.
-/

namespace AggregateLayout.Progress

inductive Step where
  | record (name : String) (ok : Bool)
  | summary
  | reset
  | idle
  | fail (message : String)
  | track (name : String) (steps : List Step)
  deriving Inhabited

def Step.kind : Step → String
  | .record _ _ => "record"
  | .summary => "summary"
  | .reset => "reset"
  | .idle => "noop"
  | .fail _ => "raise"
  | .track _ _ => "track"

inductive ScopeFault where
  | failed (message : String)
  | notUnderWay
  deriving DecidableEq

def ScopeFault.message : ScopeFault → String
  | .failed message => message
  | .notUnderWay => "pop from empty list"

structure Answer where
  step : String
  context : String
  processed : Nat
  failed : Nat
  log : List LogLine
  fault : Option ScopeFault

structure Run where
  progress : Progress := {}
  log : List LogLine := []
  answers : List Answer := []

namespace Run

def say (line : LogLine) (r : Run) : Run := { r with log := r.log ++ [line] }

def answer (step : Step) (fault : Option ScopeFault) (r : Run) : Run :=
  let a : Answer :=
    { step := step.kind, context := r.progress.context, processed := r.progress.processed,
      failed := r.progress.failed, log := r.log, fault }
  { r with log := [], answers := r.answers ++ [a] }

def enter (name : String) (r : Run) : Run :=
  let (progress, line) := r.progress.start name
  { r with progress, log := r.log ++ [line] }

/-- Leaves an operation whose steps ended as `fault` says. -/
def exit (name : String) (fault : Option ScopeFault) (r : Run) : Run × Option ScopeFault :=
  let r := match fault with
    | none => r.say (completed name)
    | some fault => r.say (failure name fault.message)
  match r.progress.leave? with
  | some progress => ({ r with progress }, fault)
  | none => (r, some .notUnderWay)

end Run

mutual

def Step.run : Step → Run → Run × Option ScopeFault
  | .record name ok, r =>
    let (progress, line) := r.progress.record name ok
    (({ r with progress }.say line).answer (.record name ok) none, none)
  | .summary, r => ((r.say r.progress.summary).answer .summary none, none)
  | .reset, r => ({ r with progress := {} }.answer .reset none, none)
  | .idle, r => (r.answer .idle none, none)
  | .fail message, r => (r, some (.failed message))
  | .track name steps, r =>
    let (r, fault) := runAll steps (r.enter name)
    let (r, fault) := r.exit name fault
    (r.answer (.track name steps) fault, none)
termination_by structural step => step

def runAll : List Step → Run → Run × Option ScopeFault
  | [], r => (r, none)
  | step :: rest, r =>
    match step.run r with
    | (r, none) => runAll rest r
    | (r, some fault) => (r, some fault)
termination_by structural steps => steps

end

end AggregateLayout.Progress
