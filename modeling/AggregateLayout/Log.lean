import AggregateLayout.Aggregate

namespace AggregateLayout

inductive LogLevel where
  | debug
  | info
  | warning
  | error
  deriving DecidableEq

namespace LogLevel

def text : LogLevel → String
  | .debug => "DEBUG"
  | .info => "INFO"
  | .warning => "WARNING"
  | .error => "ERROR"

def severity : LogLevel → Nat
  | .debug => 0
  | .info => 1
  | .warning => 2
  | .error => 3

end LogLevel

structure LogLine where
  level : LogLevel
  text : String
  afterTime : Option String := none

namespace LogLine

def info (text : String) : LogLine := { level := .info, text }

def warning (text : String) : LogLine := { level := .warning, text }

def error (text : String) : LogLine := { level := .error, text }

def render (seconds : String) (l : LogLine) : String :=
  let time := match l.afterTime with
    | some rest => s!"{seconds}s{rest}"
    | none => ""
  s!"{l.level.text}: {l.text}{time}"

def isAtLeast (level : LogLevel) (l : LogLine) : Bool := level.severity ≤ l.level.severity

def subject (names : List (Option String)) : String :=
  match names.filterMap id with
  | [] => ""
  | name :: _ => orAnonymous name

end LogLine

end AggregateLayout
