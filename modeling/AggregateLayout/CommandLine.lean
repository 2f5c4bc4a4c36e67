import AggregateLayout.Settings

namespace AggregateLayout

inductive CommandOption where
  | help
  | profile
  | repack
  | preserveGroups
  | cacheLineHint
  | checkUnions
  | symbols
  | format
  | output
  | workers
  | logDirectory
  | verbose
  deriving DecidableEq

namespace CommandOption

def all : List CommandOption := [help, profile, repack, preserveGroups, cacheLineHint, checkUnions,
  symbols, format, output, workers, logDirectory, verbose]

def spellings : CommandOption → List String
  | help => ["-h", "--help"]
  | profile => ["-p", "--profile"]
  | repack => ["--repack"]
  | preserveGroups => ["--preserve-groups"]
  | cacheLineHint => ["--cache-line-hint"]
  | checkUnions => ["--check-unions"]
  | symbols => ["--symbols"]
  | format => ["--format"]
  | output => ["-o", "--output"]
  | workers => ["--workers"]
  | logDirectory => ["--log-dir"]
  | verbose => ["-v", "--verbose"]

def takesValue : CommandOption → Bool
  | profile | symbols | format | output | workers | logDirectory => true
  | _ => false

def spelled : List (String × CommandOption) :=
  all.flatMap fun o => o.spellings.map (·, o)

def isLong (spelling : String) : Bool := "--".isPrefixOf spelling

def ofSpelling? (s : String) : Option CommandOption := spelled.lookup s

end CommandOption

inductive UsageFault where
  | ambiguous (argument : String) (spellings : List String)
  | noValue (option : CommandOption)
  | unusedValue (option : CommandOption) (value : String)
  | notWhole (option : CommandOption) (value : String)
  | notChoice (option : CommandOption) (value : String)
  | unknown (arguments : List String)

def UsageFault.message : UsageFault → String
  | .ambiguous argument spellings =>
    s!"ambiguous option: {argument} could match " ++ ", ".intercalate spellings
  | .noValue o => about o "expected one argument"
  | .unusedValue o value => about o s!"ignored explicit argument {Text.quoted value}"
  | .notWhole o value => about o s!"invalid int value: {Text.quoted value}"
  | .notChoice o value =>
    about o (s!"invalid choice: {Text.quoted value} (choose from " ++
      ", ".intercalate (reportFormats.map Text.quoted) ++ ")")
  | .unknown arguments => "unrecognized arguments: " ++ " ".intercalate arguments
where
  about (o : CommandOption) (rest : String) : String :=
    "argument " ++ "/".intercalate o.spellings ++ ": " ++ rest

structure CommandLine where
  requests : Requests := {}
  symbols : Option String := none
  logDirectory : Option Path := none
  blank : List CommandOption := []

namespace CommandLine

def blankMessage : CommandOption → String
  | .format => "'list' object has no attribute 'lower'"
  | .workers => "'<' not supported between instances of 'list' and 'int'"
  | _ => "'list' object has no attribute 'mkdir'"

def programName : String := "struct-packer"

def names? (c : CommandLine) : Option (List String) :=
  match c.symbols with
  | none => none
  | some list =>
    if list.isEmpty then none
    else
      let names := (list.toList.splitOn ',').map fun cs => Text.trim (String.ofList cs)
      some (names.filter (!·.isEmpty))

end CommandLine

end AggregateLayout
