import AggregateLayout.CommandLine
import AggregateLayout.Text.Code

namespace AggregateLayout.CommandLine

inductive Token where
  | value (text : String)
  | separator
  | option (spelling : String) (option : CommandOption) (attached : Option (List Char))
  | unknown (text : String)

def isNegativeNumber : List Char → Bool
  | '-' :: cs =>
    let isDigit (c : Char) : Bool := (Text.digitValue? c).isSome
    let fraction (cs : List Char) : Bool := !cs.isEmpty && cs.all isDigit
    let cs := if cs.getLast? == some '\n' then cs.dropLast else cs
    match cs.dropWhile isDigit with
    | [] => !cs.isEmpty
    | '.' :: rest => fraction rest
    | _ => false
  | _ => false

def splitValue (cs : List Char) : List Char × Option (List Char) :=
  match cs.dropWhile (· != '=') with
  | _ :: value => (cs.takeWhile (· != '='), some value)
  | [] => (cs, none)

def candidates (cs : List Char) : List Token :=
  let token (attached : Option (List Char)) (entry : String × CommandOption) : Token :=
    .option entry.1 entry.2 attached
  match cs with
  | '-' :: '-' :: _ =>
    let (start, attached) := splitValue cs
    (CommandOption.spelled.filter fun (spelling, _) => start.isPrefixOf spelling.toList).map
      (token attached)
  | '-' :: letter :: rest =>
    (CommandOption.spelled.filter fun (spelling, _) => spelling.toList == ['-', letter]).map
      (token (some rest))
  | _ => []

def Token.text : Token → String
  | .value text => text
  | .separator => "--"
  | .option spelling _ _ => spelling
  | .unknown text => text

def classify (argument : String) : Except UsageFault Token :=
  let cs := argument.toList
  let (before, attached) := splitValue cs
  let before := String.ofList before
  match CommandOption.ofSpelling? argument, CommandOption.ofSpelling? before with
  | some o, _ => .ok (.option argument o none)
  | none, some o => .ok (.option before o attached)
  | none, none =>
    if cs.head? != some '-' || cs.length == 1 then .ok (.value argument)
    else
      match candidates cs with
      | [token] => .ok token
      | [] =>
        if isNegativeNumber cs || cs.contains ' ' then .ok (.value argument)
        else .ok (.unknown argument)
      | several => .error (.ambiguous argument (several.map Token.text))

def tokens : List String → Except UsageFault (List Token)
  | [] => .ok []
  | argument :: rest =>
    if argument == "--" then .ok (.separator :: rest.map .value)
    else do return (← classify argument) :: (← tokens rest)

structure Group where
  switches : List CommandOption
  last : CommandOption
  value : Option String

def attachTo (switches : List CommandOption) (o : CommandOption) :
    List Char → Except UsageFault Group
  | [] =>
    if o.takesValue then .ok { switches, last := o, value := some "" }
    else .error (.unusedValue o "")
  | letter :: rest =>
    let attached := String.ofList (letter :: rest)
    if o.takesValue then .ok { switches, last := o, value := some attached }
    else
      match CommandOption.ofSpelling? (String.ofList ['-', letter]), rest with
      | none, _ => .error (.unusedValue o attached)
      | some next, [] => .ok { switches := switches ++ [o], last := next, value := none }
      | some next, rest => attachTo (switches ++ [o]) next rest

def group (spelling : String) (o : CommandOption) (attached : Option (List Char)) :
    Except UsageFault Group :=
  match attached with
  | none => .ok { switches := [], last := o, value := none }
  | some cs =>
    if o.takesValue || !CommandOption.isLong spelling then attachTo [] o cs
    else .error (.unusedValue o (String.ofList cs))

inductive Stop where
  | help
  | usage (fault : UsageFault)

def withText (o : CommandOption) (value : String) (c : CommandLine) : Except Stop CommandLine :=
  let r := c.requests
  match o with
  | .profile => .ok { c with requests := { r with profileName := value } }
  | .symbols => .ok { c with symbols := value }
  | .format =>
    if reportFormats.contains value then .ok { c with requests := { r with format := value } }
    else .error (.usage (.notChoice o value))
  | .output => .ok { c with requests := { r with outputDirectory := Path.ofText value } }
  | .workers =>
    match Decimal.readInt value with
    | .ok n => .ok { c with requests := { r with workers := n } }
    | .error _ => .error (.usage (.notWhole o value))
  | .logDirectory => .ok { c with logDirectory := Path.ofText value }
  | _ => .ok c

def withoutValue (o : CommandOption) (c : CommandLine) : CommandLine :=
  match o with
  | .profile => { c with requests := { c.requests with profileName := "" } }
  | .symbols => { c with symbols := "" }
  | _ => { c with blank := o :: c.blank }

def withValue (o : CommandOption) (value : String) (c : CommandLine) : Except Stop CommandLine :=
  let c := { c with blank := c.blank.filter (· != o) }
  if value == "--" then .ok (withoutValue o c) else withText o value c

def switchOn (o : CommandOption) (c : CommandLine) : Except Stop CommandLine :=
  let r := c.requests
  match o with
  | .help => .error .help
  | .repack => .ok { c with requests := { r with repack := true } }
  | .preserveGroups => .ok { c with requests := { r with preserveGroups := true } }
  | .cacheLineHint => .ok { c with requests := { r with cacheLineHint := true } }
  | .checkUnions => .ok { c with requests := { r with checkUnions := true } }
  | .verbose => .ok { c with requests := { r with verbose := true } }
  | _ => .ok c

def apply (c : CommandLine) (g : Group) : Except Stop CommandLine := do
  let c ← g.switches.foldlM (fun c o => switchOn o c) c
  match g.value with
  | some value => withValue g.last value c
  | none => switchOn g.last c

structure Reading where
  line : CommandLine := {}
  inputPassed : Bool := false
  unknown : List String := []

def complete (g : Group) (rest : List Token) : Except UsageFault (Group × List Token) :=
  if g.last.takesValue && g.value.isNone then
    match rest with
    | .value text :: rest => .ok ({ g with value := some text }, rest)
    | _ => .error (.noValue g.last)
  else .ok (g, rest)

def takeInput (p : Reading) : List Token → Reading × List Token
  | .separator :: .value text :: rest => (withInput p text, rest)
  | .separator :: rest => ({ p with inputPassed := true }, rest)
  | .value text :: .separator :: rest => (withInput p text, rest)
  | .value text :: rest => (withInput p text, rest)
  | rest => (p, rest)
where
  withInput (p : Reading) (text : String) : Reading :=
    { p with
      inputPassed := true
      line := { p.line with requests := { p.line.requests with input := Path.ofText text } } }

def setAside (p : Reading) (argument : String) : Reading :=
  { p with unknown := p.unknown ++ [argument] }

def consume : Nat → Reading → List Token → Except Stop Reading
  | 0, p, _ => .ok p
  | _, p, [] => .ok p
  | steps + 1, p, .unknown text :: rest => consume steps (setAside p text) rest
  | steps + 1, p, .option spelling o attached :: rest => do
    let (g, rest) ← ((group spelling o attached).bind (complete · rest)).mapError .usage
    consume steps { p with line := ← apply p.line g } rest
  | steps + 1, p, token :: rest =>
    if p.inputPassed then consume steps (setAside p token.text) rest
    else
      let (p, rest) := takeInput p (token :: rest)
      consume steps p rest

def read (arguments : List String) : Except Stop CommandLine := do
  let tokens ← (tokens arguments).mapError .usage
  let p ← consume tokens.length {} tokens
  if p.unknown.isEmpty then return p.line else throw (.usage (.unknown p.unknown))

end AggregateLayout.CommandLine
