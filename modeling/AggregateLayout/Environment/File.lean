import AggregateLayout.Environment

namespace AggregateLayout.Environment

structure Assignment where
  name : String
  value : Option String

abbrev Scan (α : Type) := Except (List Char) (α × List Char)

def isLineEnd (c : Char) : Bool := c == '\n' || c == '\r'

def isMargin (c : Char) : Bool := Text.isBlank c && !isLineEnd c

def skipMargin (cs : List Char) : List Char := cs.dropWhile isMargin

def skipExport (cs : List Char) : List Char :=
  match cs with
  | 'e' :: 'x' :: 'p' :: 'o' :: 'r' :: 't' :: c :: rest =>
    if isMargin c then skipMargin rest else cs
  | _ => cs

def scanName (cs : List Char) : Scan (Option String) :=
  match cs with
  | '#' :: _ => .ok (none, cs)
  | '\'' :: rest =>
    let (name, after) := rest.span (· != '\'')
    if name.isEmpty || after.isEmpty then .error cs
    else .ok (some (String.ofList name), after.tail)
  | _ =>
    let (name, after) := cs.span fun c => c != '=' && c != '#' && !Text.isBlank c
    if name.isEmpty then .error cs else .ok (some (String.ofList name), after)

/-- The text up to the quote that closes it, the last character first, and what follows. A quote
after a backslash closes it only when there is no other, and then the last one does. -/
def closeQuote (quote : Char) (taken : List Char) (otherwise : Option (List Char × List Char)) :
    List Char → Option (List Char × List Char)
  | [] => otherwise
  | '\\' :: c :: rest =>
    if c == quote then closeQuote quote (c :: '\\' :: taken) (some ('\\' :: taken, rest)) rest
    else closeQuote quote ('\\' :: taken) otherwise (c :: rest)
  | c :: rest =>
    if c == quote then some (taken, rest) else closeQuote quote (c :: taken) otherwise rest

def escapedChar? (quote c : Char) : Option Char :=
  if c == '\\' || c == '\'' then some c
  else if quote == '\'' then none
  else match c with
    | '"' => some '"'
    | 'a' => some (Char.ofNat 7)
    | 'b' => some (Char.ofNat 8)
    | 'f' => some (Char.ofNat 12)
    | 'n' => some '\n'
    | 'r' => some '\r'
    | 't' => some '\t'
    | 'v' => some (Char.ofNat 11)
    | _ => none

def unescape (quote : Char) : List Char → List Char
  | '\\' :: c :: rest =>
    match escapedChar? quote c with
    | some escaped => escaped :: unescape quote rest
    | none => '\\' :: unescape quote (c :: rest)
  | c :: rest => c :: unescape quote rest
  | [] => []

def beforeComment : List Char → List Char
  | [] => []
  | c :: rest =>
    if Text.isBlank c && (rest.dropWhile Text.isBlank).head? == some '#' then []
    else c :: beforeComment rest

def scanQuoted (quote : Char) (cs : List Char) : Scan String :=
  match closeQuote quote [] none cs with
  | some (taken, rest) => .ok (String.ofList (unescape quote taken.reverse), rest)
  | none => .error (quote :: cs)

def scanValue (cs : List Char) : Scan String :=
  match cs with
  | '\'' :: rest => scanQuoted '\'' rest
  | '"' :: rest => scanQuoted '"' rest
  | _ =>
    let (line, rest) := cs.span (!isLineEnd ·)
    .ok (Text.trim (String.ofList (beforeComment line)), rest)

def scanLineEnd (cs : List Char) : Except (List Char) (List Char) :=
  let cs := match skipMargin cs with
    | '#' :: rest => rest.dropWhile (!isLineEnd ·)
    | _ => cs
  match skipMargin cs with
  | [] => .ok []
  | c :: rest => if isLineEnd c then .ok rest else .error cs

def scanAssignment (cs : List Char) : Except (List Char) (Option Assignment × List Char) := do
  let (name, cs) ← scanName (skipExport cs)
  let (value, cs) ← match skipMargin cs with
    | '=' :: rest => (scanValue (skipMargin rest)).map fun (value, cs) => (some value, cs)
    | cs => .ok (none, cs)
  return (name.map fun name => { name, value }, ← scanLineEnd cs)

def assignments : Nat → List Char → List Assignment
  | 0, _ => []
  | steps + 1, cs =>
    match cs.dropWhile Text.isBlank with
    | [] => []
    | cs =>
      match scanAssignment cs with
      | .ok (a, rest) => a.toList ++ assignments steps rest
      | .error rest => assignments steps ((rest.dropWhile (!isLineEnd ·)).drop 1)

def reference? : List Char → Option (String × String × List Char)
  | '\x7b' :: rest =>
    let (name, after) := rest.span fun c => c != '\x7d' && c != ':'
    match after with
    | '\x7d' :: after => some (String.ofList name, "", after)
    | ':' :: '-' :: after =>
      let (otherwise, after) := after.span (· != '\x7d')
      if after.isEmpty then none
      else some (String.ofList name, String.ofList otherwise, after.tail)
    | _ => none
  | _ => none

def expandFrom (value : String → String → String) : Nat → List Char → List Char
  | 0, cs => cs
  | _, [] => []
  | steps + 1, c :: rest =>
    match if c == '$' then reference? rest else none with
    | some (name, otherwise, rest) =>
      (value name otherwise).toList ++ expandFrom value steps rest
    | none => c :: expandFrom value steps rest

def expand (value : String → String → String) (s : String) : String :=
  String.ofList (expandFrom value s.length s.toList)

def valueOr (env : Environment) (known : Table (Option String)) (name otherwise : String) :
    String :=
  match env.value? name, Table.find? name known with
  | some value, _ => value
  | none, some value => value.getD ""
  | none, none => otherwise

def resolve (env : Environment) (lines : List Assignment) : Table (Option String) :=
  lines.foldl (fun known a =>
    Table.insert a.name (a.value.map (expand (valueOr env known))) known) []

def addNew (name value : String) (env : Environment) : Except VariableFault Environment :=
  if Table.contains name env then .ok env
  else
    match variableFault? name value with
    | some fault => .error fault
    | none => .ok (Table.insert name value env)

def withFile (env : Environment) (text : String) : Except VariableFault Environment :=
  (resolve env (assignments text.length text.toList)).foldlM (fun all (name, value) =>
    match value with
    | some value => all.addNew name value
    | none => .ok all) env

end AggregateLayout.Environment
