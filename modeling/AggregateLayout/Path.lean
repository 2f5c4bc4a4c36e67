namespace AggregateLayout

structure Path where
  root : String := ""
  names : List String
  deriving DecidableEq

namespace Path

def ofText (s : String) : Path :=
  let cs := s.toList
  let root := match (cs.takeWhile (· == '/')).length with
    | 0 => ""
    | 2 => "//"
    | _ => "/"
  let names := (cs.splitOn '/').filter fun name => !name.isEmpty && name != ['.']
  { root, names := names.map String.ofList }

def text (p : Path) : String :=
  if p.root.isEmpty && p.names.isEmpty then "." else p.root ++ "/".intercalate p.names

def join (directory file : Path) : Path :=
  if file.root.isEmpty then { directory with names := directory.names ++ file.names } else file

def isOfDirectory (s : String) : Bool :=
  match s.toList.reverse with
  | '/' :: _ => true
  | '.' :: '/' :: _ => true
  | _ => false

end Path

end AggregateLayout
