import FatJar.Text.Lines

namespace FatJar.Path

def parts (p : String) : List String :=
  (p.toList.splitOn '/').map String.ofList

def isAbsolute (p : String) : Bool :=
  p.toList.head? == some '/'

def isIdle (part : String) : Bool :=
  part == "" || part == "."

def join (base p : String) : String :=
  if isAbsolute p then p
  else if base.isEmpty || base.toList.getLast? == some '/' then base ++ p
  else base ++ "/" ++ p

def fileName? (p : String) : Option String :=
  (((parts p).filter (!isIdle ·)).getLast?).filter (· != "..")

def leading (p : String) : List String :=
  (List.range (parts p).length).map fun n => "/".intercalate ((parts p).take (n + 1))

def dropIdle (ps : List String) : List String :=
  (ps.reverse.dropWhile isIdle).reverse

def parent? (p : String) : Option String :=
  match parts p with
  | [] => none
  | first :: rest =>
    match dropIdle rest with
    | [] => if first.isEmpty then none else some ""
    | named =>
      let above := dropIdle named.dropLast
      if above.isEmpty && first.isEmpty then some "/"
      else some ("/".intercalate (first :: above))

def directoryOf (p : String) : String :=
  match parent? p with
  | none => "."
  | some d => if d.isEmpty then "." else d

end FatJar.Path
