namespace FatJar

def cutAt? (sep : Char) (cs : List Char) : Option (List Char × List Char) :=
  match cs.span (· != sep) with
  | (_, []) => none
  | (head, _ :: tail) => some (head, tail)

def upTo (sep : Char) (cs : List Char) : List Char :=
  cs.takeWhile (· != sep)

def dropReturn (line : List Char) : List Char :=
  if line.getLast? = some '\r' then line.dropLast else line

/-- The lines of a text, which end at a line feed or at a carriage return and a line feed. -/
def physicalLines (cs : List Char) : List (List Char) :=
  (cs.splitOn '\n').map dropReturn

end FatJar
