import FatJar.Bytes

namespace FatJar.ClassFile

abbrev Reader := Bytes → Option Bytes

namespace Reader

def skip (n : Nat) : Reader :=
  fun bs => (Bytes.cut? n bs).map (·.2)

def number? (width : Nat) (bs : Bytes) : Option (Nat × Bytes) :=
  (Bytes.cut? width bs).map fun (digits, rest) => (Bytes.bigEndian digits, rest)

def number (width : Nat) (next : Nat → Reader) : Reader :=
  fun bs =>
    match number? width bs with
    | none => none
    | some (n, rest) => next n rest

def both (p q : Reader) : Reader :=
  fun bs => (p bs).bind q

def repeated (p : Reader) : Nat → Reader
  | 0, bs => some bs
  | n + 1, bs =>
    match p bs with
    | none => none
    | some rest => repeated p n rest

def counted (width : Nat) (p : Reader) : Reader :=
  number width (repeated p)

def row (ps : List Reader) : Reader :=
  ps.foldr both some

def fail : Reader :=
  fun _ => none

end Reader

end FatJar.ClassFile
