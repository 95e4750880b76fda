namespace FatJar.Command

inductive Switch where
  | verbose
  | version
  | help
  | config
  | output
  | entryPoint
  | workers
deriving DecidableEq, Repr

namespace Switch

def name : Switch → String
  | verbose => "verbose"
  | version => "version"
  | help => "help"
  | config => "config"
  | output => "output"
  | entryPoint => "entry-point"
  | workers => "workers"

def letter? : Switch → Option Char
  | verbose => some 'v'
  | version => some 'V'
  | help => some 'h'
  | config => some 'c'
  | output => some 'o'
  | entryPoint | workers => none

def takesValue : Switch → Bool
  | verbose | version | help => false
  | config | output | entryPoint | workers => true

end Switch

def digitValue? (c : Char) : Option Nat :=
  if c.isDigit then some (c.toNat - '0'.toNat) else none

def number? (cs : List Char) : Option Nat :=
  if cs.isEmpty then none
  else cs.foldlM (fun n c => (digitValue? c).map (n * 10 + ·)) 0

def word? (s : String) : Option UInt64 :=
  let digits := match s.toList with
    | '+' :: cs => cs
    | cs => cs
  ((number? digits).filter (· < UInt64.size)).map Nat.toUInt64

/-- What `assemble` is asked to do: the file with the configuration, and what to change in it. -/
structure Order where
  config : String
  output : Option String := none
  entryPoint : Option String := none
  workers : Option UInt64 := none
deriving DecidableEq, Repr

inductive Task where
  | assemble (order : Order)
  | inspect (archive : String)
deriving DecidableEq, Repr

inductive Invocation where
  | perform (verbose : Bool) (task : Task)
  | version
  | help
  | misuse
deriving DecidableEq, Repr

inductive Word where
  | operand (text : String)
  | separator
  | long (name : String) (value : Option String)
  | letters (cs : List Char)
deriving DecidableEq, Repr

def Word.ofString (s : String) : Word :=
  match s.toList with
  | ['-', '-'] => .separator
  | '-' :: '-' :: cs =>
    let (name, rest) := cs.span (· != '=')
    .long (String.ofList name) (if rest.isEmpty then none else some (String.ofList rest.tail))
  | '-' :: c :: cs => .letters (c :: cs)
  | _ => .operand s

/-- Where an argument stands: the options that there are, and the number of operands. -/
structure Scope where
  switches : List Switch
  operands : Nat

namespace Scope

def outermost : Scope :=
  ⟨[.verbose, .version, .help], 0⟩

def assemble : Scope :=
  ⟨[.verbose, .help, .config, .output, .entryPoint, .workers], 0⟩

def inspect : Scope :=
  ⟨[.verbose, .help], 1⟩

end Scope

structure Reading where
  given : List (Switch × String) := []
  operands : List String := []
  awaiting : Option Switch := none
  literal : Bool := false

/-- Whether an option can have a value: paths are not empty, and numbers are numbers. -/
def Switch.admits : Switch → String → Bool
  | config, value | output, value => value ≠ ""
  | workers, value => (word? value).isSome
  | verbose, _ | version, _ | help, _ | entryPoint, _ => true

namespace Reading

def value? (r : Reading) (s : Switch) : Option String :=
  (r.given.find? (·.1 = s)).map Prod.snd

def give (r : Reading) (s : Switch) (value : String) : Except Invocation Reading :=
  if (r.value? s).isSome || !s.admits value then .error .misuse
  else .ok { r with given := r.given ++ [(s, value)], awaiting := none }

def flag (r : Reading) : Switch → Except Invocation Reading
  | .version => .error .version
  | .help => .error .help
  | s => r.give s ""

def letters (scope : Scope) (r : Reading) : List Char → Except Invocation Reading
  | [] => .ok r
  | c :: cs =>
    match scope.switches.find? (·.letter? = some c) with
    | none => .error .misuse
    | some s =>
      if s.takesValue then
        match cs with
        | [] => .ok { r with awaiting := some s }
        | '=' :: value => r.give s (String.ofList value)
        | value => r.give s (String.ofList value)
      else
        match r.flag s with
        | .error i => .error i
        | .ok r => r.letters scope cs

def long (scope : Scope) (r : Reading) (name : String) (value : Option String) :
    Except Invocation Reading :=
  match scope.switches.find? (·.name = name), value with
  | none, _ => .error .misuse
  | some s, some value => if s.takesValue then r.give s value else .error .misuse
  | some s, none => if s.takesValue then .ok { r with awaiting := some s } else r.flag s

def operand (scope : Scope) (r : Reading) (text : String) : Except Invocation Reading :=
  if r.operands.length < scope.operands && text ≠ "" then
    .ok { r with operands := r.operands ++ [text] }
  else .error .misuse

def step (scope : Scope) (r : Reading) (argument : String) : Except Invocation Reading :=
  if r.literal then r.operand scope argument
  else
    match r.awaiting, Word.ofString argument with
    | some s, .operand text => r.give s text
    | some _, _ => .error .misuse
    | none, .operand text => r.operand scope text
    | none, .separator => .ok { r with literal := true }
    | none, .long name value => r.long scope name value
    | none, .letters cs => r.letters scope cs

def run (scope : Scope) (arguments : List String) : Except Invocation Reading := do
  let r ← arguments.foldlM (step scope) {}
  if r.awaiting.isSome then throw .misuse
  return r

def order? (r : Reading) : Option Order :=
  (r.value? .config).map fun config =>
    { config, output := r.value? .output, entryPoint := r.value? .entryPoint,
      workers := (r.value? .workers).bind word? }

end Reading

namespace Invocation

def ofTask (verbose : Bool) (r : Reading) : Option Task → Invocation
  | none => .misuse
  | some task => .perform (verbose || (r.value? .verbose).isSome) task

def ofOperands (verbose : Bool) (name : String) (arguments : List String) : Invocation :=
  let result := match name with
    | "assemble" => do
      let r ← Reading.run .assemble arguments
      return ofTask verbose r (r.order?.map .assemble)
    | "inspect" => do
      let r ← Reading.run .inspect arguments
      return ofTask verbose r (r.operands.head?.map .inspect)
    | "help" =>
      match arguments with
      | [] | ["assemble"] | ["inspect"] | ["help"] => .ok .help
      | _ => .ok .misuse
    | _ => .ok .misuse
  match result with
  | .ok i | .error i => i

def read (r : Reading) : List String → Invocation
  | [] => .misuse
  | argument :: arguments =>
    match Word.ofString argument with
    | .operand name => ofOperands (r.value? .verbose).isSome name arguments
    | .separator => .misuse
    | .long _ _ | .letters _ =>
      match r.step .outermost argument with
      | .ok r => read r arguments
      | .error i => i

def ofArguments (arguments : List String) : Invocation :=
  read {} arguments

end Invocation

end FatJar.Command
