import FatJar.Assembly.Assembler
import FatJar.Command.Arguments
import FatJar.Command.Listing
import FatJar.Config.Source

namespace FatJar.Command

structure Outcome where
  exit : UInt32
  output : List String := []
  /-- Whether the time that it took is still to be told at the end of the last line. -/
  timed : Bool := false
  message : Option String := none
  notes : List String := []
  tree : FileTree

def misuseCode : UInt32 := 2

def usage : List String :=
  ["Usage: shadejar [-v] assemble --config CONFIG [--output PATH] [--entry-point FQN] [--workers N]",
    "       shadejar [-v] inspect ARCHIVE",
    "       shadejar --version"]

namespace Outcome

def failure (t : FileTree) (e : AssemblyError) : Outcome :=
  { exit := e.kind.exitCode, message := some e.message, tree := t }

def text (o : Outcome) : String :=
  if o.timed then "\n".intercalate o.output else String.join (o.output.map (· ++ "\n"))

def elapsedText (nanoseconds : Nat) : String :=
  if nanoseconds < 1000 then Decimal.fixed 2 nanoseconds 1 ++ "ns"
  else if nanoseconds < 1000000 then Decimal.fixed 2 nanoseconds 1000 ++ "µs"
  else if nanoseconds < 1000000000 then Decimal.fixed 2 nanoseconds 1000000 ++ "ms"
  else Decimal.fixed 2 nanoseconds 1000000000 ++ "s"

def ending (o : Outcome) (nanoseconds : Nat) : String :=
  if o.timed then " in " ++ elapsedText nanoseconds ++ "\n" else ""

end Outcome

/-- The configuration to work with: what is given on the command line counts, with paths as seen
from the working directory. -/
def Order.apply (o : Order) (c : Config) : Config :=
  { c with
    output := o.output.getD c.output
    entryPoint := o.entryPoint.getD c.entryPoint
    workers := o.workers.or c.workers }

def Order.read (o : Order) (t : FileTree) : Except AssemblyError Config :=
  (Config.ofFile t o.config).map o.apply

def summaryLine (r : Assembler.Report) : String :=
  r.output ++ " (" ++ toString r.write.files ++ " entries, " ++ toString r.merge.duplicates
    ++ " duplicates, " ++ toString r.merge.servicesMerged ++ " services merged)"

def reportNotes (r : Assembler.Report) : List String :=
  ("Scanned " ++ toString r.scan.archives ++ " archives (" ++ toString r.scan.entries ++ " entries, "
    ++ toString r.scan.bytes ++ " bytes)") ::
  match r.relocation with
  | none => []
  | some s =>
    ["Relocated " ++ toString s.unitsRelocated ++ " units, rewrote "
      ++ toString s.referencesReplaced ++ " references"]

def assemble (o : Order) (t : FileTree) (c : Assembler.Conditions) : Outcome :=
  match (o.read t).bind Assembler.ofConfig with
  | .error e => .failure t e
  | .ok a =>
    match a.run t c with
    | (t, .error e) => .failure t e
    | (t, .ok report) =>
      { exit := 0, output := [summaryLine report], timed := true, notes := reportNotes report,
        tree := t }

def inspect (path : String) (t : FileTree) : Outcome :=
  match Archive.ofPath t path with
  | .error e => .failure t e
  | .ok archive =>
    match archive.entries with
    | (_, some defect) => .failure t (.corrupt path defect)
    | (entries, none) => { exit := 0, output := Listing.lines path entries, tree := t }

/-- The paths that a task depends on. Which archives it reads, only the configuration tells. -/
def Task.paths (t : FileTree) : Task → List String
  | .inspect archive => [archive]
  | .assemble order =>
    match order.read t with
    | .error _ => [order.config]
    | .ok c => Path.leading c.output ++ order.config :: c.archives.map (·.path)

def Task.run (t : FileTree) (c : Assembler.Conditions) : Task → Outcome
  | .assemble order => Command.assemble order t c
  | .inspect archive => Command.inspect archive t

def Invocation.run (t : FileTree) (c : Assembler.Conditions) : Invocation → Outcome
  | .perform true task => task.run t c
  | .perform false task => { task.run t c with notes := [] }
  | .version => { exit := 0, output := [Manifest.createdBy], tree := t }
  | .help => { exit := 0, output := usage, tree := t }
  | .misuse => { exit := misuseCode, notes := usage, tree := t }

end FatJar.Command
