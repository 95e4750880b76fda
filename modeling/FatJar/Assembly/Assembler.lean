import FatJar.Manifest.Synthesis
import FatJar.Merge.Resolver
import FatJar.Output.Writer
import FatJar.Scan

namespace FatJar

inductive AssemblyState where
  | idle
  | reading
  | resolving
  | relocating
  | writing
  | done
  | failed
deriving DecidableEq, Repr

namespace AssemblyState

def label : AssemblyState → String
  | idle => "idle"
  | reading => "reading"
  | resolving => "resolving"
  | relocating => "relocating"
  | writing => "writing"
  | done => "done"
  | failed => "failed"

def isTerminal : AssemblyState → Bool
  | done | failed => true
  | idle | reading | resolving | relocating | writing => false

end AssemblyState

/-- A configuration that has been accepted, with all that can be prepared. -/
structure Assembler where
  config : Config
  policies : Merge.PolicyTable
  rules : Relocation.RuleSet
  fingerprint : Fingerprint := .xxh3
  accepted : config.fault? = none

namespace Assembler

def policyTable (ps : List Merge.Policy) : Except AssemblyError Merge.PolicyTable :=
  (Merge.PolicyTable.ofList ps).mapError fun fault => .config (.policies fault)

def ruleSet (rs : List Relocation.Rule) : Except AssemblyError Relocation.RuleSet :=
  (Relocation.RuleSet.ofList rs).mapError fun (rule, fault) => .rules rule fault

def ofConfig (c : Config) : Except AssemblyError Assembler :=
  match h : c.fault? with
  | some fault => .error (.config (.content fault))
  | none => do
    let policies ← policyTable c.policies
    let rules ← ruleSet c.rules
    return { config := c, policies, rules, accepted := h }

inductive Checkpoint where
  | reading
  | scanning
  | scanned
  | resolving
  | relocating
  | writing
  | item (index : Nat)
deriving DecidableEq, Repr

/-- What a run does not decide itself: in which order the events of its workers arrive, where it
finds itself cancelled, which steps of writing fail, and how its draft is marked. -/
structure Conditions where
  picks : List Nat := []
  cancelled : Checkpoint → Bool := fun _ => false
  failing : Output.Step → Bool := fun _ => false
  mark : String := "000000"

structure Report where
  output : String
  scan : Scan.Summary
  merge : Merge.Stats
  relocation : Option Relocation.Stats
  write : Output.Summary
deriving DecidableEq, Repr

/-- A piece of a run, which goes from the state of the assembly to its next one. -/
abbrev Stage := ExceptT AssemblyError (StateM AssemblyState)

def enter (s : AssemblyState) : Stage Unit :=
  set s

def Conditions.check (c : Conditions) (p : Checkpoint) : Except AssemblyError Unit :=
  if c.cancelled p then .error .cancelled else .ok ()

def missingInput? (t : FileTree) (archives : List InputArchive) : Option AssemblyError :=
  (archives.find? fun a => !t.contains a.path).map fun a => .notFound a.path

def sink (policies : Merge.PolicyTable) : Scan.Sink Merge.Resolver := fun r e =>
  let (r, result) := Merge.Resolver.ingest policies r e
  (r, result.mapError .ambiguous)

def scan (a : Assembler) (t : FileTree) (c : Conditions) :
    Except AssemblyError (Scan.Summary × Merge.Resolver) := do
  c.check .reading
  let archives := a.config.archives
  if let some e := missingInput? t archives then throw e
  Scan.run t c.picks archives (sink a.policies) (c.cancelled .scanning)
    (fun _ => c.cancelled .scanned) { fingerprint := a.fingerprint }

def relocateContents (a : Assembler) (contents : Contents) :
    Except AssemblyError Relocation.Outcome :=
  (Relocation.relocate a.rules contents).mapError .relocation

def relocate (a : Assembler) (c : Conditions) (contents : Contents) (manifest : OutputManifest) :
    Stage (Contents × OutputManifest × Option Relocation.Stats) := do
  if a.rules.rules.isEmpty then return (contents, manifest, none)
  enter .relocating
  c.check .relocating
  let o ← a.relocateContents contents
  return (o.contents, manifest.relocate a.rules, some o.stats)

/-- All that is to be written, and the report on it but for the writing. -/
structure Prepared where
  scan : Scan.Summary
  merge : Merge.Stats
  relocation : Option Relocation.Stats
  contents : Contents
  manifest : OutputManifest

def prepare (a : Assembler) (t : FileTree) (c : Conditions) : Stage Prepared := do
  enter .reading
  let (scan, resolver) ← a.scan t c
  enter .resolving
  c.check .resolving
  let res := resolver.finalize
  let manifest := Manifest.synthesize a.config.manifest a.config.entryPoint res.manifests
  let (contents, manifest, relocation) ← a.relocate c res.contents manifest
  enter .writing
  c.check .writing
  return { scan, merge := res.stats, relocation, contents, manifest }

def prepared (a : Assembler) (t : FileTree) (c : Conditions) :
    Except AssemblyError Prepared × AssemblyState :=
  (a.prepare t c).run.run .idle

def run (a : Assembler) (t : FileTree) (c : Conditions) : FileTree × Except AssemblyError Report :=
  match (a.prepared t c).1 with
  | .error e => (t, .error e)
  | .ok p =>
    let (t, result) :=
      Output.write t a.config.output p.manifest.attributes p.contents
        { cancelled := c.cancelled ∘ .item, failing := c.failing, mark := c.mark }
    (t, result.map fun write =>
      { output := a.config.output, scan := p.scan, merge := p.merge, relocation := p.relocation,
        write })

end Assembler

end FatJar
