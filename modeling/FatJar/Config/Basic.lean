import FatJar.Entry.Basic
import FatJar.Files.Path
import FatJar.Manifest.Settings
import FatJar.Merge.Policy
import FatJar.Relocation.Rule
import FatJar.Text.Blank

namespace FatJar

structure Input where
  archive : Coordinates
  path : String
deriving DecidableEq, Repr

structure Config where
  /-- In the order of their ranks: of equal entries the one from the first input counts. -/
  inputs : List Input := []
  output : String
  entryPoint : String
  policies : List Merge.Policy := []
  rules : List Relocation.Rule := []
  manifest : ManifestSettings := {}
  workers : Option UInt64 := none
  channelCapacity : UInt64 := 1024
deriving DecidableEq

structure InputArchive where
  archive : Coordinates
  path : String
  rank : Nat
deriving DecidableEq, Repr

namespace Config

def archives (c : Config) : List InputArchive :=
  c.inputs.zipIdx.map fun (input, rank) => ⟨input.archive, input.path, rank⟩

def resolvePaths (base : String) (c : Config) : Config :=
  { c with
    inputs := c.inputs.map fun input => { input with path := Path.join base input.path }
    output := Path.join base c.output }

inductive Fault where
  | noInputs
  | noEntryPoint
  | manifest (fault : Manifest.SettingsFault)
  | outputNamesNoFile (path : String)
  | noCapacity
  | noWorkers
deriving DecidableEq, Repr

def Fault.message : Fault → String
  | noInputs => "at least one input archive is required"
  | noEntryPoint => "entry point must not be empty"
  | manifest fault => fault.message
  | outputNamesNoFile path => "output " ++ path ++ " does not name a file"
  | noCapacity => "channel_capacity must be positive"
  | noWorkers => "workers must be positive"

def fault? (c : Config) : Option Fault :=
  if c.inputs.isEmpty then some .noInputs
  else if c.entryPoint.toList.all isBlank then some .noEntryPoint
  else
    match (Manifest.valueFault? "entry point" c.entryPoint).or c.manifest.fault? with
    | some fault => some (.manifest fault)
    | none =>
      if (Path.fileName? c.output).isNone then some (.outputNamesNoFile c.output)
      else if c.channelCapacity = 0 then some .noCapacity
      else if c.workers = some 0 then some .noWorkers
      else none

end Config

end FatJar
