import FatJar.Config.Basic
import FatJar.Files.Tree
import FatJar.Json.Fault
import FatJar.Relocation.Relocator

namespace FatJar

inductive Defect where
  | unreachable (fault : PathFault)
  | unreadableIndex
  | unopenable (index : Nat)
  | escaping (path : String)
  | unreadable (path : String)
deriving DecidableEq, Repr

inductive ConfigError where
  | unreadable (path : String)
  | form (fault : Json.Fault)
  | content (fault : Config.Fault)
  | settings (fault : Manifest.SettingsFault)
  | policies (fault : Merge.PolicyFault)
deriving DecidableEq, Repr

inductive AssemblyError where
  | notFound (path : String)
  | corrupt (archive : String) (defect : Defect)
  | ambiguous (policies : Merge.Ambiguity)
  | rules (rule : Relocation.Rule) (fault : Relocation.Fault)
  | relocation (failure : Relocation.Failure)
  | write (path : String)
  | config (error : ConfigError)
  | cancelled
  | internal (text : String)
deriving DecidableEq, Repr

def PathFault.message : PathFault → String
  | missing => "No such file or directory (os error 2)"
  | notDirectory => "Not a directory (os error 20)"
  | nameTooLong => "File name too long (os error 36)"
  | zeroByte => "file name contained an unexpected NUL byte"
  | refused => "Permission denied (os error 13)"

/-- The entry that a defect is about, or what is wrong with the archive as a whole. -/
def Defect.message : Defect → String
  | unreachable fault => fault.message
  | unreadableIndex => "unreadable index"
  | unopenable index => "entry #" ++ toString index
  | escaping path => "entry " ++ path ++ " escapes the archive root"
  | unreadable path => "entry " ++ path

def ConfigError.message : ConfigError → String
  | unreadable path => "cannot read " ++ path
  | form fault => fault.message
  | content fault => fault.message
  | settings fault => fault.message
  | policies fault => fault.message

namespace AssemblyError

def message : AssemblyError → String
  | notFound path => "Input archive not found: " ++ path
  | corrupt archive defect => "Corrupt archive " ++ archive ++ ": " ++ defect.message
  | ambiguous a =>
    "Ambiguous merge policy for " ++ a.path ++ ": '" ++ a.first ++ "' and '" ++ a.second
      ++ "' are equally specific"
  | rules rule fault =>
    "Inconsistent relocation of " ++ rule.source ++ " at configuration: " ++ fault.reason rule
  | relocation f =>
    "Inconsistent relocation of " ++ f.space ++ " at " ++ f.path ++ ": " ++ f.obstacle.reason
  | write path => "Failed to write " ++ path
  | config error => "Invalid configuration: " ++ error.message
  | cancelled => "Assembly cancelled"
  | internal text => "Internal error: " ++ text

inductive Kind where
  | notFound
  | corruptArchive
  | ambiguousPolicy
  | inconsistentRelocation
  | writeError
  | invalidConfig
  | cancelled
  | internal
deriving DecidableEq, Repr

def kind : AssemblyError → Kind
  | notFound _ => .notFound
  | corrupt _ _ => .corruptArchive
  | ambiguous _ => .ambiguousPolicy
  | rules _ _ | relocation _ => .inconsistentRelocation
  | write _ => .writeError
  | config _ => .invalidConfig
  | cancelled => .cancelled
  | internal _ => .internal

def Kind.exitCode : Kind → UInt32
  | internal => 1
  | notFound => 2
  | corruptArchive => 3
  | ambiguousPolicy => 4
  | inconsistentRelocation => 5
  | writeError => 6
  | invalidConfig => 7
  | cancelled => 130

end AssemblyError

end FatJar
