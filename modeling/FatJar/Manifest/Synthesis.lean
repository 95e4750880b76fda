import FatJar.Manifest.Parser
import FatJar.Manifest.Settings
import FatJar.Relocation.Reference
import FatJar.Text.Ascii

namespace FatJar

structure OutputManifest where
  entryPoint : String
  attributes : Attributes
deriving DecidableEq

namespace Manifest

def createdBy : String := "shadejar 0.1.0"

def reserved : List String :=
  ["Manifest-Version", "Created-By", "Main-Class"]

def isReserved (name : String) : Bool :=
  reserved.any (Ascii.eqIgnoreCase · name)

/-- The value that the first input with an attribute of this name, in any case, gives to it. -/
def inherited? (name : String) (inputs : List Attributes) : Option String :=
  inputs.findSome? fun a =>
    (a.pairs.find? fun p => Ascii.eqIgnoreCase p.1 name).map Prod.snd

def settled (settings : ManifestSettings) (entryPoint : String) : List (String × String) :=
  [("Manifest-Version", "1.0"), ("Created-By", createdBy), ("Main-Class", entryPoint)]
    ++ (settings.title.map (("Implementation-Title", ·))).toList
    ++ (settings.version.map (("Implementation-Version", ·))).toList

def passedThrough (names : List String) (inputs : List Attributes) : List (String × String) :=
  names.filterMap fun name =>
    if isReserved name then none else (inherited? name inputs).map ((name, ·))

def configured (a : Attributes) : List (String × String) :=
  a.pairs.filter fun p => !isReserved p.1

/-- The output manifest, from the input manifests in the order of their archives. A later source
overrides the value of an earlier one and leaves it in its place. -/
def synthesize (settings : ManifestSettings) (entryPoint : String) (inputs : List Bytes) :
    OutputManifest where
  entryPoint
  attributes :=
    .ofList (settled settings entryPoint
      ++ passedThrough settings.passThrough (inputs.map parse)
      ++ configured settings.attributes)

end Manifest

def OutputManifest.relocate (rs : Relocation.RuleSet) (m : OutputManifest) : OutputManifest where
  entryPoint := rs.replaceInText m.entryPoint
  attributes := m.attributes.mapValues rs.replaceInText

end FatJar
