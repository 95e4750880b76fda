import FatJar.Text.Ascii

namespace FatJar

inductive EntryKind where
  | directory
  | classFile
  | serviceFile
  | manifest
  | signature
  | resource
deriving DecidableEq, Repr

namespace EntryKind

def label : EntryKind → String
  | directory => "directory"
  | classFile => "binary-unit"
  | serviceFile => "service-registration"
  | manifest => "top-level-manifest"
  | signature => "signature-file"
  | resource => "ordinary-resource"

def all : List EntryKind :=
  [directory, classFile, serviceFile, manifest, signature, resource]

def ofLabel? (s : String) : Option EntryKind :=
  all.find? (fun k => k.label == s)

end EntryKind

def metaInf : String := "META-INF/"

def manifestPath : String := "META-INF/MANIFEST.MF"

def servicesDir : String := "META-INF/services/"

def serviceName? (path : String) : Option String :=
  match servicesDir.toList.isPrefixOf? path.toList with
  | none => none
  | some name => if name.isEmpty || name.contains '/' then none else some (String.ofList name)

/-- Signing data lies directly in `META-INF/`, whatever the case of its letters. -/
def isSignaturePath (path : String) : Bool :=
  match (Ascii.lower metaInf).isPrefixOf? (Ascii.lower path) with
  | none => false
  | some name =>
    !name.isEmpty && !name.contains '/' &&
      ((Ascii.lower "SIG-").isPrefixOf name ||
        [".SF", ".DSA", ".RSA", ".EC"].any (fun suffix => (Ascii.lower suffix).isSuffixOf name))

def isDirectoryPath (path : String) : Bool :=
  path.toList.getLast? == some '/'

/-- The kind of an entry, from its path alone; the first rule that applies decides. -/
def EntryKind.ofPath (path : String) : EntryKind :=
  if isDirectoryPath path then .directory
  else if isSignaturePath path then .signature
  else if Ascii.eqIgnoreCase path manifestPath then .manifest
  else if (serviceName? path).isSome then .serviceFile
  else if ".class".toList.isSuffixOf path.toList then .classFile
  else .resource

end FatJar
