import FatJar.Manifest.Attributes
import FatJar.Text.Quoted

namespace FatJar

structure ManifestSettings where
  title : Option String := none
  version : Option String := none
  passThrough : List String := []
  attributes : Attributes := .empty
deriving DecidableEq

namespace Manifest

inductive SettingsFault where
  | lineBreak (field value : String)
  | badName (name : String)
deriving DecidableEq, Repr

def SettingsFault.message : SettingsFault → String
  | lineBreak field value => field ++ " must not contain line breaks: " ++ Text.quoted value
  | badName name => "invalid manifest attribute name " ++ Text.quoted name

def isValue (value : String) : Bool :=
  value.toList.all fun c => c != '\r' && c != '\n' && c != '\x00'

def isNameChar (c : Char) : Bool :=
  c.isAlphanum || c == '-' || c == '_'

def isName (name : String) : Bool :=
  !name.isEmpty && name.toList.all isNameChar

def valueFault? (field value : String) : Option SettingsFault :=
  if isValue value then none else some (.lineBreak field value)

def nameFault? (name : String) : Option SettingsFault :=
  if isName name then none else some (.badName name)

end Manifest

open Manifest in
def ManifestSettings.fault? (s : ManifestSettings) : Option SettingsFault :=
  (s.title.bind (valueFault? "manifest title"))
    <|> (s.version.bind (valueFault? "manifest version"))
    <|> s.passThrough.findSome? nameFault?
    <|> s.attributes.pairs.findSome? fun p => nameFault? p.1 <|> valueFault? p.1 p.2

end FatJar
