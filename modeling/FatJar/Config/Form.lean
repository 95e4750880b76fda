import FatJar.Config.Basic
import FatJar.Json.Decoder
import FatJar.Json.Value

namespace FatJar

open Json (Decoder Field Fields Value)

def wordJson (n : UInt64) : Value :=
  .number n.toNat

def wordDecoder : Decoder UInt64 := fun r =>
  (Decoder.nat (UInt64.size - 1) "usize" r).map UInt64.ofNat

def stringDecoder : Decoder String :=
  Decoder.text "a string"

def pathDecoder : Decoder String :=
  Decoder.text "path string"

namespace Input

def toJson (i : Input) : Value :=
  .object
    ([("name", .string i.archive.name)] ++ Value.member? "version" .string i.archive.version
      ++ [("path", .string i.path)])

def fields : Fields [String, Option String, String] :=
  .cons { name := "name", decode := stringDecoder } <|
  .cons { name := "version", decode := stringDecoder.optional, fallback := some none } <|
  .cons { name := "path", decode := pathDecoder } .nil

def decoder : Decoder Input := fun r =>
  (fields.decode "InputSpec" .strict r).map fun (name, version, path, _) => ⟨⟨name, version⟩, path⟩

end Input

namespace Merge

def actionDecoder : Decoder Action := fun r =>
  (Decoder.variant (Action.all.map Action.label) r).bind fun name =>
    match Action.ofLabel? name with
    | some a => .ok a
    | none => .error .malformed

namespace Policy

def toJson (p : Policy) : Value :=
  .object
    ([("pattern", .string p.pattern), ("action", .string p.action.label)]
      ++ Value.member? "order" (fun n => .number n.toNat) p.order)

def orderDecoder : Decoder UInt32 := fun r =>
  (Decoder.nat (UInt32.size - 1) "u32" r).map UInt32.ofNat

def fields : Fields [String, Action, Option UInt32] :=
  .cons { name := "pattern", decode := stringDecoder } <|
  .cons { name := "action", decode := actionDecoder } <|
  .cons { name := "order", decode := orderDecoder.optional, fallback := some none } .nil

def decoder : Decoder Policy := fun r =>
  (fields.decode "MergePolicy" .lenient r).map fun (pattern, action, order, _) =>
    ⟨pattern, action, order⟩

end Policy

end Merge

namespace Relocation.Rule

def toJson (r : Rule) : Value :=
  .object [("from", .string r.source), ("to", .string r.target)]

def fields : Fields [String, String] :=
  .cons { name := "from", decode := stringDecoder } <|
  .cons { name := "to", decode := stringDecoder } .nil

def decoder : Decoder Rule := fun r =>
  (fields.decode "RelocationRule" .lenient r).map fun (source, target, _) => ⟨source, target⟩

end Relocation.Rule

namespace ManifestSettings

def toJson (s : ManifestSettings) : Value :=
  .object
    [("title", Value.orNull .string s.title), ("version", Value.orNull .string s.version),
      ("pass_through", .array (s.passThrough.map .string)),
      ("attributes", .object (s.attributes.pairs.map fun p => (p.1, .string p.2)))]

def fields : Fields [Option String, Option String, List String, Attributes] :=
  .cons { name := "title", decode := stringDecoder.optional, fallback := some none } <|
  .cons { name := "version", decode := stringDecoder.optional, fallback := some none } <|
  .cons { name := "pass_through", decode := stringDecoder.list, fallback := some [] } <|
  .cons { name := "attributes", decode := fun r => (stringDecoder.pairs r).map .ofList,
          fallback := some .empty } .nil

def decoder : Decoder ManifestSettings := fun r =>
  (fields.decode "ManifestSettings" .strict r).map fun (title, version, passThrough, attributes, _) =>
    { title, version, passThrough, attributes }

end ManifestSettings

namespace Config

def toJson (c : Config) : Value :=
  .object
    [("inputs", .array (c.inputs.map Input.toJson)), ("output", .string c.output),
      ("entry_point", .string c.entryPoint), ("merge", .array (c.policies.map Merge.Policy.toJson)),
      ("relocations", .array (c.rules.map Relocation.Rule.toJson)),
      ("manifest", c.manifest.toJson), ("workers", Value.orNull wordJson c.workers),
      ("channel_capacity", wordJson c.channelCapacity)]

def fields : Fields [List Input, String, String, List Merge.Policy, List Relocation.Rule,
    ManifestSettings, Option UInt64, UInt64] :=
  .cons { name := "inputs", decode := Input.decoder.list } <|
  .cons { name := "output", decode := pathDecoder } <|
  .cons { name := "entry_point", decode := stringDecoder } <|
  .cons { name := "merge", decode := Merge.Policy.decoder.list, fallback := some [] } <|
  .cons { name := "relocations", decode := Relocation.Rule.decoder.list, fallback := some [] } <|
  .cons { name := "manifest", decode := ManifestSettings.decoder, fallback := some {} } <|
  .cons { name := "workers", decode := wordDecoder.optional, fallback := some none } <|
  .cons { name := "channel_capacity", decode := wordDecoder, fallback := some 1024 } .nil

def decoder : Decoder Config := fun r =>
  (fields.decode "AssemblyConfig" .strict r).map
    fun (inputs, output, entryPoint, policies, rules, manifest, workers, channelCapacity, _) =>
      { inputs, output, entryPoint, policies, rules, manifest, workers, channelCapacity }

def render (c : Config) : String :=
  c.toJson.render

def ofText (s : String) : Except Json.Fault Config :=
  Json.decode decoder s

end Config

end FatJar
