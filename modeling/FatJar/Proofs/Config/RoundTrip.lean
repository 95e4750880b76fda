import FatJar.Config.Form
import FatJar.Proofs.Json.Decoder
import FatJar.Proofs.Manifest.Attributes

namespace FatJar

open Json (Decoder Fields Value)
open Json.Decoder (text_inverts nat_reading)
open Json.Fields (Written)

theorem stringDecoder_inverts : stringDecoder.Inverts .string :=
  text_inverts "a string"

theorem pathDecoder_inverts : pathDecoder.Inverts .string :=
  text_inverts "path string"

theorem wordDecoder_inverts : wordDecoder.Inverts wordJson := by
  intro n
  have hn : n.toNat ≤ UInt64.size - 1 := Nat.le_sub_one_of_lt n.toNat_lt
  have hnat : Decoder.nat (UInt64.size - 1) "usize" (Value.number n.toNat).reading = .ok n.toNat :=
    nat_reading le_rfl hn "usize"
  rw [wordDecoder, wordJson, hnat]
  simp [Except.map]

theorem optionalString_inverts : stringDecoder.optional.Inverts (Value.orNull .string) :=
  stringDecoder_inverts.optional Value.reading_string_ne_null

theorem Input.decoder_inverts : Input.decoder.Inverts Input.toJson := by
  intro i
  have hwritten : fields.Written _ (i.archive.name, i.archive.version, i.path, ()) :=
    .always stringDecoder_inverts _ <|
    .ofOption stringDecoder_inverts Value.reading_string_ne_null _ <|
    .always pathDecoder_inverts _ .nil
  have hfields := hwritten.decode_reading (by decide) "InputSpec" .strict
  rw [decoder, toJson, List.singleton_append, List.cons_append]
  simp [hfields, Except.map]

namespace Merge

theorem ofLabel?_label (a : Action) : Action.ofLabel? a.label = some a := by
  cases a <;> rfl

theorem label_mem_all (a : Action) : a.label ∈ Action.all.map Action.label := by
  cases a <;> simp [Action.all]

theorem actionDecoder_inverts : actionDecoder.Inverts fun a => .string a.label := by
  intro a
  have hvariant : Decoder.variant (Action.all.map Action.label) (Value.string a.label).reading
      = .ok a.label := by
    rw [Value.reading, Decoder.variant, if_pos (label_mem_all a)]
  simp [actionDecoder, hvariant, Except.bind, ofLabel?_label]

namespace Policy

theorem orderDecoder_inverts : orderDecoder.Inverts fun n => .number n.toNat := by
  intro n
  have hn : n.toNat ≤ UInt32.size - 1 := Nat.le_sub_one_of_lt n.toNat_lt
  rw [orderDecoder, nat_reading (by decide) hn]
  simp [Except.map]

theorem decoder_inverts : decoder.Inverts toJson := by
  intro p
  have hwritten : fields.Written _ (p.pattern, p.action, p.order, ()) :=
    .always stringDecoder_inverts _ <|
    .always actionDecoder_inverts _ <|
    .ofOption orderDecoder_inverts (fun _ => Value.reading_number_ne_null _) _ .nil
  have hfields := hwritten.decode_reading (by decide) "MergePolicy" .lenient
  rw [List.append_nil] at hfields
  rw [decoder, toJson, List.cons_append, List.singleton_append]
  simp [hfields, Except.map]

end Policy

end Merge

theorem Relocation.Rule.decoder_inverts : Rule.decoder.Inverts Rule.toJson := by
  intro r
  have hwritten : fields.Written _ (r.source, r.target, ()) :=
    .always stringDecoder_inverts _ <|
    .always stringDecoder_inverts _ .nil
  have hfields := hwritten.decode_reading (by decide) "RelocationRule" .lenient
  rw [decoder, toJson]
  simp [hfields, Except.map]

namespace ManifestSettings

theorem attributes_inverts :
    Decoder.Inverts (fun r => (stringDecoder.pairs r).map Attributes.ofList)
      fun a : Attributes => .object (a.pairs.map fun p => (p.1, .string p.2)) := by
  intro a
  simp [stringDecoder_inverts.pairs a.pairs, Except.map, Attributes.ofList_pairs]

theorem decoder_inverts : decoder.Inverts toJson := by
  intro s
  have hwritten : fields.Written _ (s.title, s.version, s.passThrough, s.attributes, ()) :=
    .always optionalString_inverts _ <|
    .always optionalString_inverts _ <|
    .always stringDecoder_inverts.list _ <|
    .always attributes_inverts _ .nil
  have hfields := hwritten.decode_reading (by decide) "ManifestSettings" .strict
  rw [decoder, toJson]
  simp [hfields, Except.map]

end ManifestSettings

namespace Config

theorem decoder_inverts : decoder.Inverts toJson := by
  intro c
  have hwritten : fields.Written _ (c.inputs, c.output, c.entryPoint, c.policies, c.rules,
      c.manifest, c.workers, c.channelCapacity, ()) :=
    .always Input.decoder_inverts.list _ <|
    .always pathDecoder_inverts _ <|
    .always stringDecoder_inverts _ <|
    .always Merge.Policy.decoder_inverts.list _ <|
    .always Relocation.Rule.decoder_inverts.list _ <|
    .always ManifestSettings.decoder_inverts _ <|
    .always (wordDecoder_inverts.optional fun _ => Value.reading_number_ne_null _) _ <|
    .always wordDecoder_inverts _ .nil
  have hfields := hwritten.decode_reading (by decide) "AssemblyConfig" .strict
  rw [decoder, toJson]
  simp [hfields, Except.map]

/-- A configuration comes back equal from its JSON form, with the attributes in their order. -/
theorem ofText_render (c : Config) : ofText c.render = .ok c :=
  Json.decode_render decoder_inverts c

end Config

end FatJar
