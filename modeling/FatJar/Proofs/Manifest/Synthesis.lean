import FatJar.Config.Basic
import FatJar.Manifest.Synthesis
import FatJar.Proofs.Manifest.HeaderLines
import FatJar.Proofs.Relocation.Kinds

namespace FatJar

variable {name value : String}

section Accepted

theorem Manifest.isValue_of_fault? {field : String} (h : valueFault? field value = none) :
    isValue value = true := by
  unfold valueFault? at h
  split at h
  · assumption
  · cases h

theorem Manifest.isName_of_fault? (h : nameFault? name = none) : isName name = true := by
  unfold nameFault? at h
  split at h
  · assumption
  · cases h

structure ManifestSettings.Sound (s : ManifestSettings) : Prop where
  title : ∀ title ∈ s.title, Manifest.isValue title = true
  version : ∀ version ∈ s.version, Manifest.isValue version = true
  passThrough : ∀ name ∈ s.passThrough, Manifest.isName name = true
  attributes : ∀ p ∈ s.attributes.pairs, Manifest.isName p.1 = true ∧ Manifest.isValue p.2 = true

theorem ManifestSettings.sound_of_fault? {s : ManifestSettings} (h : s.fault? = none) : s.Sound := by
  simp only [fault?, Option.orElse_eq_orElse, Option.orElse_eq_or, Option.or_eq_none_iff,
    List.findSome?_eq_none_iff, Option.bind_eq_none_iff] at h
  obtain ⟨htitle, hversion, hpass, hattributes⟩ := h
  refine ⟨fun title ht => ?_, fun version hv => ?_, fun name hn => ?_, fun p hp => ?_⟩
  · exact Manifest.isValue_of_fault? (htitle title ht)
  · exact Manifest.isValue_of_fault? (hversion version hv)
  · exact Manifest.isName_of_fault? (hpass name hn)
  · exact ⟨Manifest.isName_of_fault? (hattributes p hp).1, Manifest.isValue_of_fault? (hattributes p hp).2⟩

theorem Config.sound_of_fault? {c : Config} (h : c.fault? = none) :
    Manifest.isValue c.entryPoint = true ∧ c.manifest.Sound := by
  unfold fault? at h
  split at h
  · cases h
  split at h
  · cases h
  split at h
  · cases h
  · next hmanifest =>
    obtain ⟨hentry, hsettings⟩ := Option.or_eq_none_iff.mp hmanifest
    exact ⟨Manifest.isValue_of_fault? hentry, ManifestSettings.sound_of_fault? hsettings⟩

end Accepted

namespace Manifest

/-- An attribute whose value an input has under this name, in any case. -/
def Inherited (inputs : List Bytes) (p : String × String) : Prop :=
  ∃ input ∈ inputs, ∃ q ∈ (parse input).pairs, Ascii.eqIgnoreCase q.1 p.1 = true ∧ q.2 = p.2

variable {settings : ManifestSettings} {entryPoint : String} {inputs : List Bytes} {p : String × String}

theorem inherited_of_inherited? (h : inherited? name (inputs.map parse) = some value) :
    Inherited inputs (name, value) := by
  obtain ⟨a, ha, hfound⟩ := List.exists_of_findSome?_eq_some h
  obtain ⟨input, hinput, rfl⟩ := List.mem_map.mp ha
  obtain ⟨q, hq, rfl⟩ := Option.map_eq_some_iff.mp hfound
  have hname := List.find?_some hq
  exact ⟨input, hinput, q, List.mem_of_find?_eq_some hq, hname, rfl⟩

theorem of_mem_synthesize (hentry : isValue entryPoint = true) (hs : settings.Sound)
    (hp : p ∈ (synthesize settings entryPoint inputs).attributes.pairs) :
    isName p.1 = true ∧ (isValue p.2 = true ∨ p.1 ∈ settings.passThrough ∧ Inherited inputs p) := by
  have hp := Attributes.mem_of_mem_ofList hp
  simp only [List.mem_append, settled, passedThrough, configured] at hp
  obtain ((((hp | hp) | hp) | hp) | hp) := hp
  · simp only [List.mem_cons, List.not_mem_nil, or_false] at hp
    obtain rfl | rfl | rfl := hp
    · exact ⟨by decide, .inl (by decide)⟩
    · exact ⟨by decide, .inl (by decide)⟩
    · exact ⟨(by decide : isName "Main-Class" = true), .inl hentry⟩
  · obtain ⟨title, htitle, rfl⟩ := Option.map_eq_some_iff.mp (Option.mem_toList.mp hp)
    exact ⟨(by decide : isName "Implementation-Title" = true), .inl (hs.title title htitle)⟩
  · obtain ⟨version, hversion, rfl⟩ := Option.map_eq_some_iff.mp (Option.mem_toList.mp hp)
    exact ⟨(by decide : isName "Implementation-Version" = true), .inl (hs.version version hversion)⟩
  · obtain ⟨name, hname, hpassed⟩ := List.mem_filterMap.mp hp
    split at hpassed
    · cases hpassed
    · obtain ⟨value, hvalue, rfl⟩ := Option.map_eq_some_iff.mp hpassed
      exact ⟨hs.passThrough name hname, .inr ⟨hname, inherited_of_inherited? hvalue⟩⟩
  · exact (hs.attributes p (List.mem_filter.mp hp).1).imp id .inl

theorem notMem_of_inherited (h : Inherited inputs p) : '\n' ∉ p.2.toList := by
  obtain ⟨input, -, q, hq, -, hvalue⟩ := h
  have hlines := valuesOf_parse (p := (· ≠ '\n')) input
    fun line hline c hc => (mem_of_mem_physicalLine hline hc).2
  exact fun hmem => hlines q hq '\n' (hvalue ▸ hmem) rfl

/-- An input in which nothing but a line feed, with or without a carriage return, ends a line. -/
structure Tame (input : Bytes) : Prop where
  returns : ReturnsEndLines (Utf8.decodeLossy input)
  noNul : '\x00' ∉ Utf8.decodeLossy input

theorem isValue_of_inherited (hinputs : ∀ input ∈ inputs, Tame input) (h : Inherited inputs p) :
    isValue p.2 = true := by
  obtain ⟨input, hinput, q, hq, -, hvalue⟩ := h
  obtain ⟨hreturns, hnul⟩ := hinputs input hinput
  have hlines := valuesOf_parse (p := fun c => c ≠ '\r' ∧ c ≠ '\n' ∧ c ≠ '\x00') input
    fun line hline c hc => by
      obtain ⟨hin, hfeed⟩ := mem_of_mem_physicalLine hline hc
      refine ⟨?_, hfeed, ?_⟩
      · rintro rfl
        exact hreturns.notMem hline hc
      · rintro rfl
        exact hnul hin
  rw [isValue_iff, ← hvalue]
  exact ⟨fun hc => (hlines q hq _ hc).1 rfl, fun hc => (hlines q hq _ hc).2.1 rfl,
    fun hc => (hlines q hq _ hc).2.2 rfl⟩

section Relocated

variable {rs : Relocation.RuleSet} {c : Char}

theorem mem_of_mem_replaceInText (hc : c ∈ (rs.replaceInText value).toList) (hascii : c.toNat < 0x80)
    (hname : Relocation.isNameByte (UInt8.ofNat c.toNat) = false)
    (hsep : ¬ Relocation.IsSeparator (UInt8.ofNat c.toNat)) : c ∈ value.toList := by
  unfold Relocation.RuleSet.replaceInText at hc
  split at hc
  · exact hc
  · next bs hreplace =>
    rw [textOf, String.toList_ofList] at hc
    have hbyte := Relocation.mem_of_mem_replace hreplace (Utf8.byte_of_mem_decodeLossy hc hascii) hname hsep
    obtain ⟨d, hd, hmem⟩ := List.mem_flatMap.mp hbyte
    have hback : (UInt8.ofNat c.toNat).toNat = c.toNat := Utf8.toNat_ofNat_lt (by omega)
    have hsame := (Utf8.eq_of_mem_encodeChar hmem (by rw [hback]; exact hascii)).1
    rw [hback, Char.ofNat_toNat] at hsame
    exact hsame ▸ hd

theorem isValue_replaceInText (h : isValue value = true) : isValue (rs.replaceInText value) = true := by
  obtain ⟨hreturn, hfeed, hnul⟩ := isValue_iff.mp h
  refine isValue_iff.mpr ⟨fun hc => hreturn ?_, fun hc => hfeed ?_, fun hc => hnul ?_⟩
  · exact mem_of_mem_replaceInText hc (by decide) (by decide) (by decide)
  · exact mem_of_mem_replaceInText hc (by decide) (by decide) (by decide)
  · exact mem_of_mem_replaceInText hc (by decide) (by decide) (by decide)

theorem notMem_replaceInText (h : '\n' ∉ value.toList) : '\n' ∉ (rs.replaceInText value).toList :=
  fun hc => h (mem_of_mem_replaceInText hc (by decide) (by decide) (by decide))

end Relocated

/-- Each attribute of an output manifest has one header line, as far as values that are taken over from
an input let it. -/
structure Lined (c : Config) (inputs : List Bytes) (m : OutputManifest) : Prop where
  names : ∀ p ∈ m.attributes.pairs, isName p.1 = true
  noFeed : ∀ p ∈ m.attributes.pairs, '\n' ∉ p.2.toList
  passed : ∀ p ∈ m.attributes.pairs, isValue p.2 = false → p.1 ∈ c.manifest.passThrough ∧
    ∃ value, isValue value = false ∧ Inherited inputs (p.1, value)
  values : (∀ input ∈ inputs, Tame input) → ∀ p ∈ m.attributes.pairs, isValue p.2 = true
  headerLines : (∀ input ∈ inputs, Tame input) →
    List.Forall₂ (fun p line => line <+: logicalLine p.1 p.2) m.attributes.pairs
      (headerLines (Utf8.decodeLossy (render m.attributes)))

theorem lined_of_mapped {c : Config} (hc : c.fault? = none) {m : OutputManifest} {f : String → String}
    (hvalue : ∀ value, isValue value = true → isValue (f value) = true)
    (hfeed : ∀ value, '\n' ∉ value.toList → '\n' ∉ (f value).toList)
    (hm : m.attributes = (synthesize c.manifest c.entryPoint inputs).attributes.mapValues f) :
    Lined c inputs m := by
  obtain ⟨hentry, hsettings⟩ := Config.sound_of_fault? hc
  have hpairs : ∀ p ∈ m.attributes.pairs, ∃ value, p.2 = f value ∧
      (isName p.1 = true ∧ (isValue value = true ∨
        p.1 ∈ c.manifest.passThrough ∧ Inherited inputs (p.1, value))) := by
    intro p hp
    rw [hm] at hp
    obtain ⟨q, hq, rfl⟩ := List.mem_map.mp hp
    exact ⟨q.2, rfl, of_mem_synthesize hentry hsettings hq⟩
  have hnames : ∀ p ∈ m.attributes.pairs, isName p.1 = true := by
    intro p hp
    obtain ⟨-, -, hname, -⟩ := hpairs p hp
    exact hname
  have hvalues : (∀ input ∈ inputs, Tame input) → ∀ p ∈ m.attributes.pairs, isValue p.2 = true := by
    intro hinputs p hp
    obtain ⟨value, hp, -, hsound | ⟨-, hinherited⟩⟩ := hpairs p hp
    · rw [hp]
      exact hvalue value hsound
    · rw [hp]
      exact hvalue value (isValue_of_inherited hinputs hinherited)
  refine ⟨hnames, fun p hp => ?_, fun p hp hbad => ?_, hvalues, fun hinputs => ?_⟩
  · obtain ⟨value, hp, -, hsound | ⟨-, hinherited⟩⟩ := hpairs p hp
    · rw [hp]
      exact hfeed value (isValue_iff.mp hsound).2.1
    · rw [hp]
      exact hfeed value (notMem_of_inherited hinherited)
  · obtain ⟨value, hp, -, hsound | ⟨hpass, hinherited⟩⟩ := hpairs p hp
    · rw [hp, hvalue value hsound] at hbad
      cases hbad
    · refine ⟨hpass, value, Bool.eq_false_iff.mpr fun hsound => ?_, hinherited⟩
      rw [hp, hvalue value hsound] at hbad
      cases hbad
  · exact headerLines_render hnames (hvalues hinputs)

/-- Of an accepted configuration and accepted rules, the manifest of the output is lined before it is
relocated and after. -/
theorem synthesize_lined {c : Config} (hc : c.fault? = none) (inputs : List Bytes)
    (rs : Relocation.RuleSet) :
    Lined c inputs (synthesize c.manifest c.entryPoint inputs) ∧
      Lined c inputs ((synthesize c.manifest c.entryPoint inputs).relocate rs) := by
  constructor
  · refine lined_of_mapped hc (f := id) (fun _ h => h) (fun _ h => h) (Attributes.eq_of_pairs ?_)
    exact (List.map_id _).symm
  · exact lined_of_mapped hc (f := rs.replaceInText) (fun _ => isValue_replaceInText)
      (fun _ => notMem_replaceInText) rfl

def passing : Config where
  inputs := [⟨{ name := "lib" }, "lib.jar"⟩]
  output := "app.jar"
  entryPoint := "m.Main"
  manifest := { passThrough := ["X"] }

theorem passing_lined :
    ((synthesize passing.manifest "m.Main" [utf8 "x: lib.\r\n Util\r\n"]).relocate
        Relocation.shading).attributes.pairs =
      [("Manifest-Version", "1.0"), ("Created-By", createdBy), ("Main-Class", "m.Main"),
        ("X", "shaded.Util")] ∧
    Lined passing [utf8 "x: lib.\r\n Util\r\n"]
      ((synthesize passing.manifest "m.Main" [utf8 "x: lib.\r\n Util\r\n"]).relocate
        Relocation.shading) ∧
    Tame (utf8 "x: lib.\r\n Util\r\n") := by
  have hc : passing.fault? = none := by decide +kernel
  have htame : Tame (utf8 "x: lib.\r\n Util\r\n") := by
    constructor
    · unfold ReturnsEndLines
      decide +kernel
    · decide +kernel
  exact ⟨by decide +kernel, (synthesize_lined hc _ Relocation.shading).2, htame⟩

/-- A carriage return alone ends no line of an input, but it stands in the value that passes through. -/
theorem injected_header_line :
    passing.fault? = none ∧ isValue "a\rEvil: b" = false ∧
      (synthesize passing.manifest "m.Main" [utf8 "X: a\rEvil: b\n"]).attributes.pairs =
        [("Manifest-Version", "1.0"), ("Created-By", createdBy), ("Main-Class", "m.Main"),
          ("X", "a\rEvil: b")] ∧
      (headerLines (Utf8.decodeLossy (render
        (synthesize passing.manifest "m.Main" [utf8 "X: a\rEvil: b\n"]).attributes))).map String.ofList =
        ["Manifest-Version: 1.0", "Created-By: shadejar 0.1.0", "Main-Class: m.Main", "X: a",
          "Evil: b"] := by
  decide +kernel

end Manifest

end FatJar
