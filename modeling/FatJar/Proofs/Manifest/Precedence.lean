import FatJar.Manifest.Synthesis
import FatJar.Proofs.Manifest.Attributes

namespace FatJar.Manifest

variable {s : ManifestSettings} {inputs : List Bytes} {entryPoint name value : String}

def Provided (inputs : List Bytes) (name : String) : Prop :=
  ∃ input ∈ inputs, ∃ q ∈ (parse input).pairs, Ascii.eqIgnoreCase q.1 name = true

instance (inputs : List Bytes) (name : String) : Decidable (Provided inputs name) :=
  inferInstanceAs
    (Decidable (∃ input ∈ inputs, ∃ q ∈ (parse input).pairs, Ascii.eqIgnoreCase q.1 name = true))

/-- Of the first input with an attribute of this name, in any case, the first such attribute has this value. -/
def FirstProvided (inputs : List Bytes) (name value : String) : Prop :=
  ∃ before input after, inputs = before ++ input :: after ∧ ¬ Provided before name ∧
    ∃ ps q qs, (parse input).pairs = ps ++ q :: qs ∧
      (∀ p ∈ ps, Ascii.eqIgnoreCase p.1 name = false) ∧ Ascii.eqIgnoreCase q.1 name = true ∧ q.2 = value

/-- The settings have this attribute in a field of its own. -/
inductive Own (s : ManifestSettings) : String → String → Prop
  | title {title : String} (h : s.title = some title) : Own s "Implementation-Title" title
  | version {version : String} (h : s.version = some version) : Own s "Implementation-Version" version

/-- The source of the value of an attribute that is not reserved. -/
inductive Sourced (s : ManifestSettings) (inputs : List Bytes) (name value : String) : Prop
  | configured (h : (name, value) ∈ s.attributes.pairs)
  | passed (hfree : name ∉ s.attributes.names) (hnamed : name ∈ s.passThrough)
      (h : FirstProvided inputs name value)
  | own (hfree : name ∉ s.attributes.names) (hlacking : name ∈ s.passThrough → ¬ Provided inputs name)
      (h : Own s name value)

def mentioned (s : ManifestSettings) (inputs : List Bytes) : List String :=
  (s.title.map fun _ => "Implementation-Title").toList
    ++ (s.version.map fun _ => "Implementation-Version").toList
    ++ s.passThrough.filter (fun name => !isReserved name && Provided inputs name)
    ++ s.attributes.names.filter (!isReserved ·)

/-- What the settings bring in is named and valued so. -/
structure Settles (s : ManifestSettings) (inputs : List Bytes) (ps : List (String × String)) : Prop where
  unreserved : ∀ p ∈ ps, ∀ r ∈ reserved, Ascii.eqIgnoreCase r p.1 = false
  names : ps.map Prod.fst = (mentioned s inputs).eraseDups
  values : ∀ name value, (name, value) ∈ ps ↔ isReserved name = false ∧ Sourced s inputs name value

section Inputs

theorem inherited?_eq_none_iff : inherited? name (inputs.map parse) = none ↔ ¬ Provided inputs name := by
  rw [inherited?, List.findSome?_map, List.findSome?_eq_none_iff]
  simp [Provided]

theorem find?_eqIgnoreCase_eq_some_iff {ps : List (String × String)} :
    (ps.find? fun p => Ascii.eqIgnoreCase p.1 name).map Prod.snd = some value ↔
      ∃ before q after, ps = before ++ q :: after ∧
        (∀ p ∈ before, Ascii.eqIgnoreCase p.1 name = false) ∧
        Ascii.eqIgnoreCase q.1 name = true ∧ q.2 = value := by
  simp only [Option.map_eq_some_iff, List.find?_eq_some_iff_append, Bool.not_eq_true']
  constructor
  · rintro ⟨q, ⟨hname, before, after, hps, hbefore⟩, hvalue⟩
    exact ⟨before, q, after, hps, hbefore, hname, hvalue⟩
  · rintro ⟨before, q, after, hps, hbefore, hname, hvalue⟩
    exact ⟨q, ⟨hname, before, after, hps, hbefore⟩, hvalue⟩

theorem inherited?_eq_some_iff :
    inherited? name (inputs.map parse) = some value ↔ FirstProvided inputs name value := by
  have hbefore (before : List Bytes) : (∀ input ∈ before,
      ((parse input).pairs.find? fun p => Ascii.eqIgnoreCase p.1 name).map Prod.snd = none) ↔
        ¬ Provided before name := by
    rw [← inherited?_eq_none_iff, inherited?, List.findSome?_map, List.findSome?_eq_none_iff]
    rfl
  rw [inherited?, List.findSome?_map, List.findSome?_eq_some_iff]
  simp only [Function.comp_apply, hbefore, find?_eqIgnoreCase_eq_some_iff, FirstProvided]
  constructor
  · rintro ⟨before, input, after, hinputs, hfound, hnone⟩
    exact ⟨before, input, after, hinputs, hnone, hfound⟩
  · rintro ⟨before, input, after, hinputs, hnone, hfound⟩
    exact ⟨before, input, after, hinputs, hfound, hnone⟩

end Inputs

section Sources

def fixed (entryPoint : String) : List (String × String) :=
  [("Manifest-Version", "1.0"), ("Created-By", createdBy), ("Main-Class", entryPoint)]

def owned (s : ManifestSettings) : List (String × String) :=
  (s.title.map (("Implementation-Title", ·))).toList
    ++ (s.version.map (("Implementation-Version", ·))).toList

/-- All that the settings bring in, the later sources behind the earlier ones. -/
def brought (s : ManifestSettings) (inputs : List Bytes) : List (String × String) :=
  owned s ++ passedThrough s.passThrough (inputs.map parse) ++ configured s.attributes

def passable? (inputs : List Bytes) (name : String) : Option String :=
  if isReserved name then none else inherited? name (inputs.map parse)

theorem passedThrough_eq (names : List String) (inputs : List Bytes) :
    passedThrough names (inputs.map parse) =
      names.filterMap fun name => (passable? inputs name).map ((name, ·)) := by
  refine congrArg (names.filterMap ·) (funext fun name => ?_)
  unfold passable?
  split <;> rfl

theorem mem_owned_iff : (name, value) ∈ owned s ↔ Own s name value := by
  simp only [owned, List.mem_append, Option.mem_toList, Option.map_eq_some_iff, Prod.mk.injEq]
  constructor
  · rintro (⟨title, h, rfl, rfl⟩ | ⟨version, h, rfl, rfl⟩)
    · exact .title h
    · exact .version h
  · rintro (h | h)
    · exact .inl ⟨_, h, rfl, rfl⟩
    · exact .inr ⟨_, h, rfl, rfl⟩

theorem nodup_owned (s : ManifestSettings) : ((owned s).map Prod.fst).Nodup := by
  unfold owned
  cases s.title <;> cases s.version <;> simp

theorem isReserved_of_own (h : Own s name value) : isReserved name = false := by
  cases h with
  | title h => decide
  | version h => decide

theorem isReserved_of_passable? (h : (passable? inputs name).isSome = true) : isReserved name = false := by
  unfold passable? at h
  split at h
  · cases h
  · next hfree => exact Bool.eq_false_iff.mpr hfree

theorem passable?_of_free (h : isReserved name = false) (inputs : List Bytes) :
    passable? inputs name = inherited? name (inputs.map parse) := by
  rw [passable?, h, if_neg Bool.false_ne_true]

theorem isReserved_of_mem_brought {p : String × String} (hp : p ∈ brought s inputs) :
    isReserved p.1 = false := by
  rw [brought, passedThrough_eq, List.mem_append, List.mem_append] at hp
  obtain (hp | hp) | hp := hp
  · exact isReserved_of_own (mem_owned_iff.mp hp)
  · have hname := List.mem_map_of_mem (f := Prod.fst) hp
    rw [fst_filterMap, List.mem_filter] at hname
    exact isReserved_of_passable? hname.2
  · have hfree := (List.mem_filter.mp hp).2
    simpa using hfree

theorem eqIgnoreCase_of_free (h : isReserved name = false) :
    ∀ r ∈ reserved, Ascii.eqIgnoreCase r name = false := by
  intro r hr
  exact Bool.eq_false_iff.mpr (List.any_eq_false.mp h r hr)

/-- The attributes that the settings bring in go behind the fixed ones and leave them as they are. -/
theorem pairs_synthesize (s : ManifestSettings) (entryPoint : String) (inputs : List Bytes) :
    (synthesize s entryPoint inputs).attributes.pairs =
      fixed entryPoint ++ (Attributes.ofList (brought s inputs)).pairs := by
  have hputAll : (synthesize s entryPoint inputs).attributes =
      (Attributes.ofList (fixed entryPoint)).putAll (brought s inputs) := by
    simp only [synthesize, settled, brought, owned, fixed, Attributes.ofList, Attributes.putAll,
      List.foldl_append]
  rw [hputAll]
  refine Attributes.pairs_putAll_append (b := .empty) ?_ fun p hp hfixed => ?_
  · rfl
  · have hfree := eqIgnoreCase_of_free (isReserved_of_mem_brought hp) p.1 hfixed
    simp [Ascii.eqIgnoreCase] at hfree

theorem names_brought (s : ManifestSettings) (inputs : List Bytes) :
    (brought s inputs).map Prod.fst = mentioned s inputs := by
  have hpassed : (passedThrough s.passThrough (inputs.map parse)).map Prod.fst =
      s.passThrough.filter fun name => !isReserved name && Provided inputs name := by
    rw [passedThrough_eq, fst_filterMap]
    refine List.filter_congr fun name _ => ?_
    cases hfree : isReserved name with
    | true => rw [passable?, if_pos hfree]; rfl
    | false =>
      have hprovided : inherited? name (inputs.map parse) = none ↔ ¬ Provided inputs name :=
        inherited?_eq_none_iff
      rw [passable?_of_free hfree]
      cases hfound : inherited? name (inputs.map parse) with
      | none => simpa using hprovided.mp hfound
      | some value => simpa [hfound] using hprovided
  have hconfigured : (configured s.attributes).map Prod.fst = s.attributes.names.filter (!isReserved ·) := by
    rw [Attributes.names, List.filter_map]
    rfl
  have howned : (owned s).map Prod.fst = (s.title.map fun _ => "Implementation-Title").toList
      ++ (s.version.map fun _ => "Implementation-Version").toList := by
    unfold owned
    cases s.title <;> cases s.version <;> rfl
  rw [brought, List.map_append, List.map_append, howned, hpassed, hconfigured, mentioned]

theorem lookup_reverse_eq_some_iff {ps : List (String × String)} (h : (ps.map Prod.fst).Nodup) :
    ps.reverse.lookup name = some value ↔ (name, value) ∈ ps := by
  rw [lookup_eq_some_iff_mem (by rwa [List.map_reverse, List.nodup_reverse]), List.mem_reverse]

theorem lookup_configured (hfree : isReserved name = false) (value : String) :
    (configured s.attributes).reverse.lookup name = some value ↔ (name, value) ∈ s.attributes.pairs := by
  have hnodup : ((configured s.attributes).map Prod.fst).Nodup :=
    s.attributes.nodup.sublist (List.filter_sublist.map _)
  rw [lookup_reverse_eq_some_iff hnodup, configured, List.mem_filter]
  simp [hfree]

theorem lookup_configured_eq_none (hfree : isReserved name = false) :
    (configured s.attributes).reverse.lookup name = none ↔ name ∉ s.attributes.names := by
  rw [Option.eq_none_iff_forall_ne_some]
  simp only [ne_eq, lookup_configured hfree, Attributes.names, List.mem_map, Prod.exists,
    exists_and_right, exists_eq_right, not_exists]

theorem lookup_passedThrough (hfree : isReserved name = false) :
    (passedThrough s.passThrough (inputs.map parse)).reverse.lookup name =
      if name ∈ s.passThrough then inherited? name (inputs.map parse) else none := by
  rw [passedThrough_eq, ← List.filterMap_reverse, lookup_filterMap, passable?_of_free hfree]
  simp only [List.mem_reverse]

theorem sourced_iff : Sourced s inputs name value ↔ (name, value) ∈ s.attributes.pairs ∨
    name ∉ s.attributes.names ∧ (name ∈ s.passThrough ∧ FirstProvided inputs name value ∨
      (name ∈ s.passThrough → ¬ Provided inputs name) ∧ Own s name value) := by
  constructor
  · intro h
    cases h with
    | configured h => exact .inl h
    | passed hfree hnamed h => exact .inr ⟨hfree, .inl ⟨hnamed, h⟩⟩
    | own hfree hlacking h => exact .inr ⟨hfree, .inr ⟨hlacking, h⟩⟩
  · rintro (h | ⟨hfree, ⟨hnamed, h⟩ | ⟨hlacking, h⟩⟩)
    · exact .configured h
    · exact .passed hfree hnamed h
    · exact .own hfree hlacking h

theorem lookup_brought (hfree : isReserved name = false) :
    (brought s inputs).reverse.lookup name = some value ↔ Sourced s inputs name value := by
  have howned : (owned s).reverse.lookup name = some value ↔ Own s name value := by
    rw [lookup_reverse_eq_some_iff (nodup_owned s), mem_owned_iff]
  rw [brought, List.reverse_append, List.reverse_append, List.lookup_append, List.lookup_append,
    lookup_passedThrough hfree, sourced_iff, Option.or_eq_some_iff, Option.or_eq_some_iff,
    lookup_configured hfree, lookup_configured_eq_none hfree, Option.ite_none_right_eq_some,
    ite_eq_right_iff, inherited?_eq_some_iff, inherited?_eq_none_iff, howned]

end Sources

theorem settles_brought (s : ManifestSettings) (inputs : List Bytes) :
    Settles s inputs (Attributes.ofList (brought s inputs)).pairs where
  unreserved p hp := eqIgnoreCase_of_free (isReserved_of_mem_brought (Attributes.mem_of_mem_ofList hp))
  names := (Attributes.names_putAll .empty _).trans (by rw [names_brought]; rfl)
  values name value := by
    have hget : (name, value) ∈ (Attributes.ofList (brought s inputs)).pairs ↔
        (brought s inputs).reverse.lookup name = some value := by
      rw [← lookup_eq_some_iff_mem (Attributes.nodup _)]
      exact Eq.congr_left ((Attributes.get?_putAll .empty _ name).trans (Option.or_none))
    constructor
    · intro hmem
      have hfree := isReserved_of_mem_brought (Attributes.mem_of_mem_ofList hmem)
      exact ⟨hfree, (lookup_brought hfree).mp (hget.mp hmem)⟩
    · rintro ⟨hfree, h⟩
      exact hget.mpr ((lookup_brought hfree).mpr h)

theorem names_relocate (rs : Relocation.RuleSet) (m : OutputManifest) :
    (m.relocate rs).attributes.names = m.attributes.names :=
  Attributes.names_mapValues _ _

/-- An output manifest begins with the three attributes that are its own, and the settings settle the rest.
Relocation changes no name, and the main class stays the entry point. -/
theorem synthesize_settles (s : ManifestSettings) (entryPoint : String) (inputs : List Bytes)
    (rs : Relocation.RuleSet) :
    ∃ rest, (synthesize s entryPoint inputs).attributes.pairs =
        [("Manifest-Version", "1.0"), ("Created-By", createdBy), ("Main-Class", entryPoint)] ++ rest ∧
      Settles s inputs rest ∧
      ((synthesize s entryPoint inputs).relocate rs).attributes.names =
        (synthesize s entryPoint inputs).attributes.names ∧
      ((synthesize s entryPoint inputs).relocate rs).attributes.get? "Main-Class" =
        some ((synthesize s entryPoint inputs).relocate rs).entryPoint := by
  have hpairs := pairs_synthesize s entryPoint inputs
  refine ⟨_, hpairs, settles_brought s inputs, names_relocate rs _, ?_⟩
  rw [OutputManifest.relocate, Attributes.get?, Attributes.mapValues]
  dsimp only
  rw [hpairs]
  rfl

example :
    (synthesize
      { title := some "demo", passThrough := ["Class-Path", "main-class"],
        attributes := .ofList [("Add-Opens", "all"), ("Implementation-Title", "shown")] }
      "m.Main" [utf8 "Main-Class: other.Main\n", utf8 "class-path: lib.jar\n"]).attributes.pairs =
      [("Manifest-Version", "1.0"), ("Created-By", createdBy), ("Main-Class", "m.Main"),
        ("Implementation-Title", "shown"), ("Class-Path", "lib.jar"), ("Add-Opens", "all")] := by
  decide +kernel

end FatJar.Manifest
