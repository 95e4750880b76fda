import FatJar.Proofs.Manifest.Precedence
import FatJar.Proofs.Manifest.Synthesis
import Mathlib.Data.List.Nodup

namespace FatJar

/-- No two names are equal but for case. -/
def Attributes.Distinct (a : Attributes) : Prop :=
  a.names.Pairwise fun n m => Ascii.eqIgnoreCase n m = false

instance (a : Attributes) : Decidable a.Distinct :=
  inferInstanceAs (Decidable (a.names.Pairwise fun n m => Ascii.eqIgnoreCase n m = false))

/-- Names that are equal but for case are equal. -/
def SpelledAlike (names : List String) : Prop :=
  ∀ n ∈ names, ∀ m ∈ names, Ascii.eqIgnoreCase n m = true → n = m

instance (names : List String) : Decidable (SpelledAlike names) :=
  inferInstanceAs (Decidable (∀ n ∈ names, ∀ m ∈ names, Ascii.eqIgnoreCase n m = true → n = m))

def ManifestSettings.nameable (s : ManifestSettings) : List String :=
  (s.title.map fun _ => "Implementation-Title").toList
    ++ (s.version.map fun _ => "Implementation-Version").toList
    ++ s.passThrough.filter (!Manifest.isReserved ·)
    ++ s.attributes.names.filter (!Manifest.isReserved ·)

theorem Ascii.eqIgnoreCase_iff {s t : String} : eqIgnoreCase s t = true ↔ lower s = lower t :=
  beq_iff_eq

theorem SpelledAlike.mono {ns ms : List String} (h : SpelledAlike ms) (hsub : ns ⊆ ms) :
    SpelledAlike ns :=
  fun n hn m hm => h n (hsub hn) m (hsub hm)

theorem Attributes.distinct_iff {a : Attributes} : a.Distinct ↔ SpelledAlike a.names := by
  have hnodup : a.Distinct ↔ (a.names.map Ascii.lower).Nodup := by
    rw [Distinct, List.Nodup, List.pairwise_map]
    simp only [← Bool.not_eq_true, Ascii.eqIgnoreCase_iff, ne_eq]
  have hnames : a.names.Nodup := a.nodup
  rw [hnodup, List.nodup_map_iff_inj_on hnames]
  simp only [SpelledAlike, Ascii.eqIgnoreCase_iff]

namespace Manifest

variable {s : ManifestSettings} {inputs : List Bytes} {entryPoint name : String}

theorem names_synthesize (s : ManifestSettings) (entryPoint : String) (inputs : List Bytes) :
    (synthesize s entryPoint inputs).attributes.names = reserved ++ (mentioned s inputs).eraseDups := by
  rw [Attributes.names, pairs_synthesize, List.map_append, (settles_brought s inputs).names]
  rfl

theorem isReserved_of_mem_mentioned (h : name ∈ mentioned s inputs) : isReserved name = false := by
  rw [← names_brought] at h
  obtain ⟨p, hp, rfl⟩ := List.mem_map.mp h
  exact isReserved_of_mem_brought hp

theorem spelledAlike_reserved : SpelledAlike reserved := by
  decide

theorem distinct_synthesize_iff (s : ManifestSettings) (entryPoint : String) (inputs : List Bytes) :
    (synthesize s entryPoint inputs).attributes.Distinct ↔ SpelledAlike (mentioned s inputs) := by
  rw [Attributes.distinct_iff, names_synthesize]
  constructor
  · intro h
    refine h.mono fun n hn => List.mem_append_right _ (List.mem_eraseDups.mpr hn)
  · intro h n hn m hm heq
    obtain hn | hn := List.mem_append.mp hn <;> obtain hm | hm := List.mem_append.mp hm
    · exact spelledAlike_reserved n hn m hm heq
    · have hfree := isReserved_of_mem_mentioned (List.mem_eraseDups.mp hm)
      rw [eqIgnoreCase_of_free hfree n hn] at heq
      cases heq
    · have hfree := isReserved_of_mem_mentioned (List.mem_eraseDups.mp hn)
      rw [Ascii.eqIgnoreCase_iff, eq_comm, ← Ascii.eqIgnoreCase_iff, eqIgnoreCase_of_free hfree m hm] at heq
      cases heq
    · exact h n (List.mem_eraseDups.mp hn) m (List.mem_eraseDups.mp hm) heq

theorem mentioned_subset_nameable (s : ManifestSettings) (inputs : List Bytes) :
    mentioned s inputs ⊆ s.nameable := by
  intro name hname
  have hpassed : name ∈ s.passThrough.filter (fun name => !isReserved name && Provided inputs name) →
      name ∈ s.passThrough.filter (!isReserved ·) := by
    intro h
    obtain ⟨hmem, hfree⟩ := List.mem_filter.mp h
    exact List.mem_filter.mpr ⟨hmem, (Bool.and_eq_true_iff.mp hfree).1⟩
  rw [mentioned, List.mem_append, List.mem_append] at hname
  rw [ManifestSettings.nameable, List.mem_append, List.mem_append]
  exact hname.imp (Or.imp id hpassed) id

def headerOf (name : String) : Bytes :=
  utf8 (name ++ ":")

theorem parse_headerOf (h : isName name = true) : (parse (headerOf name)).pairs = [(name, "")] := by
  obtain ⟨hne, hchars⟩ := isName_iff.mp h
  have hfeed : '\n' ∉ name.toList ++ [':'] := by
    intro hmem
    obtain hmem | hmem := List.mem_append.mp hmem
    · exact (plain_of_isNameChar (hchars _ hmem)).2.2.2 rfl
    · cases List.mem_singleton.mp hmem
  have hlines : physicalLines (name.toList ++ [':']) = [name.toList ++ [':']] := by
    rw [physicalLines, List.splitOn_eq_singleton hfeed]
    simp [dropReturn]
  have htext : Utf8.decodeLossy (headerOf name) = name.toList ++ [':'] := by
    rw [headerOf, utf8, Utf8.decodeLossy_encode, String.toList_append]
    rfl
  rw [parse, htext, hlines, List.takeWhile_cons_of_pos (by simp), List.takeWhile_nil, List.foldl_cons,
    List.foldl_nil, Reading.line_header hne hchars, Reading.header_empty hchars, String.ofList_toList]
  rfl

theorem nameable_subset_mentioned (hs : ∀ name ∈ s.passThrough, isName name = true) :
    s.nameable ⊆ mentioned s (s.passThrough.map headerOf) := by
  have hprovided : ∀ name ∈ s.passThrough, Provided (s.passThrough.map headerOf) name := by
    intro name hname
    refine ⟨headerOf name, List.mem_map_of_mem hname, (name, ""), ?_, Ascii.eqIgnoreCase_iff.mpr rfl⟩
    rw [parse_headerOf (hs name hname)]
    exact List.mem_singleton_self _
  have hpassed : s.passThrough.filter (!isReserved ·) =
      s.passThrough.filter fun name => !isReserved name && Provided (s.passThrough.map headerOf) name := by
    refine List.filter_congr fun name hname => ?_
    rw [decide_eq_true (hprovided name hname), Bool.and_true]
  rw [ManifestSettings.nameable, mentioned, hpassed]
  exact List.Subset.refl _

/-- The names of an output manifest, relocated or not, differ in more than case just where no name that is
brought in has two spellings; and they do so whatever the inputs are just where the settings have no name in
two spellings. -/
theorem names_distinct_iff (hs : s.fault? = none) (entryPoint : String) :
    (∀ inputs, (synthesize s entryPoint inputs).attributes.Distinct ↔ SpelledAlike (mentioned s inputs)) ∧
      (∀ inputs rs, ((synthesize s entryPoint inputs).relocate rs).attributes.Distinct ↔
        (synthesize s entryPoint inputs).attributes.Distinct) ∧
      ((∀ inputs, (synthesize s entryPoint inputs).attributes.Distinct) ↔ SpelledAlike s.nameable) := by
  refine ⟨distinct_synthesize_iff s entryPoint, fun inputs rs => ?_, fun h => ?_, fun h inputs => ?_⟩
  · rw [Attributes.Distinct, names_relocate, Attributes.Distinct]
  · have hall := (distinct_synthesize_iff s entryPoint _).mp (h (s.passThrough.map headerOf))
    exact hall.mono (nameable_subset_mentioned (ManifestSettings.sound_of_fault? hs).passThrough)
  · rw [distinct_synthesize_iff]
    exact h.mono (mentioned_subset_nameable s inputs)

def agreeing : ManifestSettings where
  title := some "demo"
  passThrough := ["Class-Path", "Main-Class"]
  attributes := .ofList [("Class-Path", "own.jar"), ("main-class", "other.Main")]

theorem agreeing_distinct : agreeing.fault? = none ∧
    ∀ inputs, (synthesize agreeing "m.Main" inputs).attributes.Distinct := by
  have hs : agreeing.fault? = none := by decide +kernel
  exact ⟨hs, (names_distinct_iff hs "m.Main").2.2.mpr (by decide +kernel)⟩

def twofold : ManifestSettings where
  passThrough := ["Class-Path", "class-path"]

theorem class_path_twice : twofold.fault? = none ∧
    (synthesize twofold "m.Main" [utf8 "Class-Path: lib.jar\n"]).attributes.pairs =
      [("Manifest-Version", "1.0"), ("Created-By", createdBy), ("Main-Class", "m.Main"),
        ("Class-Path", "lib.jar"), ("class-path", "lib.jar")] ∧
    ¬ (synthesize twofold "m.Main" [utf8 "Class-Path: lib.jar\n"]).attributes.Distinct := by
  decide +kernel

end Manifest

end FatJar
