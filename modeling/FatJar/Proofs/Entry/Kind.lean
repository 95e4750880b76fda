import FatJar.Entry.Kind
import FatJar.Proofs.Text.Parts
import Mathlib.Data.List.Basic

namespace FatJar

variable {path name : String}

theorem serviceName?_eq_some_iff :
    serviceName? path = some name ↔
      path = servicesDir ++ name ∧ name ≠ "" ∧ '/' ∉ name.toList := by
  unfold serviceName?
  constructor
  · intro h
    split at h
    · simp at h
    · next rest hrest =>
      split at h
      · simp at h
      · next hname =>
        obtain rfl := Option.some.inj h
        have hpath := List.isPrefixOf?_eq_some_iff_append_eq.mp hrest
        refine ⟨String.toList_inj.mp ?_, by simpa using hname⟩
        simp [← hpath]
  · rintro ⟨rfl, hne, hslash⟩
    have hrest : servicesDir.toList.isPrefixOf? (servicesDir ++ name).toList = some name.toList :=
      List.isPrefixOf?_eq_some_iff_append_eq.mpr String.toList_append.symm
    have hname : ¬ (name.toList.isEmpty || name.toList.contains '/') = true := by
      simpa using ⟨hne, hslash⟩
    rw [hrest]
    dsimp only
    rw [if_neg hname, String.ofList_toList]

theorem lower_append (s t : String) : Ascii.lower (s ++ t) = Ascii.lower s ++ Ascii.lower t := by
  simp [Ascii.lower]

/-- Whether a path lies in `META-INF/`, whatever the case of its letters. -/
def InMetaInf (path : String) : Prop :=
  Ascii.lower metaInf <+: Ascii.lower path

theorem inMetaInf_append (rest : String) : InMetaInf (metaInf ++ rest) := by
  unfold InMetaInf
  rw [lower_append]
  exact List.prefix_append _ _

theorem inMetaInf_of_isSignaturePath (h : isSignaturePath path = true) : InMetaInf path := by
  unfold isSignaturePath at h
  split at h
  · simp at h
  · next name hname => exact ⟨name, List.isPrefixOf?_eq_some_iff_append_eq.mp hname⟩

theorem inMetaInf_of_manifest (h : Ascii.eqIgnoreCase path manifestPath = true) :
    InMetaInf path := by
  unfold InMetaInf
  rw [eq_of_beq h]
  decide

theorem inMetaInf_of_service (h : (serviceName? path).isSome) : InMetaInf path := by
  obtain ⟨name, hname⟩ := Option.isSome_iff_exists.mp h
  obtain ⟨rfl, -⟩ := serviceName?_eq_some_iff.mp hname
  have hdir : servicesDir = metaInf ++ "services/" := rfl
  rw [hdir, String.append_assoc]
  exact inMetaInf_append _

theorem ofPath_eq_directory_iff : EntryKind.ofPath path = .directory ↔ isDirectoryPath path = true := by
  unfold EntryKind.ofPath
  split
  · next h => simp [h]
  · next h =>
    simp only [h, Bool.false_eq_true, iff_false]
    repeat' split
    all_goals decide

theorem not_manifest_of_isDirectoryPath (h : isDirectoryPath path = true) :
    Ascii.eqIgnoreCase path manifestPath = false := by
  rw [Ascii.eqIgnoreCase, beq_eq_false_iff_ne]
  intro he
  have hlast : (Ascii.lower path).getLast? = some '/' := by
    rw [Ascii.lower, List.getLast?_map, eq_of_beq h]
    rfl
  rw [he] at hlast
  exact absurd hlast (by decide)

def EntryKind.isContent (k : EntryKind) : Bool :=
  k == .serviceFile || k == .classFile || k == .resource

theorem not_manifest_of_isContent (h : (EntryKind.ofPath path).isContent = true) :
    Ascii.eqIgnoreCase path manifestPath = false := by
  unfold EntryKind.ofPath at h
  split at h
  · exact absurd h (by decide)
  · split at h
    · exact absurd h (by decide)
    · split at h
      · exact absurd h (by decide)
      · next hman => simpa using hman

theorem not_directory_of_isContent (h : (EntryKind.ofPath path).isContent = true) :
    isDirectoryPath path = false := by
  rw [Bool.eq_false_iff]
  intro hd
  rw [ofPath_eq_directory_iff.mpr hd] at h
  exact absurd h (by decide)

def endKind (path : String) : EntryKind :=
  if isDirectoryPath path then .directory
  else if ".class".toList.isSuffixOf path.toList then .classFile
  else .resource

theorem ofPath_eq_endKind (hsig : isSignaturePath path = false)
    (hman : Ascii.eqIgnoreCase path manifestPath = false) (hserv : serviceName? path = none) :
    EntryKind.ofPath path = endKind path := by
  simp only [EntryKind.ofPath, endKind, hsig, hman, hserv, Option.isSome_none, Bool.false_eq_true,
    if_false]

theorem ofPath_of_not_inMetaInf (h : ¬ InMetaInf path) : EntryKind.ofPath path = endKind path := by
  apply ofPath_eq_endKind
  · simpa using fun hsig => h (inMetaInf_of_isSignaturePath hsig)
  · simpa using fun hman => h (inMetaInf_of_manifest hman)
  · simpa using fun hserv => h (inMetaInf_of_service hserv)

theorem isSignaturePath_eq_false {rest : String} (h : '/' ∈ rest.toList) :
    isSignaturePath (metaInf ++ rest) = false := by
  have hname : (Ascii.lower metaInf).isPrefixOf? (Ascii.lower (metaInf ++ rest)) =
      some (Ascii.lower rest) := by
    rw [List.isPrefixOf?_eq_some_iff_append_eq, lower_append]
  have hslash : '/' ∈ Ascii.lower rest := List.mem_map.mpr ⟨'/', h, by decide⟩
  unfold isSignaturePath
  rw [hname]
  simp [hslash]

theorem ofPath_of_version (rest : String) (h : path = "META-INF/versions/" ++ rest) :
    EntryKind.ofPath path = endKind path := by
  subst h
  have hdir : "META-INF/versions/" = metaInf ++ "versions/" := rfl
  apply ofPath_eq_endKind
  · rw [hdir, String.append_assoc]
    exact isSignaturePath_eq_false (by simp)
  · rw [Ascii.eqIgnoreCase, beq_eq_false_iff_ne]
    intro h
    have hv : Ascii.lower "META-INF/v" <+: Ascii.lower manifestPath := by
      rw [← h, lower_append]
      exact List.IsPrefix.trans (by decide) (List.prefix_append _ _)
    exact absurd hv (by decide)
  · rw [Option.eq_none_iff_forall_ne_some]
    intro name hname
    have hv : "META-INF/v".toList <+: ("META-INF/versions/" ++ rest).toList := by
      rw [String.toList_append]
      exact List.IsPrefix.trans (by decide) (List.prefix_append _ _)
    rw [(serviceName?_eq_some_iff.mp hname).1, String.toList_append] at hv
    exact absurd (List.prefix_of_prefix_length_le hv (List.prefix_append _ _) (by decide)) (by decide)

theorem ofPath_service (hne : name ≠ "") (hslash : '/' ∉ name.toList) :
    EntryKind.ofPath (servicesDir ++ name) = .serviceFile := by
  have hserv : (serviceName? (servicesDir ++ name)).isSome := by
    rw [serviceName?_eq_some_iff.mpr ⟨rfl, hne, hslash⟩]
    rfl
  have hdir : servicesDir = metaInf ++ "services/" := rfl
  have hsig : isSignaturePath (servicesDir ++ name) = false := by
    rw [hdir, String.append_assoc]
    exact isSignaturePath_eq_false (by simp)
  have hman : Ascii.eqIgnoreCase (servicesDir ++ name) manifestPath = false := by
    rw [Ascii.eqIgnoreCase, beq_eq_false_iff_ne]
    intro h
    have hs : Ascii.lower "META-INF/s" <+: Ascii.lower manifestPath := by
      rw [← h, lower_append]
      exact List.IsPrefix.trans (by decide) (List.prefix_append _ _)
    exact absurd hs (by decide)
  have hdirectory : isDirectoryPath (servicesDir ++ name) = false := by
    have hne' : name.toList ≠ [] := by simpa using hne
    unfold isDirectoryPath
    rw [String.toList_append, List.getLast?_append_of_ne_nil _ hne', beq_eq_false_iff_ne]
    exact fun h => hslash (List.mem_of_getLast? h)
  simp [EntryKind.ofPath, hdirectory, hsig, hman, hserv]

theorem endKind_congr {path' : String} {cs ds rest : List Char} (h : path.toList = cs ++ '/' :: rest)
    (h' : path'.toList = ds ++ '/' :: rest) : endKind path = endKind path' := by
  have hlast : ∀ es : List Char, (es ++ '/' :: rest).getLast? = ('/' :: rest).getLast? :=
    fun es => List.getLast?_append_of_ne_nil es (by simp)
  have hclass : ∀ es : List Char,
      ".class".toList.isSuffixOf (es ++ '/' :: rest) = ".class".toList.isSuffixOf rest := by
    intro es
    rw [Bool.eq_iff_iff, List.isSuffixOf_iff_suffix, List.isSuffixOf_iff_suffix]
    exact suffix_append_cons_iff (by decide)
  unfold endKind isDirectoryPath
  rw [h, h', hlast, hlast, hclass, hclass]

end FatJar
