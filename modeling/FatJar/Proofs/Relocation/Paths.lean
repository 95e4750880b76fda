import FatJar.Proofs.Lists
import FatJar.Proofs.Relocation.Rules
import FatJar.Relocation.Reference

namespace FatJar.Relocation

section Slashes

variable {a b name : String} {c : Char}

theorem hyphen_notMem_slashed (h : isNamespace name = true) : '-' ∉ (slashed name).toList :=
  notMem_slashed h (by decide) (by decide)

theorem map_slashed (h : isNamespace name = true) :
    ((slashed name).toList.map fun c => if c = '/' then '.' else c) = name.toList := by
  rw [toList_slashed, List.map_map]
  refine (List.map_congr_left fun c hc => ?_).trans (List.map_id _)
  have hslash : c ≠ '/' := fun he => slash_notMem_of_isNamespace h (he ▸ hc)
  by_cases hdot : c = '.' <;> simp [hdot, hslash]

theorem prefix_of_slashed (ha : isNamespace a = true) (hb : isNamespace b = true)
    (h : (slashed a).toList <+: (slashed b).toList) : a.toList <+: b.toList := by
  rw [← map_slashed ha, ← map_slashed hb]
  exact h.map _

end Slashes

section Directories

variable {path tail : List Char} {dir : String}

theorem belowDirectory?_eq_some_iff :
    belowDirectory? dir path = some tail ↔
      path = dir.toList ++ tail ∧ ∃ rest, tail = '/' :: rest := by
  unfold belowDirectory?
  cases hp : dir.toList.isPrefixOf? path with
  | none =>
    simp only [reduceCtorEq, false_iff]
    rintro ⟨hpath, -⟩
    have hsome := List.isPrefixOf?_eq_some_iff_append_eq.mpr hpath.symm
    simp [hp] at hsome
  | some found =>
    have hfound := List.isPrefixOf?_eq_some_iff_append_eq.mp hp
    rw [← hfound, List.append_cancel_left_eq]
    split
    · next rest hs =>
      obtain rfl := Option.some.inj hs
      simp +contextual [eq_comm]
    · next hs =>
      simp only [reduceCtorEq, false_iff]
      rintro ⟨rfl, rest, rfl⟩
      exact hs rest rfl

end Directories

/-- What marks a path for certain versions of the platform. -/
def IsVersionMark (mark : List Char) : Prop :=
  ∃ version, version ≠ [] ∧ (∀ c ∈ version, c.isDigit = true) ∧
    mark = versionsDir.toList ++ version ++ ['/']

theorem splitVersioned_of_mark {mark : List Char} (h : IsVersionMark mark) (rest : List Char) :
    splitVersioned (mark ++ rest) = (mark, rest) := by
  obtain ⟨version, hne, hdigits, rfl⟩ := h
  have hslash : '/' ∉ version := fun hmem => absurd (hdigits _ hmem) (by decide)
  have hpath : versionsDir.toList ++ version ++ ['/'] ++ rest =
      versionsDir.toList ++ (version ++ '/' :: rest) := by simp
  have hdir := List.isPrefixOf?_eq_some_iff_append_eq.mpr hpath.symm
  have hall : (!version.isEmpty && version.all Char.isDigit) = true := by simpa using ⟨hne, hdigits⟩
  unfold splitVersioned
  rw [hdir]
  simp only [cutAt?_append_cons hslash, if_pos hall]

theorem splitVersioned_cases (path : List Char) :
    (∃ mark rest, IsVersionMark mark ∧ path = mark ++ rest ∧ splitVersioned path = (mark, rest)) ∨
      splitVersioned path = ([], path) := by
  unfold splitVersioned
  split
  · exact .inr rfl
  · next below hbelow =>
    split
    · exact .inr rfl
    · next version tail hcut =>
      split
      · next hall =>
        left
        have hv : version ≠ [] ∧ ∀ c ∈ version, c.isDigit = true := by simpa using hall
        refine ⟨_, _, ⟨version, hv.1, hv.2, rfl⟩, ?_, rfl⟩
        rw [← List.isPrefixOf?_eq_some_iff_append_eq.mp hbelow, (eq_of_cutAt? hcut).1]
        simp
      · exact .inr rfl

theorem mark_of_splitVersioned {path mark rest : List Char}
    (h : splitVersioned path = (mark, rest)) :
    (mark = [] ∨ IsVersionMark mark) ∧ path = mark ++ rest := by
  obtain ⟨mark', rest', hmark, hpath, hsplit⟩ | hsplit := splitVersioned_cases path
  · obtain ⟨rfl, rfl⟩ := Prod.mk.inj (hsplit.symm.trans h)
    exact ⟨.inr hmark, hpath⟩
  · obtain ⟨rfl, rfl⟩ := Prod.mk.inj (hsplit.symm.trans h)
    exact ⟨.inl rfl, rfl⟩

theorem splitVersioned_of_namespace {name : String} (h : isNamespace name = true)
    (rest : List Char) :
    splitVersioned ((slashed name).toList ++ '/' :: rest) =
      ([], (slashed name).toList ++ '/' :: rest) := by
  rcases splitVersioned_cases ((slashed name).toList ++ '/' :: rest) with
    ⟨mark, below, ⟨version, -, -, rfl⟩, hpath, -⟩ | hsplit
  · have hmeta : "META-INF".toList <+: (slashed name).toList ++ '/' :: rest := by
      rw [hpath]
      simp [versionsDir]
    exact absurd hmeta
      (not_prefix_append_cons (c := '-') (by decide) (by decide) (hyphen_notMem_slashed h) rest)
  · exact hsplit

theorem splitVersioned_below {mark : List Char} (hmark : mark = [] ∨ IsVersionMark mark)
    {name : String} (h : isNamespace name = true) (rest : List Char) :
    splitVersioned (mark ++ ((slashed name).toList ++ '/' :: rest)) =
      (mark, (slashed name).toList ++ '/' :: rest) := by
  obtain rfl | hmark := hmark
  · exact splitVersioned_of_namespace h rest
  · exact splitVersioned_of_mark hmark _

namespace RuleSet

variable {rs : RuleSet} {a b r : Rule} {path path' name name' : String}

theorem eq_of_below (ha : a ∈ rs.rules) (hb : b ∈ rs.rules) {rest s t : List Char}
    (hs : rest = a.slashedSource.toList ++ '/' :: s)
    (ht : rest = b.slashedSource.toList ++ '/' :: t) : a = b := by
  have hna := rs.isNamespace_source ha
  have hnb := rs.isNamespace_source hb
  obtain h | h := List.prefix_or_prefix_of_prefix ⟨_, hs.symm⟩ ⟨_, ht.symm⟩
  · exact rs.eq_of_prefix ha hb (prefix_of_slashed hna hnb h)
  · exact (rs.eq_of_prefix hb ha (prefix_of_slashed hnb hna h)).symm

theorem relocatePath_eq_some_iff :
    rs.relocatePath path = some path' ↔
      ∃ r ∈ rs.rules, ∃ mark rest,
        splitVersioned path.toList = (mark, r.slashedSource.toList ++ '/' :: rest) ∧
          path'.toList = mark ++ r.slashedTarget.toList ++ '/' :: rest := by
  have hone : ∀ a ∈ rs.rules, ∀ b ∈ rs.rules,
      (belowDirectory? a.slashedSource (splitVersioned path.toList).2).isSome →
      (belowDirectory? b.slashedSource (splitVersioned path.toList).2).isSome → a = b := by
    intro a ha b hb hsa hsb
    obtain ⟨s, hs⟩ := Option.isSome_iff_exists.mp hsa
    obtain ⟨t, ht⟩ := Option.isSome_iff_exists.mp hsb
    obtain ⟨hs, s, rfl⟩ := belowDirectory?_eq_some_iff.mp hs
    obtain ⟨ht, t, rfl⟩ := belowDirectory?_eq_some_iff.mp ht
    exact rs.eq_of_below ha hb hs ht
  unfold relocatePath
  dsimp only
  rw [findSome?_eq_some_iff_of_sole (by simpa using hone)]
  simp only [Option.map_eq_some_iff, belowDirectory?_eq_some_iff]
  refine exists_congr fun r => and_congr_right fun _ => ?_
  constructor
  · rintro ⟨tail, ⟨hsplit, rest, rfl⟩, rfl⟩
    exact ⟨_, rest, Prod.ext rfl hsplit, by simp⟩
  · rintro ⟨mark, rest, hsplit, hpath⟩
    exact ⟨_, ⟨by rw [hsplit], rest, rfl⟩, String.toList_inj.mp (by simp [hsplit, hpath])⟩

theorem relocatePath_below (hr : r ∈ rs.rules) (rest : List Char) :
    rs.relocatePath (String.ofList (r.slashedSource.toList ++ '/' :: rest)) =
      some (String.ofList (r.slashedTarget.toList ++ '/' :: rest)) := by
  rw [relocatePath_eq_some_iff]
  refine ⟨r, hr, [], rest, ?_, by simp⟩
  rw [String.toList_ofList]
  exact splitVersioned_of_namespace (rs.isNamespace_source hr) rest

theorem relocateName_eq_some_iff :
    rs.relocateName name = some name' ↔
      ∃ r ∈ rs.rules, ∃ tail, r.tail? name = some tail ∧
        name'.toList = r.target.toList ++ tail := by
  have hone : ∀ a ∈ rs.rules, ∀ b ∈ rs.rules, (a.tail? name).isSome → (b.tail? name).isSome →
      a = b := by
    intro a ha b hb hsa hsb
    obtain ⟨s, hs⟩ := Option.isSome_iff_exists.mp hsa
    obtain ⟨t, ht⟩ := Option.isSome_iff_exists.mp hsb
    have hs := (Rule.tail?_eq_some_iff.mp hs).1
    have ht := (Rule.tail?_eq_some_iff.mp ht).1
    obtain h | h := List.prefix_or_prefix_of_prefix ⟨_, hs.symm⟩ ⟨_, ht.symm⟩
    · exact rs.eq_of_prefix ha hb h
    · exact (rs.eq_of_prefix hb ha h).symm
  unfold relocateName
  rw [findSome?_eq_some_iff_of_sole (by simpa using hone)]
  simp only [Option.map_eq_some_iff]
  refine exists_congr fun r => and_congr_right fun _ => exists_congr fun tail =>
    and_congr_right fun _ => ?_
  rw [← String.toList_inj]
  simp [eq_comm]

theorem exists_cons_of_relocateName (h : rs.relocateName name = some name') :
    ∃ c cs, name'.toList = c :: cs ∧ isSegmentChar c = true := by
  obtain ⟨r, hr, tail, -, hname'⟩ := relocateName_eq_some_iff.mp h
  obtain ⟨c, cs, hc, hsegment⟩ := exists_cons_of_isNamespace (rs.isNamespace_target hr)
  exact ⟨c, cs ++ tail, by rw [hname', hc, List.cons_append], hsegment⟩

theorem notMem_of_relocateName {c : Char} (h : rs.relocateName name = some name') (hdot : c ≠ '.')
    (hc : isSegmentChar c = false) (hname : c ∉ name.toList) : c ∉ name'.toList := by
  obtain ⟨r, hr, tail, htail, hname'⟩ := relocateName_eq_some_iff.mp h
  rw [(Rule.tail?_eq_some_iff.mp htail).1, List.mem_append, not_or] at hname
  rw [hname', List.mem_append, not_or]
  exact ⟨notMem_of_isNamespace (rs.isNamespace_target hr) hdot hc, hname.2⟩

end RuleSet

end FatJar.Relocation
