import FatJar.Proofs.Text.Parts
import FatJar.Proofs.Text.Utf8
import FatJar.Relocation.Rule
import Mathlib.Data.List.Basic

namespace FatJar.Relocation

section Namespaces

variable {c : Char} {name : String}

theorem toNat_lt_of_isSegmentChar (h : isSegmentChar c = true) : c.toNat < 0x80 :=
  Utf8.toNat_lt_of_isAlphanum_or (by decide) (by decide) h

theorem of_isSegmentChar {p : Char → Prop}
    (hp : ∀ n < 0x80, isSegmentChar (Char.ofNat n) = true → p (Char.ofNat n))
    (h : isSegmentChar c = true) : p c :=
  Utf8.of_ascii (p := fun c => isSegmentChar c = true → p c) hp (toNat_lt_of_isSegmentChar h) h

theorem ne_dot_of_isSegmentChar (h : isSegmentChar c = true) : c ≠ '.' := by
  rintro rfl
  exact absurd h (by decide)

theorem isNamespace_iff : isNamespace name = true ↔ Joined '.' isSegmentChar name.toList :=
  Joined.iff_all.symm

theorem notMem_of_isNamespace (h : isNamespace name = true) (hdot : c ≠ '.')
    (hc : isSegmentChar c = false) : c ∉ name.toList := by
  intro hmem
  rw [((isNamespace_iff.mp h).of_mem hmem).resolve_left hdot] at hc
  exact absurd hc (by decide)

theorem slash_notMem_of_isNamespace (h : isNamespace name = true) : '/' ∉ name.toList :=
  notMem_of_isNamespace h (by decide) (by decide)

theorem exists_cons_of_isNamespace (h : isNamespace name = true) :
    ∃ c cs, name.toList = c :: cs ∧ isSegmentChar c = true := by
  have hjoined := isNamespace_iff.mp h
  obtain ⟨c, cs, hc⟩ := List.exists_cons_of_ne_nil hjoined.ne_nil
  exact ⟨c, cs, hc, (hc ▸ hjoined).of_cons⟩

theorem ascii_of_isNamespace (h : isNamespace name = true) (hc : c ∈ name.toList) :
    c.toNat < 0x80 := by
  obtain rfl | hc := (isNamespace_iff.mp h).of_mem hc
  · decide
  · exact toNat_lt_of_isSegmentChar hc

end Namespaces

theorem toList_slashed (name : String) :
    (slashed name).toList = name.toList.map fun c => if c = '.' then '/' else c :=
  String.toList_ofList

theorem notMem_slashed {c : Char} {name : String} (h : isNamespace name = true) (hslash : c ≠ '/')
    (hc : isSegmentChar c = false) : c ∉ (slashed name).toList := by
  rw [toList_slashed, List.mem_map]
  rintro ⟨d, hd, hdc⟩
  split at hdc
  · exact hslash hdc.symm
  · next hdot => exact notMem_of_isNamespace h (hdc ▸ hdot) hc (hdc ▸ hd)

namespace Rule

variable {r : Rule} {name : String} {tail : List Char}

theorem tail?_eq_some_iff :
    r.tail? name = some tail ↔
      name.toList = r.source.toList ++ tail ∧ ∀ c ∈ tail.head?, c = '.' := by
  unfold tail?
  cases hp : r.source.toList.isPrefixOf? name.toList with
  | none =>
    simp only [reduceCtorEq, false_iff]
    rintro ⟨hname, -⟩
    have hsome := List.isPrefixOf?_eq_some_iff_append_eq.mpr hname.symm
    simp [hp] at hsome
  | some rest =>
    have hrest := List.isPrefixOf?_eq_some_iff_append_eq.mp hp
    rw [← hrest, List.append_cancel_left_eq]
    cases rest with
    | nil => simp +contextual [eq_comm]
    | cons c rest =>
      by_cases hc : c = '.'
      · simp +contextual [hc, eq_comm]
      · simp only [if_neg hc, reduceCtorEq, false_iff]
        rintro ⟨rfl, hdot⟩
        exact hc (hdot c rfl)

theorem covers_iff :
    r.covers name = true ↔
      name = r.source ∨ ∃ rest, name.toList = r.source.toList ++ '.' :: rest := by
  unfold covers
  rw [Option.isSome_iff_exists]
  simp only [tail?_eq_some_iff]
  constructor
  · rintro ⟨tail, hname, hdot⟩
    cases tail with
    | nil => exact .inl (String.toList_inj.mp (by simpa using hname))
    | cons c rest =>
      obtain rfl := hdot c rfl
      exact .inr ⟨rest, hname⟩
  · rintro (rfl | ⟨rest, hname⟩)
    · exact ⟨[], by simp⟩
    · exact ⟨'.' :: rest, hname, by simp⟩

end Rule

namespace RuleSet

variable {rs : RuleSet} {a b r : Rule}

theorem faultAlone?_eq_none (hr : r ∈ rs.rules) : faultAlone? r = none := by
  have h := (Option.or_eq_none_iff.mp rs.accepted).1
  simpa using List.findSome?_eq_none_iff.mp h r hr

theorem faultBeside?_eq_none {i j : Nat} (ha : rs.rules[i]? = some a) (hb : rs.rules[j]? = some b) :
    faultBeside? a b (i == j) = none := by
  have h := (Option.or_eq_none_iff.mp rs.accepted).2
  have hrow := List.findSome?_eq_none_iff.mp h (a, i) (List.mem_zipIdx_iff_getElem?.mpr ha)
  have hpair := List.findSome?_eq_none_iff.mp hrow (b, j) (List.mem_zipIdx_iff_getElem?.mpr hb)
  simpa using hpair

theorem isNamespace_source (hr : r ∈ rs.rules) : isNamespace r.source = true := by
  have h := faultAlone?_eq_none hr
  unfold faultAlone? at h
  split at h
  · simp at h
  · next hn => simp_all

theorem isNamespace_target (hr : r ∈ rs.rules) : isNamespace r.target = true := by
  have h := faultAlone?_eq_none hr
  unfold faultAlone? at h
  split at h
  · simp at h
  · next hn => simp_all

theorem eq_of_prefix (ha : a ∈ rs.rules) (hb : b ∈ rs.rules)
    (h : a.source.toList <+: b.source.toList) : a = b := by
  obtain ⟨i, hi⟩ := List.getElem?_of_mem ha
  obtain ⟨j, hj⟩ := List.getElem?_of_mem hb
  have hfault := faultBeside?_eq_none hi hj
  unfold faultBeside? at hfault
  split at hfault
  · simp at hfault
  · next hn =>
    have hij : i = j := by simpa [h] using hn
    subst hij
    exact Option.some.inj (hi.symm.trans hj)

theorem target_not_covered (ha : a ∈ rs.rules) (hb : b ∈ rs.rules) :
    a.covers b.target = false := by
  obtain ⟨i, hi⟩ := List.getElem?_of_mem ha
  obtain ⟨j, hj⟩ := List.getElem?_of_mem hb
  have hfault := faultBeside?_eq_none hi hj
  unfold faultBeside? at hfault
  split at hfault
  · simp at hfault
  · split at hfault
    · simp at hfault
    · next hn => simpa using hn

end RuleSet

end FatJar.Relocation
