import FatJar.Proofs.Glob.Reading
import FatJar.Proofs.Merge.Policy
import Mathlib.Data.List.TakeWhile

namespace FatJar.Merge

section Prefix

variable {ps : List Policy} {t : PolicyTable} {path : String} {p : Policy} {q : Policy × Nat}

namespace Policy

/-- The bytes before the first special character of the pattern. -/
def literalPrefix (p : Policy) : Bytes :=
  (utf8 p.pattern).take p.literalPrefixLength

def IsExact (p : Policy) : Prop :=
  p.literalPrefixLength = (utf8 p.pattern).length

instance (p : Policy) : Decidable p.IsExact :=
  inferInstanceAs (Decidable (_ = _))

theorem exists_literals (p : Policy) : ∃ cs ds, p.pattern.toList = cs ++ ds ∧
    (∀ c ∈ cs, isGlobChar c = false) ∧ p.literalPrefix = Utf8.encode cs ∧
      p.literalPrefixLength = (Utf8.encode cs).length := by
  have hcut := (List.takeWhile_append_dropWhile (p := (!isGlobChar ·)) (l := p.pattern.toList)).symm
  have hlength : p.literalPrefixLength = _ := Utf8.size_eq_length _
  refine ⟨_, _, hcut, fun c hc => ?_, ?_, hlength⟩
  · simpa using List.all_eq_true.mp List.all_takeWhile c hc
  · rw [literalPrefix, hlength, utf8]
    nth_rewrite 2 [hcut]
    rw [Utf8.encode_append, List.take_left]

theorem length_literalPrefix (p : Policy) : p.literalPrefix.length = p.literalPrefixLength := by
  obtain ⟨cs, ds, -, -, hliteral, hlength⟩ := p.exists_literals
  rw [hliteral, hlength]

theorem isExact_iff : p.IsExact ↔ ∀ c ∈ p.pattern.toList, isGlobChar c = false := by
  constructor
  · intro h
    obtain ⟨cs, ds, hcut, hcs, -, hlength⟩ := p.exists_literals
    rw [IsExact, utf8, hcut, Utf8.encode_append, List.length_append, hlength] at h
    have hnil : Utf8.encode ds = [] := List.length_eq_zero_iff.mp (by omega)
    rwa [hcut, Utf8.encode_eq_nil_iff.mp hnil, List.append_nil]
  · intro h
    have hall : p.pattern.toList.takeWhile (!isGlobChar ·) = p.pattern.toList :=
      List.takeWhile_eq_self_iff.mpr fun c hc => by rw [h c hc]; rfl
    rw [IsExact, literalPrefixLength, hall]
    exact Utf8.size_eq_length _

theorem prefix_of_matchesPath (h : p.matchesPath path = true) : p.literalPrefix <+: utf8 path := by
  obtain ⟨cs, ds, hcut, hcs, hliteral, -⟩ := p.exists_literals
  rw [matchesPath] at h
  rw [hliteral]
  cases hglob : Glob.ofText p.pattern with
  | error fault => simp [hglob] at h
  | ok glob =>
    rw [hglob] at h
    exact Glob.prefix_of_matchesPath hcs hcut hglob h

theorem literalPrefix_eq_of_le (h : p.matchesPath path = true)
    (hle : (utf8 path).length ≤ p.literalPrefixLength) : p.literalPrefix = utf8 path :=
  (prefix_of_matchesPath h).eq_of_length_le (p.length_literalPrefix ▸ hle)

end Policy

theorem exists_mem_zipIdx (hp : p ∈ ps) : ∃ i, (p, i) ∈ ps.zipIdx := by
  obtain ⟨i, hi⟩ := List.getElem?_of_mem hp
  exact ⟨i, List.mk_mem_zipIdx_iff_getElem?.mpr hi⟩

theorem exists_glob (h : PolicyTable.ofList ps = .ok t) (hp : p ∈ ps) :
    ∃ glob, Glob.ofText p.pattern = .ok glob := by
  obtain ⟨i, hi⟩ := exists_mem_zipIdx hp
  have hcompile := List.mem_map_of_mem (f := fun p => Policy.compile p.1 p.2) hi
  rw [map_compile h] at hcompile
  obtain ⟨c, -, hc⟩ := List.mem_map.mp hcompile
  rw [Policy.compile] at hc
  cases hglob : Glob.ofText p.pattern with
  | error fault => simp [hglob] at hc
  | ok glob => exact ⟨glob, rfl⟩

theorem matchesPath_iff_of_exact (h : PolicyTable.ofList ps = .ok t) (hp : p ∈ ps) (hexact : p.IsExact) :
    p.matchesPath path = true ↔ path = p.pattern := by
  obtain ⟨glob, hglob⟩ := exists_glob h hp
  rw [Policy.matchesPath, hglob]
  exact Glob.matchesPath_iff_of_literals (Policy.isExact_iff.mp hexact) hglob

theorem mem_of_mem_matching (hq : q ∈ matching ps path) : q.1 ∈ ps ∧ q.1.matchesPath path = true := by
  obtain ⟨hmem, hmatch⟩ := List.mem_filter.mp hq
  exact ⟨List.fst_mem_of_mem_zipIdx hmem, hmatch⟩

theorem exists_mem_matching (hp : p ∈ ps) (hmatch : p.matchesPath path = true) :
    ∃ i, (p, i) ∈ matching ps path := by
  obtain ⟨i, hi⟩ := exists_mem_zipIdx hp
  exact ⟨i, List.mem_filter.mpr ⟨hi, hmatch⟩⟩

section Exact

variable (hp : p ∈ ps) (hexact : p.IsExact) (hpath : p.pattern = path)

include hexact hpath

theorem literalPrefixLength_of_exact : p.literalPrefixLength = (utf8 path).length :=
  hpath ▸ hexact

include hp

/-- Beside an exact policy for the path the best ones are those that have all of it as literal prefix. -/
theorem literalPrefix_of_mem_bestMatches (hmatch : p.matchesPath path = true) (hq : q ∈ bestMatches ps path) :
    q.1 ∈ ps ∧ q.1.matchesPath path = true ∧ q.1.literalPrefix = utf8 path := by
  obtain ⟨i, hi⟩ := exists_mem_matching hp hmatch
  obtain ⟨hqmem, hbest⟩ := List.mem_filter.mp hq
  obtain ⟨hqps, hqmatch⟩ := mem_of_mem_matching hqmem
  have hrank : ¬ Outranks (p, i) q := of_decide_eq_true hbest _ hi
  have hle : (utf8 path).length ≤ q.1.literalPrefixLength := by
    rw [← literalPrefixLength_of_exact hexact hpath]
    exact Nat.le_of_not_lt fun hlt => hrank (.inl hlt)
  exact ⟨hqps, hqmatch, Policy.literalPrefix_eq_of_le hqmatch hle⟩

theorem lookup_of_exact (h : PolicyTable.ofList ps = .ok t) :
    (∃ q ∈ ps, q.matchesPath path = true ∧ q.literalPrefix = utf8 path ∧
        t.lookup path = .ok (some q.action)) ∨
      ∃ q ∈ ps, ∃ r ∈ ps, q.literalPrefix = utf8 path ∧ r.literalPrefix = utf8 path ∧
        t.lookup path = .error ⟨path, q.pattern, r.pattern⟩ := by
  have hmatch : p.matchesPath path = true := (matchesPath_iff_of_exact h hp hexact).mpr hpath.symm
  have hbest {q : Policy × Nat} (hq : q ∈ bestMatches ps path) :=
    literalPrefix_of_mem_bestMatches hp hexact hpath hmatch hq
  obtain ⟨hnone, -, -⟩ | ⟨q, hq, hlookup⟩ | ⟨first, between, last, hties, hlookup⟩ := lookup_cases h path
  · obtain ⟨i, hi⟩ := exists_mem_matching hp hmatch
    rw [hnone] at hi
    cases hi
  · obtain ⟨hqps, hqmatch, hqliteral⟩ := hbest (hq ▸ List.mem_singleton_self q)
    exact .inl ⟨q.1, hqps, hqmatch, hqliteral, hlookup⟩
  · obtain ⟨hfirst, -, hfirstliteral⟩ := hbest (q := first) (by simp [hties])
    obtain ⟨hlast, -, hlastliteral⟩ := hbest (q := last) (by simp [hties])
    exact .inr ⟨first.1, hfirst, last.1, hlast, hfirstliteral, hlastliteral, hlookup⟩

end Exact

/-- A path that a policy matches begins with the literal prefix of the policy, so the prefixes of two policies
that match a path are nested. An exact policy matches the path it spells and no other; no policy for this path
has a longer prefix, and the path is only decided by policies that have all of it as their literal prefix. -/
theorem literalPrefix_ranks (h : PolicyTable.ofList ps = .ok t) (path : String) :
    (∀ p ∈ ps, p.matchesPath path = true → p.literalPrefix <+: utf8 path) ∧
      (∀ p ∈ ps, p.IsExact → (p.matchesPath path = true ↔ path = p.pattern)) ∧
      (∀ p ∈ ps, ∀ q ∈ ps, p.matchesPath path = true → q.matchesPath path = true →
        p.literalPrefixLength ≤ q.literalPrefixLength → p.literalPrefix <+: q.literalPrefix) ∧
      ∀ p ∈ ps, p.IsExact → p.pattern = path →
        (∀ q ∈ ps, q.matchesPath path = true → q.literalPrefixLength ≤ p.literalPrefixLength) ∧
        ((∃ q ∈ ps, q.matchesPath path = true ∧ q.literalPrefix = utf8 path ∧
            t.lookup path = .ok (some q.action)) ∨
          ∃ q ∈ ps, ∃ r ∈ ps, q.literalPrefix = utf8 path ∧ r.literalPrefix = utf8 path ∧
            t.lookup path = .error ⟨path, q.pattern, r.pattern⟩) := by
  refine ⟨fun p _ hmatch => Policy.prefix_of_matchesPath hmatch,
    fun p hp hexact => matchesPath_iff_of_exact h hp hexact, fun p _ q _ hpmatch hqmatch hle => ?_,
    fun p hp hexact hpath => ⟨fun q _ hqmatch => ?_, lookup_of_exact hp hexact hpath h⟩⟩
  · refine List.prefix_of_prefix_length_le (Policy.prefix_of_matchesPath hpmatch)
      (Policy.prefix_of_matchesPath hqmatch) ?_
    rwa [p.length_literalPrefix, q.length_literalPrefix]
  · rw [literalPrefixLength_of_exact hexact hpath, ← q.length_literalPrefix]
    exact (Policy.prefix_of_matchesPath hqmatch).length_le

end Prefix

/-- All of these match `a/b,c].x`, which the first one spells. In the others stars take the place of a slash
that their literal prefixes end with. -/
def layeredPolicies : List Policy :=
  [⟨"a/b,c].x", .keepLast, some 1⟩, ⟨"a/**", .exclude, some 0⟩,
    ⟨"a/**/b\x7b,\\,[!/]*\x7d.x", .keepFirst, some 0⟩]

theorem layeredPolicies_ranked : ∃ t, PolicyTable.ofList layeredPolicies = .ok t ∧
    (∀ p ∈ layeredPolicies, p.literalPrefix <+: utf8 "a/b,c].x") ∧
      t.lookup "a/b,c].x" ≠ .ok (some .exclude) := by
  obtain ⟨t, ht⟩ : ∃ t, PolicyTable.ofList layeredPolicies = .ok t := by
    have hok : (PolicyTable.ofList layeredPolicies).isOk = true := by decide +kernel
    cases h : PolicyTable.ofList layeredPolicies with
    | error fault => simp [h, Except.isOk, Except.toBool] at hok
    | ok t => exact ⟨t, rfl⟩
  obtain ⟨hliteral, -, -, hexact⟩ := literalPrefix_ranks ht "a/b,c].x"
  have hmatch : ∀ p ∈ layeredPolicies, p.matchesPath "a/b,c].x" = true := by decide +kernel
  refine ⟨t, ht, fun p hp => hliteral p hp (hmatch p hp), fun hexclude => ?_⟩
  obtain ⟨-, ⟨q, hq, -, hqliteral, hlookup⟩ | ⟨q, -, r, -, -, -, hlookup⟩⟩ :=
    hexact _ List.mem_cons_self (by decide) rfl
  · have hall : ∀ q ∈ layeredPolicies, q.literalPrefix = utf8 "a/b,c].x" → q.action ≠ .exclude := by decide
    rw [hexclude] at hlookup
    exact hall q hq hqliteral (Option.some.inj (Except.ok.inj hlookup)).symm
  · rw [hexclude] at hlookup
    cases hlookup

end FatJar.Merge
