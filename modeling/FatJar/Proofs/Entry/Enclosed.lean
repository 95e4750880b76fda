import FatJar.Zip.Entry
import Mathlib.Data.List.Basic

namespace FatJar

open Zip (depthAfter?)

def parentName : List Char :=
  ['.', '.']

def pathNames (path : List Char) : List (List Char) :=
  (path.splitOn '/').filter fun name => !name.isEmpty && name != ['.']

/-- A path that stays below the root. -/
structure Enclosed (path : String) : Prop where
  noNul : '\x00' ∉ path.toList
  relative : path.toList.head? ≠ some '/'
  inside : ∀ names, names <+: pathNames path.toList →
    names.count parentName ≤ names.countP (· != parentName)

section Depth

variable {d k : Nat} {name : List Char} {names : List (List Char)}

theorem depthAfter?_parent_zero : depthAfter? 0 (parentName :: names) = none :=
  rfl

theorem depthAfter?_parent_succ : depthAfter? (d + 1) (parentName :: names) = depthAfter? d names :=
  rfl

theorem depthAfter?_name (h : name ≠ parentName) :
    depthAfter? d (name :: names) = depthAfter? (d + 1) names :=
  if_neg h

theorem depthAfter?_append (more : List (List Char)) :
    depthAfter? d (names ++ more) = (depthAfter? d names).bind (depthAfter? · more) := by
  induction names generalizing d with
  | nil => rfl
  | cons name names ih =>
    rw [List.cons_append]
    by_cases h : name = parentName
    · subst h
      cases d with
      | zero => rfl
      | succ d => rw [depthAfter?_parent_succ, depthAfter?_parent_succ, ih]
    · rw [depthAfter?_name h, depthAfter?_name h, ih]

theorem depthAfter?_add (h : depthAfter? d names = some k) (n : Nat) :
    depthAfter? (d + n) names = some (k + n) := by
  induction names generalizing d with
  | nil =>
    obtain rfl := Option.some.inj h
    rfl
  | cons name names ih =>
    by_cases hname : name = parentName
    · subst hname
      cases d with
      | zero => simp [depthAfter?_parent_zero] at h
      | succ d =>
        rw [Nat.add_right_comm, depthAfter?_parent_succ]
        exact ih h
    · rw [depthAfter?_name hname] at h ⊢
      rw [Nat.add_right_comm]
      exact ih h

theorem depthAfter?_mono (h : (depthAfter? d names).isSome) (hk : d ≤ k) :
    (depthAfter? k names).isSome := by
  obtain ⟨n, hn⟩ := Option.isSome_iff_exists.mp h
  obtain ⟨more, rfl⟩ := Nat.exists_eq_add_of_le hk
  exact Option.isSome_iff_exists.mpr ⟨_, depthAfter?_add hn more⟩

theorem depthAfter?_of_notMem (h : parentName ∉ names) :
    depthAfter? d names = some (d + names.length) := by
  induction names generalizing d with
  | nil => rfl
  | cons name names ih =>
    rw [List.mem_cons, not_or] at h
    rw [depthAfter?_name (Ne.symm h.1), ih h.2, List.length_cons, Nat.add_right_comm, Nat.add_assoc]

theorem depthAfter?_parents (n : Nat) :
    depthAfter? d (List.replicate n parentName) = if n ≤ d then some (d - n) else none := by
  induction n generalizing d with
  | zero => simp [depthAfter?]
  | succ n ih =>
    rw [List.replicate_succ]
    cases d with
    | zero => rfl
    | succ d => simp [depthAfter?_parent_succ, ih]

theorem depthAfter?_isSome_iff :
    (depthAfter? d names).isSome ↔
      ∀ ns, ns <+: names → ns.count parentName ≤ d + ns.countP (· != parentName) := by
  induction names generalizing d with
  | nil => simp [depthAfter?]
  | cons name names ih =>
    have hcons : (∀ ns, ns <+: name :: names →
          ns.count parentName ≤ d + ns.countP (· != parentName)) ↔
        ∀ ns, ns <+: names →
          (name :: ns).count parentName ≤ d + (name :: ns).countP (· != parentName) := by
      constructor
      · exact fun h ns hns => h _ (List.cons_prefix_cons.mpr ⟨rfl, hns⟩)
      · intro h ns hns
        obtain rfl | ⟨ms, rfl, hms⟩ := List.prefix_cons_iff.mp hns
        · simp
        · exact h ms hms
    rw [hcons]
    by_cases hname : name = parentName
    · subst hname
      cases d with
      | zero =>
        simp only [depthAfter?_parent_zero, Option.isSome_none, Bool.false_eq_true, false_iff]
        intro h
        have hnil := h [] List.nil_prefix
        simp at hnil
      | succ d =>
        rw [depthAfter?_parent_succ, ih]
        refine forall_congr' fun ns => imp_congr_right fun _ => ?_
        simp only [List.count_cons_self, List.countP_cons, bne_self_eq_false, Bool.false_eq_true,
          if_false]
        omega
    · rw [depthAfter?_name hname, ih]
      refine forall_congr' fun ns => imp_congr_right fun _ => ?_
      have hbne : (name != parentName) = true := by simpa using hname
      simp only [List.count_cons_of_ne hname, List.countP_cons, hbne, if_true]
      omega

end Depth

theorem enclosed_iff {path : String} :
    Enclosed path ↔ '\x00' ∉ path.toList ∧ path.toList.head? ≠ some '/' ∧
      (depthAfter? 0 (pathNames path.toList)).isSome := by
  rw [depthAfter?_isSome_iff]
  simp only [Nat.zero_add]
  exact ⟨fun h => ⟨h.noNul, h.relative, h.inside⟩, fun h => ⟨h.1, h.2.1, h.2.2⟩⟩

section Names

variable {cs ds : List Char}

@[simp]
theorem pathNames_nil : pathNames [] = [] :=
  rfl

theorem pathNames_append (cs ds : List Char) :
    pathNames (cs ++ '/' :: ds) = pathNames cs ++ pathNames ds := by
  unfold pathNames
  rw [List.splitOn_append_cons_self, List.filter_append]

theorem pathNames_name (hslash : '/' ∉ cs) (hne : cs ≠ []) (hdot : cs ≠ ['.']) :
    pathNames cs = [cs] := by
  unfold pathNames
  rw [List.splitOn_eq_singleton hslash]
  simp [hne, hdot]

end Names

theorem Enclosed.directory {path dir : String} (h : Enclosed path) {cs rest : List Char}
    (hdir : dir.toList = cs ++ ['/']) (hpath : path.toList = dir.toList ++ rest) :
    Enclosed dir := by
  rw [enclosed_iff] at h ⊢
  rw [hpath] at h
  refine ⟨fun hmem => h.1 (List.mem_append_left _ hmem), ?_, ?_⟩
  · have hne : dir.toList ≠ [] := by simp [hdir]
    have hhead := h.2.1
    rwa [List.head?_append_of_ne_nil _ hne] at hhead
  · have hnames : pathNames (dir.toList ++ rest) = pathNames dir.toList ++ pathNames rest := by
      rw [hdir, List.append_assoc, List.singleton_append, pathNames_append, pathNames_append]
      simp
    have hdepth := h.2.2
    rw [hnames, depthAfter?_append] at hdepth
    exact Option.isSome_of_isSome_bind hdepth

end FatJar
