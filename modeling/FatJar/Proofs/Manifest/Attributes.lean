import FatJar.Manifest.Attributes
import FatJar.Proofs.Lists

namespace FatJar

section Pairs

variable {κ α : Type} [DecidableEq κ]

theorem lookup_filterMap (f : κ → Option α) (ks : List κ) (k : κ) :
    (ks.filterMap fun x => (f x).map ((x, ·))).lookup k = if k ∈ ks then f k else none := by
  induction ks with
  | nil => rfl
  | cons x ks ih =>
    rw [List.filterMap_cons]
    cases hx : f x with
    | none =>
      rw [Option.map_none]
      dsimp only
      rw [ih]
      by_cases hk : k = x
      · rw [hk, hx, ite_self, ite_self]
      · simp only [List.mem_cons, hk, false_or]
    | some v =>
      rw [Option.map_some]
      dsimp only
      rw [lookup_cons_eq_ite, ih]
      by_cases hk : k = x
      · rw [if_pos hk, if_pos (hk ▸ List.mem_cons_self), hk, hx]
      · simp only [List.mem_cons, hk, false_or, if_false]

omit [DecidableEq κ] in
theorem fst_filterMap (f : κ → Option α) (ks : List κ) :
    (ks.filterMap fun x => (f x).map ((x, ·))).map Prod.fst = ks.filter fun x => (f x).isSome := by
  induction ks with
  | nil => rfl
  | cons x ks ih => cases hx : f x <;> simp [hx, ih]

end Pairs

namespace Attributes

variable {a b : Attributes} {ps qs : List (String × String)} {name value more : String}

theorem eq_of_pairs (h : a.pairs = b.pairs) : a = b := by
  cases a
  cases b
  simpa only [mk.injEq] using h

theorem put_of_get? (h : a.get? name = some value) : a.put name value = a :=
  eq_of_pairs (putPair_of_lookup h)

theorem put_put (a : Attributes) (name value more : String) :
    (a.put name value).put name more = a.put name more :=
  eq_of_pairs (putPair_putPair name value more a.pairs)

theorem get?_put (a : Attributes) (name value : String) : (a.put name value).get? name = some value := by
  rw [get?, put, lookup_putPair, if_pos rfl]

theorem put_inj : a.put name value = a.put name more ↔ value = more := by
  constructor
  · intro h
    have hget := congrArg (·.get? name) h
    simpa only [get?_put, Option.some.injEq] using hget
  · rintro rfl
    rfl

theorem pairs_put (h : name ∉ a.pairs.map Prod.fst) (value : String) :
    (a.put name value).pairs = a.pairs ++ [(name, value)] :=
  putPair_of_notMem h value

theorem mem_of_mem_putAll {ps : List (String × String)} {p : String × String}
    (h : p ∈ (a.putAll ps).pairs) : p ∈ ps ∨ p ∈ a.pairs := by
  induction ps generalizing a with
  | nil => exact .inr h
  | cons q ps ih =>
    obtain h | h := ih h
    · exact .inl (List.mem_cons_of_mem _ h)
    · obtain rfl | h := mem_of_mem_putPair h
      · exact .inl List.mem_cons_self
      · exact .inr h

theorem mem_of_mem_ofList {ps : List (String × String)} {p : String × String}
    (h : p ∈ (ofList ps).pairs) : p ∈ ps :=
  (mem_of_mem_putAll h).resolve_right List.not_mem_nil

def names (a : Attributes) : List String :=
  a.pairs.map Prod.fst

theorem names_mapValues (f : String → String) (a : Attributes) : (a.mapValues f).names = a.names := by
  rw [names, mapValues, List.map_map]
  rfl

theorem names_put (a : Attributes) (name value : String) :
    (a.put name value).names = (a.names ++ [name]).eraseDups := by
  have hnodup : a.names.eraseDups = a.names := eraseDups_of_nodup a.nodup
  rw [names, put, fst_putPair, eraseDups_concat, hnodup]
  rfl

theorem names_putAll (a : Attributes) (ps : List (String × String)) :
    (a.putAll ps).names = (a.names ++ ps.map Prod.fst).eraseDups := by
  induction ps generalizing a with
  | nil =>
    have hnodup : a.names.eraseDups = a.names := eraseDups_of_nodup a.nodup
    rw [List.map_nil, List.append_nil, hnodup]
    rfl
  | cons p ps ih =>
    have hput := ih (a.put p.1 p.2)
    rw [names_put, eraseDups_eraseDups_append] at hput
    rw [List.map_cons, List.append_cons]
    exact hput

theorem get?_put_eq_ite (a : Attributes) (name value other : String) :
    (a.put name value).get? other = if other = name then some value else a.get? other :=
  lookup_putPair name other value a.pairs

theorem get?_putAll (a : Attributes) (ps : List (String × String)) (name : String) :
    (a.putAll ps).get? name = (ps.reverse.lookup name).or (a.get? name) := by
  induction ps generalizing a with
  | nil => rfl
  | cons p ps ih =>
    have hput := ih (a.put p.1 p.2)
    rw [get?_put_eq_ite] at hput
    rw [List.reverse_cons, List.lookup_append, Option.or_assoc, lookup_cons_eq_ite]
    refine hput.trans ?_
    split <;> rfl

theorem pairs_putAll (h : (a.names ++ ps.map Prod.fst).Nodup) : (a.putAll ps).pairs = a.pairs ++ ps := by
  induction ps generalizing a with
  | nil => exact (List.append_nil _).symm
  | cons p ps ih =>
    obtain ⟨hnew, -⟩ := List.nodup_cons.mp (List.nodup_middle.mp h)
    have hput : (a.put p.1 p.2).pairs = a.pairs ++ [p] :=
      pairs_put (fun hmem => hnew (List.mem_append_left _ hmem)) p.2
    have hnames : (a.put p.1 p.2).names ++ ps.map Prod.fst = a.names ++ (p :: ps).map Prod.fst := by
      rw [names, hput, List.map_append, List.append_assoc]
      rfl
    have hrest : ((a.put p.1 p.2).putAll ps).pairs = (a.put p.1 p.2).pairs ++ ps := ih (hnames ▸ h)
    rw [hput, List.append_assoc] at hrest
    exact hrest

theorem ofList_pairs (a : Attributes) : ofList a.pairs = a :=
  eq_of_pairs (pairs_putAll a.nodup)

theorem pairs_putAll_append (h : a.pairs = qs ++ b.pairs) (hps : ∀ p ∈ ps, p.1 ∉ qs.map Prod.fst) :
    (a.putAll ps).pairs = qs ++ (b.putAll ps).pairs := by
  induction ps generalizing a b with
  | nil => exact h
  | cons p ps ih =>
    have hput : (a.put p.1 p.2).pairs = qs ++ (b.put p.1 p.2).pairs :=
      (congrArg (putPair p.1 p.2) h).trans (putPair_append (hps p List.mem_cons_self) _ _)
    exact ih hput fun q hq => hps q (List.mem_cons_of_mem _ hq)

end Attributes

end FatJar
