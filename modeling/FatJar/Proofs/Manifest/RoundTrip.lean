import FatJar.Proofs.Manifest.Rendering
import Mathlib.Data.List.Nodup

namespace FatJar.Manifest

variable {a : Attributes} {name value : String} {r : Reading} {ps : List (String × String)}

theorem parse_render (hnames : ∀ p ∈ a.pairs, isName p.1 = true)
    (hvalues : ∀ p ∈ a.pairs, isValue p.2 = true) :
    parse (render a) = (a.pairs.foldl (fun (r : Reading) p => r.rendered p.1 p.2) {}).attributes := by
  rw [parse, render, Utf8.decodeLossy_encode]
  exact congrArg Reading.attributes
    (foldl_line_render hnames (fun p hp => (isValue_iff.mp (hvalues p hp)).2.1) {})

def Reading.names (r : Reading) : List String :=
  r.attributes.pairs.map Prod.fst

theorem Reading.names_extend (r : Reading) (more : List Char) : (r.extend more).names = r.names := by
  cases hname : r.current with
  | none => simp only [extend, hname]
  | some name =>
    cases hvalue : r.attributes.get? name with
    | none => simp only [extend, hname, hvalue]
    | some value =>
      have hmem := List.mem_map_of_mem (f := Prod.fst)
        ((lookup_eq_some_iff_mem r.attributes.nodup).mp hvalue)
      rw [extend_of_get? hname hvalue, names, Attributes.put, fst_putPair, if_pos hmem, names]

theorem Reading.pairs_rendered (hnew : name ∉ r.names) (h : name.length ≤ 71) (value : String) :
    (r.rendered name value).attributes.pairs =
      r.attributes.pairs ++ [(name, if name.length ≤ 70 then value else " " ++ value)] := by
  rw [rendered]
  by_cases hshort : name.length ≤ 70
  · rw [if_pos hshort, if_pos hshort, Attributes.pairs_put hnew]
  · have hfull : name.length = 71 := by omega
    rw [if_neg hshort, if_neg hshort, if_pos hfull, Attributes.pairs_put hnew]

theorem Reading.names_rendered (hnew : name ∉ r.names) (value : String) :
    (r.rendered name value).names = r.names ++ [name].filter (·.length ≤ 71) := by
  by_cases h : name.length ≤ 71
  · rw [names, pairs_rendered hnew h, List.map_append, List.filter_cons_of_pos (by simpa using h)]
    rfl
  · have hshort : ¬ name.length ≤ 70 := by omega
    have hfull : ¬ name.length = 71 := by omega
    rw [rendered, if_neg hshort, if_neg hfull, names_extend, List.filter_cons_of_neg (by simpa using h),
      List.filter_nil, List.append_nil]

theorem Reading.names_foldl (hn : (r.names ++ ps.map Prod.fst).Nodup) :
    (ps.foldl (fun (r : Reading) p => r.rendered p.1 p.2) r).names =
      r.names ++ (ps.map Prod.fst).filter (·.length ≤ 71) := by
  induction ps generalizing r with
  | nil => exact (List.append_nil _).symm
  | cons p ps ih =>
    obtain ⟨hnew, hlater⟩ := List.nodup_cons.mp (List.nodup_middle.mp hn)
    have hnames := names_rendered (fun hmem => hnew (List.mem_append_left _ hmem)) p.2
    have hsub : ((r.rendered p.1 p.2).names ++ ps.map Prod.fst).Nodup := by
      refine hn.sublist ?_
      rw [hnames, List.map_cons, List.append_assoc]
      exact (List.Sublist.refl _).append (List.filter_sublist.append (List.Sublist.refl _))
    rw [List.foldl_cons, ih hsub, hnames, List.append_assoc, ← List.filter_append]
    rfl

theorem Reading.pairs_foldl (hn : (r.names ++ ps.map Prod.fst).Nodup)
    (h : ∀ p ∈ ps, p.1.length ≤ 71) :
    (ps.foldl (fun (r : Reading) p => r.rendered p.1 p.2) r).attributes.pairs =
      r.attributes.pairs ++ ps.map fun p => (p.1, if p.1.length ≤ 70 then p.2 else " " ++ p.2) := by
  induction ps generalizing r with
  | nil => exact (List.append_nil _).symm
  | cons p ps ih =>
    obtain ⟨hnew, -⟩ := List.nodup_cons.mp (List.nodup_middle.mp hn)
    have hpairs := pairs_rendered (fun hmem => hnew (List.mem_append_left _ hmem))
      (h p List.mem_cons_self) p.2
    have hlater : ((r.rendered p.1 p.2).names ++ ps.map Prod.fst).Nodup := by
      rw [names, hpairs, List.map_append, List.append_assoc]
      exact hn
    rw [List.foldl_cons, ih hlater fun q hq => h q (List.mem_cons_of_mem _ hq), hpairs, List.append_assoc]
    rfl

/-- A manifest reads back exactly when no name is longer than 70 bytes. -/
theorem parse_render_iff (hnames : ∀ p ∈ a.pairs, isName p.1 = true)
    (hvalues : ∀ p ∈ a.pairs, isValue p.2 = true) :
    parse (render a) = a ↔ ∀ p ∈ a.pairs, p.1.length ≤ 70 := by
  rw [parse_render hnames hvalues]
  have hnodup : (Reading.names {} ++ a.pairs.map Prod.fst).Nodup := a.nodup
  constructor
  · intro h
    have hkept : (a.pairs.map Prod.fst).filter (·.length ≤ 71) = a.pairs.map Prod.fst := by
      rw [← List.nil_append (List.filter _ _)]
      exact (Reading.names_foldl hnodup).symm.trans (congrArg (fun b => b.pairs.map Prod.fst) h)
    have hall : ∀ p ∈ a.pairs, p.1.length ≤ 71 := by
      intro p hp
      simpa using List.filter_eq_self.mp hkept p.1 (List.mem_map_of_mem hp)
    have hpairs := Reading.pairs_foldl hnodup hall
    rw [h] at hpairs
    intro p hp
    by_contra hlong
    have hvalue := List.map_inj_left.mp (hpairs.symm.trans (List.map_id a.pairs).symm) p hp
    rw [if_neg hlong] at hvalue
    have hlength : 1 + p.2.length = p.2.length := by
      simpa using congrArg (fun q => q.2.length) hvalue
    omega
  · intro h
    refine Attributes.eq_of_pairs ?_
    rw [Reading.pairs_foldl hnodup fun p hp => Nat.le_succ_of_le (h p hp)]
    refine (List.map_congr_left fun p hp => ?_).trans (List.map_id _)
    rw [if_pos (h p hp), id_eq]

def classPath : Attributes :=
  .ofList [("Class-Path", String.ofList (List.replicate 150 'é'))]

theorem class_path_read_back : parse (render classPath) = classPath := by
  have hnames : ∀ p ∈ classPath.pairs, isName p.1 = true := by decide
  have hvalues : ∀ p ∈ classPath.pairs, isValue p.2 = true := by
    intro p hp
    obtain rfl : p = ("Class-Path", String.ofList (List.replicate 150 'é')) := List.mem_singleton.mp hp
    rw [isValue_iff, String.toList_ofList]
    simp
  exact (parse_render_iff hnames hvalues).mpr (by decide +kernel)

def longNames : Attributes :=
  .ofList [(String.ofList (List.replicate 71 'x'), "v"), (String.ofList (List.replicate 72 'y'), "w")]

theorem long_names_not_read_back :
    (∀ p ∈ longNames.pairs, isName p.1 = true ∧ isValue p.2 = true) ∧
      (parse (render longNames)).pairs = [(String.ofList (List.replicate 71 'x'), " v: w")] ∧
      parse (render longNames) ≠ longNames := by
  have hparsed : (parse (render longNames)).pairs =
      [(String.ofList (List.replicate 71 'x'), " v: w")] := by
    decide +kernel
  refine ⟨by decide +kernel, hparsed, fun hsame => ?_⟩
  rw [hsame] at hparsed
  exact absurd hparsed (by decide +kernel)

end FatJar.Manifest
