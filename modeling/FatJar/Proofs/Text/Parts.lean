import FatJar.Text.Lines
import Mathlib.Data.List.TakeDrop
import Mathlib.Data.List.TakeWhile

namespace FatJar

section Splitting

variable {sep c : Char} {cs : List Char}

theorem exists_part_of_mem (h : c ∈ cs) (hne : c ≠ sep) : ∃ part ∈ cs.splitOn sep, c ∈ part := by
  induction cs with
  | nil => simp at h
  | cons x cs ih =>
    rw [List.splitOn_cons_eq_if_modifyHead]
    obtain ⟨first, rest, hs⟩ := List.exists_cons_of_ne_nil (List.splitOn_ne_nil sep cs)
    rw [hs] at ih ⊢
    split
    · next hx =>
      obtain rfl := eq_of_beq hx
      obtain ⟨part, hpart, hc⟩ := ih ((List.mem_cons.mp h).resolve_left hne)
      exact ⟨part, List.mem_cons_of_mem _ hpart, hc⟩
    · rw [List.modifyHead_cons]
      obtain rfl | h := List.mem_cons.mp h
      · exact ⟨c :: first, List.mem_cons_self, List.mem_cons_self⟩
      · obtain ⟨part, hpart, hc⟩ := ih h
        obtain rfl | hpart := List.mem_cons.mp hpart
        · exact ⟨x :: part, List.mem_cons_self, List.mem_cons_of_mem _ hc⟩
        · exact ⟨part, List.mem_cons_of_mem _ hpart, hc⟩

@[elab_as_elim]
theorem parts_induction (sep : Char) {motive : List Char → Prop}
    (last : ∀ part, sep ∉ part → motive part)
    (cons : ∀ part rest, sep ∉ part → motive rest → motive (part ++ sep :: rest)) (cs : List Char) :
    motive cs := by
  induction hn : cs.length using Nat.strongRecOn generalizing cs with
  | _ n ih =>
    by_cases hmem : sep ∈ cs
    · obtain ⟨part, rest, rfl, hpart⟩ := List.eq_append_cons_of_mem hmem
      refine cons part rest hpart (ih rest.length ?_ rest rfl)
      rw [← hn, List.length_append, List.length_cons]
      omega
    · exact last cs hmem

theorem part_of_mem {part : List Char} (h : part ∈ cs.splitOn sep) : sep ∉ part ∧ part <:+: cs := by
  induction cs using parts_induction sep with
  | last cs hno =>
    rw [List.splitOn_eq_singleton hno, List.mem_singleton] at h
    rw [h]
    exact ⟨hno, List.infix_refl cs⟩
  | cons first rest hno ih =>
    rw [List.splitOn_append_cons_self_of_not_mem hno, List.mem_cons] at h
    obtain rfl | h := h
    · exact ⟨hno, (List.prefix_append part _).isInfix⟩
    · obtain ⟨hnone, hinfix⟩ := ih h
      exact ⟨hnone, hinfix.trans ((List.suffix_cons sep rest).trans (List.suffix_append _ _)).isInfix⟩

theorem mem_of_mem_part {part : List Char} (hpart : part ∈ cs.splitOn sep) (h : c ∈ part) :
    c ∈ cs :=
  (part_of_mem hpart).2.subset h

theorem splitOn_map_ite {sep' : Char} (h : sep' ∉ cs) :
    (cs.map fun c => if c = sep then sep' else c).splitOn sep' = cs.splitOn sep := by
  induction cs with
  | nil => rfl
  | cons x cs ih =>
    rw [List.mem_cons, not_or] at h
    rw [List.map_cons, List.splitOn_cons_eq_if_modifyHead, List.splitOn_cons_eq_if_modifyHead, ih h.2]
    by_cases hx : x = sep
    · simp [hx]
    · simp [hx, Ne.symm h.1]

variable {ds es : List Char}

theorem cutAt?_append_cons (h : sep ∉ ds) (es : List Char) :
    cutAt? sep (ds ++ sep :: es) = some (ds, es) := by
  have hall : ∀ c ∈ ds, (c != sep) = true := by
    intro c hc
    simpa using fun he : c = sep => h (he ▸ hc)
  unfold cutAt?
  rw [List.span_eq_takeWhile_dropWhile, List.takeWhile_append_of_pos hall,
    List.dropWhile_append_of_pos hall]
  simp

theorem eq_of_cutAt? (h : cutAt? sep cs = some (ds, es)) : cs = ds ++ sep :: es ∧ sep ∉ ds := by
  unfold cutAt? at h
  rw [List.span_eq_takeWhile_dropWhile] at h
  have hparts := List.takeWhile_append_dropWhile (p := (· != sep)) (l := cs)
  have hhead := List.head?_dropWhile_not (· != sep) cs
  split at h
  · simp at h
  · next head c tail hs =>
    obtain ⟨rfl, rfl⟩ := Prod.mk.inj (Option.some.inj h)
    obtain ⟨rfl, hdrop⟩ := Prod.mk.inj hs
    rw [hdrop] at hparts hhead
    have hc : c = sep := by simpa using hhead
    subst hc
    refine ⟨hparts.symm, fun hmem => ?_⟩
    simpa using List.mem_takeWhile_imp hmem

theorem exists_cutAt?_of_mem (h : sep ∈ cs) : ∃ ds es, cutAt? sep cs = some (ds, es) := by
  obtain ⟨ds, es, rfl, hds⟩ := List.eq_append_cons_of_mem h
  exact ⟨ds, es, cutAt?_append_cons hds es⟩

theorem cutAt?_eq_none_iff : cutAt? sep cs = none ↔ sep ∉ cs := by
  constructor
  · intro h hmem
    obtain ⟨ds, es, hcut⟩ := exists_cutAt?_of_mem hmem
    rw [hcut] at h
    cases h
  · intro hno
    cases hcut : cutAt? sep cs with
    | none => rfl
    | some p => exact absurd (by simp [(eq_of_cutAt? hcut).1]) hno

/-- A text cannot begin with a word when a character of the word is missing up to the first place
where it differs. -/
theorem not_prefix_append_cons {word : List Char} (hc : c ∈ word) (hsep : sep ∉ word) (hd : c ∉ ds)
    (es : List Char) : ¬ word <+: ds ++ sep :: es := by
  rintro ⟨rest, h⟩
  obtain ⟨more, rfl, -⟩ | ⟨more, rfl, hmore⟩ := List.append_eq_append_iff.mp h
  · exact hd (List.mem_append_left _ hc)
  · cases more with
    | nil => exact hd (by simpa using hc)
    | cons x more =>
      obtain ⟨rfl, -⟩ := List.cons.inj hmore
      exact hsep (by simp)

theorem suffix_append_cons_iff {word : List Char} (h : sep ∉ word) :
    word <:+ cs ++ sep :: ds ↔ word <:+ ds := by
  constructor
  · intro hword
    have hend : sep :: ds <:+ cs ++ sep :: ds := List.suffix_append _ _
    obtain hs | hs := List.suffix_or_suffix_of_suffix hword hend
    · obtain rfl | hs := List.suffix_cons_iff.mp hs
      · exact absurd List.mem_cons_self h
      · exact hs
    · exact absurd (hs.subset List.mem_cons_self) h
  · intro hword
    exact hword.trans ((List.suffix_cons sep ds).trans (List.suffix_append cs _))

end Splitting

/-- Non-empty parts of characters that satisfy `p` with `sep` between them. -/
def Joined (sep : Char) (p : Char → Bool) (cs : List Char) : Prop :=
  ∀ part ∈ cs.splitOn sep, part ≠ [] ∧ ∀ c ∈ part, p c = true

namespace Joined

variable {sep c : Char} {p : Char → Bool} {cs ds : List Char}

theorem iff_all :
    Joined sep p cs ↔ (cs.splitOn sep).all (fun part => !part.isEmpty && part.all p) = true := by
  simp [Joined]

instance : Decidable (Joined sep p cs) :=
  decidable_of_iff _ iff_all.symm

theorem append_iff : Joined sep p (cs ++ sep :: ds) ↔ Joined sep p cs ∧ Joined sep p ds := by
  unfold Joined
  rw [List.splitOn_append_cons_self]
  exact List.forall_mem_append

theorem ne_nil (h : Joined sep p cs) : cs ≠ [] := by
  rintro rfl
  exact (h [] (by simp)).1 rfl

theorem of_mem (h : Joined sep p cs) (hc : c ∈ cs) : c = sep ∨ p c = true := by
  by_cases hs : c = sep
  · exact .inl hs
  · obtain ⟨part, hpart, hmem⟩ := exists_part_of_mem hc hs
    exact .inr ((h part hpart).2 c hmem)

theorem of_cons (h : Joined sep p (c :: cs)) : p c = true := by
  obtain rfl | hc := h.of_mem List.mem_cons_self
  · have hnil : Joined c p [] := (append_iff.mp h).1
    exact absurd rfl hnil.ne_nil
  · exact hc

end Joined

end FatJar
