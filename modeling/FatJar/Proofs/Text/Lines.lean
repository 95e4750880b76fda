import FatJar.Proofs.Text.Parts
import FatJar.Text.Blank
import Mathlib.Data.List.Chain

namespace FatJar

theorem trim_append_blank {c : Char} (hc : isBlank c = true) (cs : List Char) :
    trim (cs ++ [c]) = trim cs := by
  have hend : ∀ ds : List Char, trimEnd (ds ++ [c]) = trimEnd ds := by
    intro ds
    simp [trimEnd, hc]
  unfold trim trimStart
  rw [List.dropWhile_append]
  split
  · next hempty =>
    have h : cs.dropWhile isBlank = [] := by simpa using hempty
    simp [h, hc, trimEnd]
  · exact hend _

theorem upTo_append (sep : Char) (cs ds : List Char) :
    upTo sep (cs ++ ds) = if sep ∈ cs then upTo sep cs else cs ++ upTo sep ds := by
  induction cs with
  | nil => simp
  | cons c cs ih =>
    unfold upTo at ih ⊢
    by_cases hc : c = sep
    · simp [hc]
    · have hs : ¬ sep = c := fun h => hc h.symm
      by_cases hm : sep ∈ cs <;> simp_all

theorem trim_upTo_dropReturn {sep : Char} (hsep : sep ≠ '\r') (line : List Char) :
    trim (upTo sep (dropReturn line)) = trim (upTo sep line) := by
  unfold dropReturn
  split
  · next hlast =>
    obtain ⟨cs, rfl⟩ := List.getLast?_eq_some_iff.mp hlast
    rw [List.dropLast_concat, upTo_append]
    split
    · rfl
    · next hno =>
      have hr : upTo sep ['\r'] = ['\r'] := by
        have : ('\r' != sep) = true := by simpa using hsep.symm
        simp [upTo, this]
      have hcs : upTo sep cs = cs := by
        have h := upTo_append sep cs []
        simpa [hno, upTo] using h
      rw [hr, hcs, trim_append_blank rfl]
  · rfl

theorem trim_eq_self_of_ends {cs : List Char} (hhead : ∀ c ∈ cs.head?, isBlank c = false)
    (hlast : ∀ c ∈ cs.getLast?, isBlank c = false) : trim cs = cs := by
  have hstart : ∀ ds : List Char, (∀ c ∈ ds.head?, isBlank c = false) → ds.dropWhile isBlank = ds := by
    intro ds hds
    cases ds with
    | nil => rfl
    | cons c ds => rw [List.dropWhile_cons, hds c rfl, if_neg Bool.false_ne_true]
  rw [trim, trimStart, trimEnd, hstart cs hhead, hstart, List.reverse_reverse]
  rwa [List.head?_reverse]

theorem trim_eq_self {cs : List Char} (h : ∀ c ∈ cs, isBlank c = false) : trim cs = cs :=
  trim_eq_self_of_ends (fun c hc => h c (List.mem_of_head? hc)) fun c hc => h c (List.mem_of_getLast? hc)

theorem isBlank_getLast?_trim {c : Char} {cs : List Char} (h : c ∈ (trim cs).getLast?) :
    isBlank c = false := by
  have hend := List.head?_dropWhile_not isBlank (trimStart cs).reverse
  rw [trim, trimEnd, List.getLast?_reverse] at h
  rw [Option.mem_def.mp h] at hend
  simpa using hend

theorem trimEnd_prefix (cs : List Char) : trimEnd cs <+: cs := by
  rw [trimEnd, ← List.reverse_suffix, List.reverse_reverse]
  exact List.dropWhile_suffix isBlank

theorem isBlank_head?_trim {c : Char} {cs : List Char} (h : c ∈ (trim cs).head?) : isBlank c = false := by
  have hstart := List.head?_dropWhile_not isBlank cs
  -- What is cut off the end leaves the first character in its place.
  have hhead : (trimStart cs).head? = some c := by
    obtain ⟨rest, hrest⟩ := List.head?_eq_some_iff.mp h
    obtain ⟨blanks, hblanks⟩ := trimEnd_prefix (trimStart cs)
    rw [← hblanks, ← trim, hrest, List.cons_append, List.head?_cons]
  rw [← trimStart, hhead] at hstart
  simpa using hstart

theorem trim_trim (cs : List Char) : trim (trim cs) = trim cs :=
  trim_eq_self_of_ends (fun _ => isBlank_head?_trim) fun _ => isBlank_getLast?_trim

theorem physicalLines_append {line : List Char} (h : '\n' ∉ line) (rest : List Char) :
    physicalLines (line ++ '\n' :: rest) = dropReturn line :: physicalLines rest := by
  rw [physicalLines, List.splitOn_append_cons_self_of_not_mem h, List.map_cons]
  rfl

theorem mem_of_mem_dropReturn {c : Char} {line : List Char} (h : c ∈ dropReturn line) : c ∈ line := by
  unfold dropReturn at h
  split at h
  · exact (List.dropLast_sublist line).subset h
  · exact h

theorem mem_of_mem_physicalLine {c : Char} {cs line : List Char} (hline : line ∈ physicalLines cs)
    (h : c ∈ line) : c ∈ cs ∧ c ≠ '\n' := by
  obtain ⟨part, hpart, rfl⟩ := List.mem_map.mp hline
  have hc := mem_of_mem_dropReturn h
  refine ⟨mem_of_mem_part hpart hc, ?_⟩
  rintro rfl
  exact (part_of_mem hpart).1 hc

/-- No carriage return stands anywhere but before a line feed and at the end. -/
def ReturnsEndLines (cs : List Char) : Prop :=
  cs.IsChain fun c d => c = '\r' → d = '\n'

theorem ReturnsEndLines.notMem {cs line : List Char} (h : ReturnsEndLines cs)
    (hline : line ∈ physicalLines cs) : '\r' ∉ line := by
  obtain ⟨part, hpart, rfl⟩ := List.mem_map.mp hline
  obtain ⟨hno, hinfix⟩ := part_of_mem hpart
  -- A return that is not the last character of the part would stand before a line feed of the part.
  have hlast : ∀ before after, part = before ++ '\r' :: after → after = [] := by
    rintro before (- | ⟨c, after⟩) rfl
    · rfl
    · have hinside := List.IsChain.infix h hinfix
      have hchain := List.IsChain.right_of_append hinside
      have hc : c = '\n' := (List.isChain_cons_cons.mp hchain).1 rfl
      exact absurd (by simp [hc]) hno
  intro hmem
  unfold dropReturn at hmem
  split at hmem
  · next hreturn =>
    obtain ⟨line, rfl⟩ := List.getLast?_eq_some_iff.mp hreturn
    rw [List.dropLast_concat] at hmem
    obtain ⟨before, after, rfl⟩ := List.append_of_mem hmem
    have hnil := hlast before (after ++ ['\r']) (by simp)
    simp at hnil
  · next hno =>
    obtain ⟨before, after, rfl⟩ := List.append_of_mem hmem
    obtain rfl := hlast before after rfl
    exact hno (by simp)

end FatJar
