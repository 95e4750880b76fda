import FatJar.Proofs.Manifest.Rendering
import Mathlib.Data.List.Forall2

namespace FatJar.Manifest

def isBreak (c : Char) : Bool :=
  c == '\r' || c == '\n'

def isHeaderLine (line : List Char) : Bool :=
  !line.isEmpty && line.head? != some ' '

/-- The lines that begin an attribute, for a reader to whom any carriage return or line feed ends one. -/
def headerLines (text : List Char) : List (List Char) :=
  (text.splitOnP isBreak).filter isHeaderLine

variable {first rest : List Char} {more : List (List Char)} {name value : String}

theorem headerLines_append (h : ∀ c ∈ first, isBreak c = false) (rest : List Char) :
    headerLines (first ++ lineEnd ++ rest) = [first].filter isHeaderLine ++ headerLines rest := by
  have hline : first ++ lineEnd ++ rest = first ++ '\r' :: ([] ++ '\n' :: rest) := by simp [lineEnd]
  have hempty : ∀ c ∈ ([] : List Char), isBreak c = false := fun c hc => absurd hc List.not_mem_nil
  have hsplit : (first ++ lineEnd ++ rest).splitOnP isBreak =
      [first] ++ ([[]] ++ rest.splitOnP isBreak) := by
    rw [hline, List.splitOnP_append_cons_of_forall_mem h _ rfl,
      List.splitOnP_append_cons_of_forall_mem hempty _ rfl]
    rfl
  rw [headerLines, hsplit, List.filter_append, List.filter_append]
  rfl

theorem headerLines_folded (hfirst : ∀ c ∈ first, isBreak c = false)
    (hmore : ∀ c ∈ more.flatten, isBreak c = false) (rest : List Char) :
    headerLines (first ++ continued more ++ lineEnd ++ rest) =
      [first].filter isHeaderLine ++ headerLines rest := by
  induction more generalizing first with
  | nil =>
    rw [continued, List.flatMap_nil, List.append_nil]
    exact headerLines_append hfirst rest
  | cons cs more ih =>
    rw [List.flatten_cons, List.forall_mem_append] at hmore
    have hnext : ∀ c ∈ ' ' :: cs, isBreak c = false := by
      rintro c (- | ⟨-, hc⟩)
      · rfl
      · exact hmore.1 c hc
    have hsplit : first ++ continued (cs :: more) ++ lineEnd ++ rest =
        first ++ lineEnd ++ (' ' :: cs ++ continued more ++ lineEnd ++ rest) := by
      simp [continued]
    rw [hsplit, headerLines_append hfirst, ih hnext hmore.2]
    rfl

theorem isBreak_of_isBlank {c : Char} (h : isBlank c = false) : isBreak c = false := by
  refine Bool.eq_false_iff.mpr fun hbreak => ?_
  obtain hc | hc := Bool.or_eq_true_iff.mp hbreak <;>
    exact absurd h (by rw [eq_of_beq hc]; decide)

theorem isBreak_of_isValue (h : isValue value = true) {c : Char} (hc : c ∈ value.toList) :
    isBreak c = false := by
  obtain ⟨hreturn, hfeed, -⟩ := isValue_iff.mp h
  refine Bool.eq_false_iff.mpr fun hbreak => ?_
  obtain hbreak | hbreak := Bool.or_eq_true_iff.mp hbreak
  · exact hreturn (eq_of_beq hbreak ▸ hc)
  · exact hfeed (eq_of_beq hbreak ▸ hc)

theorem isBreak_logicalLine (hname : isName name = true) (hvalue : isValue value = true) :
    ∀ c ∈ logicalLine name value, isBreak c = false := by
  intro c hc
  obtain hc | hc := List.mem_append.mp hc
  · exact isBreak_of_isBlank (plain_of_isNameChar ((isName_iff.mp hname).2 c hc)).1
  · obtain rfl | hc := List.mem_cons.mp hc
    · rfl
    obtain rfl | hc := List.mem_cons.mp hc
    · rfl
    · exact isBreak_of_isValue hvalue hc

theorem isHeaderLine_of_begins (hname : isName name = true) (hfirst : first <+: logicalLine name value)
    (hne : first ≠ []) : isHeaderLine first = true := by
  have hspace := head_ne_of_begins hname hfirst
  simp [isHeaderLine, hne, hspace]

theorem forall₂_headerLines {ps : List (String × String)} (hnames : ∀ p ∈ ps, isName p.1 = true)
    (hvalues : ∀ p ∈ ps, isValue p.2 = true) :
    List.Forall₂ (fun p line => line <+: logicalLine p.1 p.2) ps
      (headerLines
        (ps.flatMap (fun p => fold lineWidth (logicalLine p.1 p.2) ++ lineEnd) ++ lineEnd)) := by
  induction ps with
  | nil => exact .nil
  | cons p ps ih =>
    have hname := hnames p List.mem_cons_self
    obtain ⟨first, more, hfold⟩ := exists_folded_attribute hname p.2
    have hprefix : first <+: logicalLine p.1 p.2 := ⟨more.flatten, hfold.whole.symm⟩
    have hplain := isBreak_logicalLine hname (hvalues p List.mem_cons_self)
    rw [hfold.whole, List.forall_mem_append] at hplain
    rw [List.flatMap_cons, hfold.fold_eq, List.append_assoc, headerLines_folded hplain.1 hplain.2,
      List.filter_cons_of_pos (isHeaderLine_of_begins hname hprefix hfold.ne_nil)]
    exact .cons hprefix (ih (fun q hq => hnames q (List.mem_cons_of_mem _ hq))
      fun q hq => hvalues q (List.mem_cons_of_mem _ hq))

theorem headerLines_render {a : Attributes} (hnames : ∀ p ∈ a.pairs, isName p.1 = true)
    (hvalues : ∀ p ∈ a.pairs, isValue p.2 = true) :
    List.Forall₂ (fun p line => line <+: logicalLine p.1 p.2) a.pairs
      (headerLines (Utf8.decodeLossy (render a))) := by
  rw [render, Utf8.decodeLossy_encode]
  exact forall₂_headerLines hnames hvalues

end FatJar.Manifest
