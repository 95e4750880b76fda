import FatJar.Proofs.Manifest.Rendering
import FatJar.Proofs.Text.Validity

namespace FatJar.Manifest

def carriageReturn : UInt8 := 0x0D

def lineFeed : UInt8 := 0x0A

def space : UInt8 := 0x20

def crlf : Bytes := [carriageReturn, lineFeed]

/-- Whether a character begins at a place of a text, or the text ends there. -/
def isBoundary (text : Bytes) (place : Nat) : Bool :=
  match text[place]? with
  | some b => !Utf8.isContinuation b
  | none => place == text.length

/-- The last boundary up to a place, for which the beginning of the text counts too. -/
def lastBoundary (text : Bytes) : (place : Nat) → Nat
  | 0 => 0
  | place + 1 => if isBoundary text (place + 1) then place + 1 else lastBoundary text place

/-- Where a line of at most `limit` bytes is cut off a text. -/
def cutPlace (limit : Nat) (text : Bytes) : Nat :=
  if text.length ≤ limit then text.length else lastBoundary text limit

/-- A text is cut into lines until nothing is left of it. The first line has at most `limit` bytes, and each
one after it is a byte narrower, for it begins with a space. -/
inductive Wraps : (limit : Nat) → (text out : Bytes) → Prop
  | last {limit : Nat} {text : Bytes} (h : text.drop (cutPlace limit text) = []) :
      Wraps limit text (text.take (cutPlace limit text) ++ crlf)
  | more {limit : Nat} {text out : Bytes} (h : text.drop (cutPlace limit text) ≠ [])
      (tail : Wraps (lineWidth - 1) (text.drop (cutPlace limit text)) out) :
      Wraps limit text (text.take (cutPlace limit text) ++ crlf ++ space :: out)

structure IsPhysicalLine (line : Bytes) : Prop where
  ne_nil : line ≠ []
  length_le : line.length ≤ lineWidth
  valid : Utf8.isValid line = true
  noReturn : carriageReturn ∉ line
  noFeed : lineFeed ∉ line

/-- Takes out each end of a line with a space behind it. -/
def withoutFolds : Bytes → Bytes
  | a :: b :: c :: rest =>
    if a = carriageReturn ∧ b = lineFeed ∧ c = space then withoutFolds rest
    else a :: withoutFolds (b :: c :: rest)
  | rest => rest

def attributeLine (p : String × String) : Bytes :=
  Utf8.encode (logicalLine p.1 p.2)

def unfoldedForm (ps : List (String × String)) : Bytes :=
  ps.flatMap (fun p => attributeLine p ++ crlf) ++ crlf

def foldedForm (ps : List (String × String)) : Bytes :=
  ps.flatMap (fun p => Utf8.encode (fold lineWidth (logicalLine p.1 p.2)) ++ crlf) ++ crlf

def Unbroken (s : String) : Prop :=
  '\r' ∉ s.toList ∧ '\n' ∉ s.toList

instance (s : String) : Decidable (Unbroken s) :=
  inferInstanceAs (Decidable ('\r' ∉ s.toList ∧ '\n' ∉ s.toList))

variable {limit place k : Nat} {text bs rest : Bytes} {cs fit left first : List Char}
  {more : List (List Char)} {p q : String × String} {ps : List (String × String)} {a : Attributes}

theorem encode_lineEnd : Utf8.encode lineEnd = crlf := by
  decide

theorem encode_space_cons (cs : List Char) : Utf8.encode (' ' :: cs) = space :: Utf8.encode cs :=
  Utf8.encode_cons_ascii (by decide) cs

section Cutting

theorem lastBoundary_eq (hk : k ≤ limit) (hboundary : k = 0 ∨ isBoundary text k = true)
    (hno : ∀ place, k < place → place ≤ limit → isBoundary text place = false) :
    lastBoundary text limit = k := by
  induction limit with
  | zero => exact (Nat.le_zero.mp hk).symm
  | succ limit ih =>
    rw [lastBoundary]
    by_cases hlast : k = limit + 1
    · subst hlast
      exact if_pos (hboundary.resolve_left (Nat.succ_ne_zero limit))
    · have hlt : k < limit + 1 := Nat.lt_of_le_of_ne hk hlast
      rw [hno (limit + 1) hlt le_rfl, if_neg Bool.false_ne_true]
      exact ih (Nat.le_of_lt_succ hlt) fun place hplace hle => hno place hplace (Nat.le_succ_of_le hle)

theorem cutPlace_encode (hfit : (Utf8.encode fit).length ≤ limit)
    (hleft : ∀ c ∈ left.head?, limit < (Utf8.encode fit).length + c.utf8Size) :
    cutPlace limit (Utf8.encode (fit ++ left)) = (Utf8.encode fit).length := by
  cases left with
  | nil => rw [List.append_nil, cutPlace, if_pos hfit]
  | cons c left =>
    have hlimit := hleft c rfl
    obtain ⟨lead, conts, hchar, hlead, hconts⟩ := Utf8.exists_encodeChar_eq c
    have hsize : conts.length + 1 = c.utf8Size := by
      rw [← String.length_utf8EncodeChar, hchar, List.length_cons]
    have htext : Utf8.encode (fit ++ c :: left) =
        Utf8.encode fit ++ lead :: (conts ++ Utf8.encode left) := by
      rw [Utf8.encode_append, Utf8.encode_cons, hchar, List.cons_append]
    have hlong : ¬ (Utf8.encode fit ++ lead :: (conts ++ Utf8.encode left)).length ≤ limit := by
      simp only [List.length_append, List.length_cons]
      omega
    rw [htext, cutPlace, if_neg hlong]
    refine lastBoundary_eq hfit (.inr ?_) fun place hplace hle => ?_
    · simp [isBoundary, hlead]
    · obtain ⟨i, rfl⟩ := Nat.exists_eq_add_of_lt hplace
      have hi : i < conts.length := by omega
      have hbyte : (Utf8.encode fit ++ lead :: (conts ++ Utf8.encode left))[
          (Utf8.encode fit).length + i + 1]? = some conts[i] := by
        rw [Nat.add_assoc, List.getElem?_append_right (Nat.le_add_right _ _), Nat.add_sub_cancel_left,
          List.getElem?_cons_succ, List.getElem?_append_left hi, List.getElem?_eq_getElem hi]
      simp [isBoundary, hbyte, hconts _ (List.getElem_mem hi)]

theorem exists_fold_eq (limit : Nat) (cs : List Char) :
    ∃ fit left, cs = fit ++ left ∧ (Utf8.encode fit).length ≤ limit ∧
      (∀ c ∈ left.head?, limit < (Utf8.encode fit).length + c.utf8Size) ∧
      fold limit cs = fit ++ if left = [] then [] else lineEnd ++ ' ' :: fold (lineWidth - 1) left := by
  induction cs generalizing limit with
  | nil => exact ⟨[], [], rfl, Nat.zero_le _, by simp, rfl⟩
  | cons c cs ih =>
    by_cases hfits : c.utf8Size ≤ limit
    · obtain ⟨fit, left, rfl, hfit, hleft, hfold⟩ := ih (limit - c.utf8Size)
      have hlength : (Utf8.encode (c :: fit)).length = c.utf8Size + (Utf8.encode fit).length := by
        rw [Utf8.encode_cons, List.length_append, String.length_utf8EncodeChar]
      refine ⟨c :: fit, left, rfl, by omega, fun d hd => ?_, by rw [fold, if_pos hfits, hfold]; rfl⟩
      have hlast := hleft d hd
      omega
    · have hnext : c.utf8Size ≤ lineWidth - 1 := c.utf8Size_le_four.trans (by decide)
      refine ⟨[], c :: cs, rfl, Nat.zero_le _, ?_, ?_⟩
      · rintro d ⟨⟩
        rw [Utf8.encode_nil, List.length_nil, Nat.zero_add]
        exact Nat.lt_of_not_le hfits
      · rw [fold, if_neg hfits, if_neg (List.cons_ne_nil c cs), fold, if_pos hnext]
        rfl

/-- The loop comes to an end wherever a character fits on a line, and what it writes is the folded text. -/
theorem wraps_fold (hlimit : 4 ≤ limit) (cs : List Char) :
    Wraps limit (Utf8.encode cs) (Utf8.encode (fold limit cs) ++ crlf) := by
  induction hn : cs.length using Nat.strong_induction_on generalizing limit cs with
  | _ n ih =>
    subst hn
    obtain ⟨fit, left, rfl, hfit, hleft, hfold⟩ := exists_fold_eq limit cs
    have hcut := cutPlace_encode hfit hleft
    have htake : (Utf8.encode (fit ++ left)).take (cutPlace limit (Utf8.encode (fit ++ left))) =
        Utf8.encode fit := by
      rw [hcut, Utf8.encode_append, List.take_left]
    have hdrop : (Utf8.encode (fit ++ left)).drop (cutPlace limit (Utf8.encode (fit ++ left))) =
        Utf8.encode left := by
      rw [hcut, Utf8.encode_append, List.drop_left]
    by_cases hdone : left = []
    · have hlast : Wraps limit (Utf8.encode (fit ++ left)) _ :=
        .last (hdrop.trans (Utf8.encode_eq_nil_iff.mpr hdone))
      rw [htake] at hlast
      rwa [hfold, if_pos hdone, List.append_nil]
    · have hshorter : left.length < (fit ++ left).length := by
        -- A line that takes no character at all would leave no room for the next one.
        have hne : fit ≠ [] := by
          rintro rfl
          obtain ⟨c, left, rfl⟩ := List.exists_cons_of_ne_nil hdone
          have hlt := hleft c rfl
          have hsize := c.utf8Size_le_four
          rw [Utf8.encode_nil, List.length_nil] at hlt
          omega
        have hpos := List.length_pos_of_ne_nil hne
        rw [List.length_append]
        omega
      have htail := ih left.length hshorter (by decide : 4 ≤ lineWidth - 1) left rfl
      rw [← hdrop] at htail
      have hmore := Wraps.more (fun hnil => hdone (Utf8.encode_eq_nil_iff.mp (hdrop.symm.trans hnil))) htail
      rw [htake] at hmore
      have hfolded : Utf8.encode (fit ++ (lineEnd ++ ' ' :: fold (lineWidth - 1) left)) ++ crlf =
          Utf8.encode fit ++ crlf ++ space :: (Utf8.encode (fold (lineWidth - 1) left) ++ crlf) := by
        simp only [Utf8.encode_append, encode_lineEnd, encode_space_cons, List.append_assoc, List.cons_append]
      rwa [hfold, if_neg hdone, hfolded]

end Cutting

section Lines

theorem notMem_encode {b : UInt8} (hb : b < 0x80) (h : Char.ofNat b.toNat ∉ cs) :
    b ∉ Utf8.encode cs := by
  intro hmem
  have hchar := Utf8.mem_decodeLossy_of_byte hmem hb
  rw [Utf8.decodeLossy_encode] at hchar
  exact h hchar

theorem isPhysicalLine_encode (hne : cs ≠ []) (hlength : (Utf8.encode cs).length ≤ lineWidth)
    (hreturn : '\r' ∉ cs) (hfeed : '\n' ∉ cs) : IsPhysicalLine (Utf8.encode cs) where
  ne_nil := fun hnil => hne (Utf8.encode_eq_nil_iff.mp hnil)
  length_le := hlength
  valid := Utf8.isValid_encode cs
  noReturn := notMem_encode (by decide) hreturn
  noFeed := notMem_encode (by decide) hfeed

theorem continued_cons (text : List Char) (more : List (List Char)) :
    continued (text :: more) = lineEnd ++ ' ' :: (text ++ continued more) := by
  simp [continued]

theorem encode_continued (first : List Char) (more : List (List Char)) :
    Utf8.encode (first ++ continued more) ++ crlf =
      (first :: more.map (' ' :: ·)).flatMap fun line => Utf8.encode line ++ crlf := by
  induction more generalizing first with
  | nil => simp [continued]
  | cons text more ih =>
    rw [continued_cons, ← List.cons_append, Utf8.encode_append, Utf8.encode_append, encode_lineEnd, List.append_assoc,
      List.append_assoc, ih, List.map_cons, ← List.append_assoc]
    rfl

theorem exists_logicalLine_eq (name value : String) : ∃ c cs, logicalLine name value = c :: cs := by
  refine List.exists_cons_of_ne_nil fun hnil => ?_
  rw [logicalLine, List.append_eq_nil_iff] at hnil
  cases hnil.2

theorem notMem_logicalLine {c : Char} (hcolon : c ≠ ':') (hspace : c ≠ ' ') {name value : String}
    (hname : c ∉ name.toList) (hvalue : c ∉ value.toList) : c ∉ logicalLine name value := by
  simp [logicalLine, hname, hcolon, hspace, hvalue]

theorem exists_lines_eq (hname : Unbroken p.1) (hvalue : Unbroken p.2) :
    ∃ lines : List Bytes, Utf8.encode (fold lineWidth (logicalLine p.1 p.2)) ++ crlf =
      lines.flatMap (· ++ crlf) ∧ ∀ line ∈ lines, IsPhysicalLine line := by
  have hreturn := notMem_logicalLine (by decide) (by decide) hname.1 hvalue.1
  have hfeed := notMem_logicalLine (by decide) (by decide) hname.2 hvalue.2
  obtain ⟨c, cs, hline⟩ := exists_logicalLine_eq p.1 p.2
  obtain ⟨first, more, hfold, hcs, hfirst, hmore⟩ := exists_folded (lineWidth - c.utf8Size) cs
  have hsize : c.utf8Size ≤ lineWidth := c.utf8Size_le_four.trans (by decide)
  have hlength : (Utf8.encode (c :: first)).length ≤ lineWidth := by
    rw [Utf8.encode_cons, List.length_append, String.length_utf8EncodeChar]
    omega
  rw [hline, hcs, ← List.cons_append, List.mem_append, not_or] at hreturn hfeed
  have hfolded : fold lineWidth (c :: cs) = c :: first ++ continued more := by
    rw [fold, if_pos hsize, hfold, List.cons_append]
  refine ⟨((c :: first) :: more.map (' ' :: ·)).map Utf8.encode, ?_, ?_⟩
  · rw [hline, hfolded, encode_continued, List.flatMap_map]
  · intro line hmem
    obtain ⟨text, htext, rfl⟩ := List.mem_map.mp hmem
    obtain rfl | htext := List.mem_cons.mp htext
    · exact isPhysicalLine_encode (List.cons_ne_nil c first) hlength hreturn.1 hfeed.1
    · obtain ⟨cut, hcut, rfl⟩ := List.mem_map.mp htext
      have hclean : ∀ x : Char, x ≠ ' ' → x ∉ more.flatten → x ∉ ' ' :: cut := by
        intro x hspace hx
        exact List.not_mem_cons_of_ne_of_not_mem hspace fun hmem => hx (List.mem_flatten_of_mem hcut hmem)
      refine isPhysicalLine_encode (List.cons_ne_nil ' ' cut) ?_ (hclean _ (by decide) hreturn.2)
        (hclean _ (by decide) hfeed.2)
      rw [encode_space_cons, List.length_cons]
      exact hmore cut hcut

end Lines

section Unfolding

theorem withoutFolds_cons {b : UInt8} (hb : b ≠ carriageReturn) (bs : Bytes) :
    withoutFolds (b :: bs) = b :: withoutFolds bs := by
  match bs with
  | [] => rfl
  | [_] => rfl
  | _ :: _ :: _ => exact if_neg fun h => hb h.1

theorem withoutFolds_append (h : carriageReturn ∉ bs) (rest : Bytes) :
    withoutFolds (bs ++ rest) = bs ++ withoutFolds rest := by
  induction bs with
  | nil => rfl
  | cons b bs ih =>
    rw [List.mem_cons, not_or] at h
    rw [List.cons_append, withoutFolds_cons (Ne.symm h.1), ih h.2, List.cons_append]

theorem withoutFolds_crlf_space (rest : Bytes) :
    withoutFolds (crlf ++ space :: rest) = withoutFolds rest :=
  if_pos ⟨rfl, rfl, rfl⟩

theorem withoutFolds_crlf (h : rest.head? ≠ some space) :
    withoutFolds (crlf ++ rest) = crlf ++ withoutFolds rest := by
  cases rest with
  | nil => rfl
  | cons b rest =>
    have hb : ¬ (carriageReturn = carriageReturn ∧ lineFeed = lineFeed ∧ b = space) :=
      fun hfold => h (congrArg some hfold.2.2)
    have hfeed : lineFeed ≠ carriageReturn := by decide
    have hhere : withoutFolds (crlf ++ b :: rest) = carriageReturn :: withoutFolds (lineFeed :: b :: rest) :=
      if_neg hb
    rw [hhere, withoutFolds_cons hfeed]
    rfl

theorem withoutFolds_folded (hreturn : '\r' ∉ first ++ more.flatten) (rest : Bytes) :
    withoutFolds (Utf8.encode (first ++ continued more) ++ rest) =
      Utf8.encode (first ++ more.flatten) ++ withoutFolds rest := by
  induction more generalizing first with
  | nil =>
    rw [List.flatten_nil, List.append_nil] at hreturn
    simpa [continued] using withoutFolds_append (notMem_encode (by decide) hreturn) rest
  | cons text more ih =>
    rw [List.flatten_cons, List.mem_append, not_or] at hreturn
    have hnext : Utf8.encode (first ++ continued (text :: more)) ++ rest =
        Utf8.encode first ++ (crlf ++ space :: (Utf8.encode (text ++ continued more) ++ rest)) := by
      simp only [continued_cons, Utf8.encode_append, encode_lineEnd, encode_space_cons, List.append_assoc,
        List.cons_append]
    rw [hnext, withoutFolds_append (notMem_encode (by decide) hreturn.1), withoutFolds_crlf_space,
      ih hreturn.2, List.flatten_cons, Utf8.encode_append first, List.append_assoc]

theorem withoutFolds_attribute (hname : Unbroken p.1) (hvalue : Unbroken p.2) (rest : Bytes) :
    withoutFolds (Utf8.encode (fold lineWidth (logicalLine p.1 p.2)) ++ rest) =
      attributeLine p ++ withoutFolds rest := by
  have hreturn := notMem_logicalLine (by decide) (by decide) hname.1 hvalue.1
  obtain ⟨first, more, hfold, hline, -⟩ := exists_folded lineWidth (logicalLine p.1 p.2)
  rw [hline] at hreturn
  rw [hfold, withoutFolds_folded hreturn, ← hline, attributeLine]

theorem foldedForm_cons (p : String × String) (ps : List (String × String)) :
    foldedForm (p :: ps) =
      Utf8.encode (fold lineWidth (logicalLine p.1 p.2)) ++ (crlf ++ foldedForm ps) := by
  simp [foldedForm]

theorem unfoldedForm_cons (p : String × String) (ps : List (String × String)) :
    unfoldedForm (p :: ps) = attributeLine p ++ (crlf ++ unfoldedForm ps) := by
  simp [unfoldedForm]

theorem encode_head?_eq_space_iff : (Utf8.encode cs).head? = some space ↔ cs.head? = some ' ' := by
  constructor
  · intro h
    obtain ⟨bs, hbs⟩ := List.head?_eq_some_iff.mp h
    have hcut : Utf8.encode cs = [] ++ space :: bs := hbs
    obtain ⟨ds, es, rfl, hds, -⟩ := Utf8.exists_of_encode_eq_append_cons hcut (by decide)
    rw [Utf8.encode_eq_nil_iff.mp hds]
    rfl
  · intro h
    obtain ⟨ds, rfl⟩ := List.head?_eq_some_iff.mp h
    rw [encode_space_cons]
    rfl

theorem foldedForm_head?_iff (p : String × String) (ps : List (String × String)) :
    (foldedForm (p :: ps)).head? = some space ↔ p.1.toList.head? = some ' ' := by
  obtain ⟨c, cs, hline⟩ := exists_logicalLine_eq p.1 p.2
  have hsize : c.utf8Size ≤ lineWidth := c.utf8Size_le_four.trans (by decide)
  have hfold : fold lineWidth (logicalLine p.1 p.2) = c :: fold (lineWidth - c.utf8Size) cs := by
    rw [hline, fold, if_pos hsize]
  have hne : Utf8.encode (c :: fold (lineWidth - c.utf8Size) cs) ≠ [] :=
    fun hnil => List.cons_ne_nil _ _ (Utf8.encode_eq_nil_iff.mp hnil)
  have hfirst : (logicalLine p.1 p.2).head? = some c := by rw [hline, List.head?_cons]
  rw [foldedForm_cons, hfold, List.head?_append_of_ne_nil _ hne, encode_head?_eq_space_iff, List.head?_cons,
    ← hfirst, logicalLine, List.head?_append]
  cases p.1.toList with
  | nil => simp
  | cons d ds => rfl

theorem length_withoutFolds_le (hplain : ∀ p ∈ ps, Unbroken p.1 ∧ Unbroken p.2) :
    (withoutFolds (foldedForm ps)).length ≤ (unfoldedForm ps).length := by
  induction ps with
  | nil => exact le_rfl
  | cons p ps ih =>
    obtain ⟨hp, hps⟩ := List.forall_mem_cons.mp hplain
    have hle := ih hps
    rw [foldedForm_cons, withoutFolds_attribute hp.1 hp.2, unfoldedForm_cons, List.length_append,
      List.length_append, List.length_append]
    by_cases hspace : (foldedForm ps).head? = some space
    · obtain ⟨bs, hbs⟩ := List.head?_eq_some_iff.mp hspace
      rw [hbs, withoutFolds_cons (by decide), List.length_cons] at hle
      rw [hbs, withoutFolds_crlf_space]
      omega
    · rw [withoutFolds_crlf hspace, List.length_append]
      omega

theorem withoutFolds_foldedForm_iff (hp : Unbroken p.1 ∧ Unbroken p.2)
    (hplain : ∀ q ∈ ps, Unbroken q.1 ∧ Unbroken q.2) :
    withoutFolds (foldedForm (p :: ps)) = unfoldedForm (p :: ps) ↔
      ∀ q ∈ ps, q.1.toList.head? ≠ some ' ' := by
  induction ps generalizing p with
  | nil =>
    rw [foldedForm_cons, withoutFolds_attribute hp.1 hp.2, unfoldedForm_cons]
    exact iff_of_true rfl (by simp)
  | cons q ps ih =>
    obtain ⟨hq, hps⟩ := List.forall_mem_cons.mp hplain
    rw [foldedForm_cons, withoutFolds_attribute hp.1 hp.2, unfoldedForm_cons, List.append_cancel_left_eq,
      List.forall_mem_cons]
    by_cases hspace : q.1.toList.head? = some ' '
    · -- The end of the line before is lost, so the text is too short.
      refine iff_of_false (fun heq => ?_) fun h => h.1 hspace
      obtain ⟨bs, hbs⟩ := List.head?_eq_some_iff.mp ((foldedForm_head?_iff q ps).mpr hspace)
      have hle := length_withoutFolds_le hplain
      rw [hbs, withoutFolds_cons (by decide), List.length_cons] at hle
      rw [hbs, withoutFolds_crlf_space] at heq
      rw [heq, List.length_append] at hle
      omega
    · rw [withoutFolds_crlf fun h => hspace ((foldedForm_head?_iff q ps).mp h), List.append_cancel_left_eq,
        ih hq hps]
      exact (and_iff_right hspace).symm

end Unfolding

theorem render_eq_foldedForm (a : Attributes) : render a = foldedForm a.pairs := by
  rw [render, foldedForm, Utf8.encode_append, encode_lineEnd]
  induction a.pairs with
  | nil => rfl
  | cons p ps ih =>
    rw [List.flatMap_cons, List.flatMap_cons, Utf8.encode_append, Utf8.encode_append, encode_lineEnd,
      List.append_assoc, ih, ← List.append_assoc]

theorem exists_lines_foldedForm (hplain : ∀ p ∈ ps, Unbroken p.1 ∧ Unbroken p.2) :
    ∃ lines : List Bytes, foldedForm ps = (lines ++ [[]]).flatMap (· ++ crlf) ∧
      ∀ line ∈ lines, IsPhysicalLine line := by
  induction ps with
  | nil => exact ⟨[], rfl, by simp⟩
  | cons p ps ih =>
    obtain ⟨hp, hps⟩ := List.forall_mem_cons.mp hplain
    obtain ⟨lines, hlines, hall⟩ := exists_lines_eq hp.1 hp.2
    obtain ⟨later, hlater, hlaterAll⟩ := ih hps
    refine ⟨lines ++ later, ?_, fun line hmem => ?_⟩
    · rw [foldedForm_cons, ← List.append_assoc, hlines, hlater, ← List.flatMap_append, List.append_assoc]
    · exact (List.mem_append.mp hmem).elim (hall line) (hlaterAll line)

/-- The loop over the bytes of each attribute comes to an end and writes what is rendered, in lines that are
valid text within the width, none of them empty before the last. All that was folded is found again by taking
out the ends of lines that have a space behind them, exactly if no name but the first begins with a space. -/
theorem render_folds (hplain : ∀ p ∈ a.pairs, Unbroken p.1 ∧ Unbroken p.2) :
    (∃ outs, List.Forall₂ (fun p out => Wraps lineWidth (attributeLine p) out) a.pairs outs ∧
        render a = outs.flatten ++ crlf) ∧
      Utf8.isValid (render a) = true ∧
      (∃ lines : List Bytes, render a = (lines ++ [[]]).flatMap (· ++ crlf) ∧
        ∀ line ∈ lines, IsPhysicalLine line) ∧
      (withoutFolds (render a) = a.pairs.flatMap (fun p => attributeLine p ++ crlf) ++ crlf ↔
        ∀ p ∈ a.pairs.tail, p.1.toList.head? ≠ some ' ') := by
  refine ⟨?_, Utf8.isValid_encode _, ?_, ?_⟩
  · refine ⟨a.pairs.map fun p => Utf8.encode (fold lineWidth (logicalLine p.1 p.2)) ++ crlf, ?_, ?_⟩
    · exact List.forall₂_map_right_iff.mpr (List.forall₂_same.mpr fun p _ => wraps_fold (by decide) _)
    · rw [render_eq_foldedForm, foldedForm, List.flatMap_def]
  · rw [render_eq_foldedForm]
    exact exists_lines_foldedForm hplain
  · rw [render_eq_foldedForm]
    cases hpairs : a.pairs with
    | nil => exact iff_of_true rfl (by simp)
    | cons p ps =>
      obtain ⟨hp, hps⟩ := List.forall_mem_cons.mp (hpairs ▸ hplain)
      exact withoutFolds_foldedForm_iff hp hps

/-- Wide characters at each end of a line, and a first name and a value that begin with a space. -/
def accented : Attributes :=
  .ofList [(" Note", String.ofList (List.replicate 100 'é')), ("Built-By", "  ci")]

theorem accented_folds :
    (∀ p ∈ accented.pairs, Unbroken p.1 ∧ Unbroken p.2) ∧ Utf8.isValid (render accented) = true ∧
      withoutFolds (render accented) =
        accented.pairs.flatMap (fun p => attributeLine p ++ crlf) ++ crlf := by
  have hplain : ∀ p ∈ accented.pairs, Unbroken p.1 ∧ Unbroken p.2 := by decide +kernel
  obtain ⟨-, hvalid, -, hunfolded⟩ := render_folds hplain
  exact ⟨hplain, hvalid, hunfolded.mpr (by decide +kernel)⟩

def indented : Attributes :=
  .ofList [("a", "b"), (" c", "d")]

theorem indented_name_joined :
    (∀ p ∈ indented.pairs, p.1 ≠ "" ∧ Unbroken p.1 ∧ Unbroken p.2) ∧
      withoutFolds (render indented) = utf8 "a: bc: d\r\n\r\n" ∧
      withoutFolds (render indented) ≠
        indented.pairs.flatMap (fun p => attributeLine p ++ crlf) ++ crlf := by
  decide +kernel

end FatJar.Manifest
