import FatJar.Manifest.Printer
import FatJar.Proofs.Manifest.Reading
import FatJar.Proofs.Text.Scalars

namespace FatJar.Manifest

section Folding

variable {room : Nat} {cs ds first rest : List Char} {more : List (List Char)}

def continued (more : List (List Char)) : List Char :=
  more.flatMap fun cs => lineEnd ++ ' ' :: cs

theorem utf8Size_ascii {c : Char} (h : c.toNat < 0x80) : c.utf8Size = 1 :=
  Char.utf8Size_eq_one_iff.mpr (UInt32.le_iff_toNat_le.mpr (Nat.le_of_lt_succ h))

theorem fold_append (hascii : ∀ c ∈ ds, c.toNat < 0x80) (h : ds.length ≤ room) (cs : List Char) :
    fold room (ds ++ cs) = ds ++ fold (room - ds.length) cs := by
  induction ds generalizing room with
  | nil => rfl
  | cons c ds ih =>
    rw [List.length_cons] at h
    have hsize := utf8Size_ascii (hascii c List.mem_cons_self)
    have hfits : c.utf8Size ≤ room := by omega
    have hlater : ds.length ≤ room - c.utf8Size := by omega
    rw [List.cons_append, fold, if_pos hfits, ih (fun d hd => hascii d (List.mem_cons_of_mem _ hd)) hlater,
      hsize, Nat.sub_sub, Nat.add_comm 1, List.length_cons, List.cons_append]

/-- The first line keeps to the room that is left, and each line that continues it to the width. -/
theorem exists_folded (room : Nat) (cs : List Char) :
    ∃ first more, fold room cs = first ++ continued more ∧ cs = first ++ more.flatten ∧
      (Utf8.encode first).length ≤ room ∧ ∀ text ∈ more, (Utf8.encode text).length < lineWidth := by
  induction cs generalizing room with
  | nil => exact ⟨[], [], rfl, rfl, Nat.zero_le _, by simp⟩
  | cons c cs ih =>
    by_cases hfits : c.utf8Size ≤ room
    · obtain ⟨first, more, hfold, hcs, hfirst, hmore⟩ := ih (room - c.utf8Size)
      refine ⟨c :: first, more, by rw [fold, if_pos hfits, hfold]; rfl, by rw [hcs]; rfl, ?_, hmore⟩
      rw [Utf8.encode_cons, List.length_append, String.length_utf8EncodeChar]
      omega
    · obtain ⟨first, more, hfold, hcs, hfirst, hmore⟩ := ih (lineWidth - 1 - c.utf8Size)
      have hnew : (Utf8.encode (c :: first)).length < lineWidth := by
        have hsize := c.utf8Size_le_four
        rw [Utf8.encode_cons, List.length_append, String.length_utf8EncodeChar]
        unfold lineWidth at hfirst ⊢
        omega
      refine ⟨[], (c :: first) :: more, ?_, by rw [hcs]; rfl, Nat.zero_le _,
        List.forall_mem_cons.mpr ⟨hnew, hmore⟩⟩
      rw [fold, if_neg hfits, hfold]
      simp [continued]

theorem exists_folded_zero (cs : List Char) : ∃ more, fold 0 cs = continued more ∧ cs = more.flatten := by
  obtain ⟨first, more, hfold, hcs, hfirst, -⟩ := exists_folded 0 cs
  obtain rfl : first = [] := Utf8.encode_eq_nil_iff.mp (List.length_eq_zero_iff.mp (Nat.le_zero.mp hfirst))
  exact ⟨more, hfold, hcs⟩

theorem physicalLines_append_lineEnd (h : '\n' ∉ first) (rest : List Char) :
    physicalLines (first ++ lineEnd ++ rest) = first :: physicalLines rest := by
  have hreturn : '\n' ∉ first ++ ['\r'] := by simpa using h
  have hline : first ++ lineEnd ++ rest = (first ++ ['\r']) ++ '\n' :: rest := by simp [lineEnd]
  have hdrop : dropReturn (first ++ ['\r']) = first := by simp [dropReturn]
  rw [hline, physicalLines_append hreturn, hdrop]

theorem physicalLines_folded (hfirst : '\n' ∉ first) (hmore : '\n' ∉ more.flatten) (rest : List Char) :
    physicalLines (first ++ continued more ++ lineEnd ++ rest) =
      first :: more.map (' ' :: ·) ++ physicalLines rest := by
  induction more generalizing first with
  | nil => simpa [continued] using physicalLines_append_lineEnd hfirst rest
  | cons cs more ih =>
    rw [List.flatten_cons, List.mem_append, not_or] at hmore
    have hnext : '\n' ∉ ' ' :: cs := by simpa using hmore.1
    have hsplit : first ++ continued (cs :: more) ++ lineEnd ++ rest =
        first ++ lineEnd ++ (' ' :: cs ++ continued more ++ lineEnd ++ rest) := by
      simp [continued]
    rw [hsplit, physicalLines_append_lineEnd hfirst, ih hnext hmore.2, List.map_cons]
    rfl

end Folding

variable {name value : String}

theorem isName_iff : isName name = true ↔ name.toList ≠ [] ∧ ∀ c ∈ name.toList, isNameChar c = true := by
  simp [isName]

/-- What reading does with a rendered attribute. A name that fills the first line with its colon leaves
the space behind it to the value; one that leaves no room for the colon is lost, and all that stands
behind the first line goes to the value before. -/
def Reading.rendered (r : Reading) (name value : String) : Reading :=
  if name.length ≤ 70 then ⟨r.attributes.put name value, some name⟩
  else if name.length = 71 then ⟨r.attributes.put name (" " ++ value), some name⟩
  else r.extend ((logicalLine name value).drop lineWidth)

/-- The first line of a rendered attribute and the texts of the lines that continue it. -/
structure Folded (name value : String) (first : List Char) (more : List (List Char)) : Prop where
  fold_eq : fold lineWidth (logicalLine name value) = first ++ continued more
  whole : logicalLine name value = first ++ more.flatten
  ne_nil : first ≠ []
  read : ∀ r : Reading, (r.line first).extend more.flatten = r.rendered name value

theorem ascii_append {cs ds : List Char} (hcs : ∀ c ∈ cs, isNameChar c = true)
    (hds : ∀ c ∈ ds, c.toNat < 0x80) : ∀ c ∈ cs ++ ds, c.toNat < 0x80 := by
  intro c hc
  obtain hc | hc := List.mem_append.mp hc
  · exact toNat_lt_of_isNameChar (hcs c hc)
  · exact hds c hc

theorem exists_folded_of_short (hname : isName name = true) (h : name.length ≤ 70) :
    ∃ first more, Folded name value first more := by
  obtain ⟨hne, hchars⟩ := isName_iff.mp hname
  have hline : logicalLine name value = name.toList ++ [':', ' '] ++ value.toList := by
    simp [logicalLine]
  have hfits : (name.toList ++ [':', ' ']).length ≤ lineWidth := by
    simp only [List.length_append, String.length_toList, List.length_cons, List.length_nil, lineWidth]
    omega
  obtain ⟨first, more, hfold, hvalue, -⟩ :=
    exists_folded (lineWidth - (name.toList ++ [':', ' ']).length) value.toList
  refine ⟨name.toList ++ [':', ' '] ++ first, more, ?_, ?_, by simp, fun r => ?_⟩
  · rw [hline, fold_append (ascii_append hchars (by simp)) hfits, hfold, ← List.append_assoc]
  · rw [hline, hvalue, ← List.append_assoc]
  · have hheader : name.toList ++ [':', ' '] ++ first = name.toList ++ ':' :: ' ' :: first := by simp
    rw [hheader, Reading.line_header hne hchars, Reading.header_spaced hchars, Reading.extend_put,
      Reading.rendered, if_pos h, ← String.ofList_append, ← hvalue, String.ofList_toList,
      String.ofList_toList]

theorem exists_folded_of_full (hname : isName name = true) (h : name.length = 71) :
    ∃ first more, Folded name value first more := by
  obtain ⟨hne, hchars⟩ := isName_iff.mp hname
  have hline : logicalLine name value = name.toList ++ [':'] ++ ' ' :: value.toList := by
    simp [logicalLine]
  have hfits : (name.toList ++ [':']).length = lineWidth := by
    simp only [List.length_append, String.length_toList, h, List.length_cons, List.length_nil, lineWidth]
  obtain ⟨more, hfold, hvalue⟩ := exists_folded_zero (' ' :: value.toList)
  refine ⟨name.toList ++ [':'], more, ?_, by rw [hline, ← hvalue], by simp, fun r => ?_⟩
  · rw [hline, fold_append (ascii_append hchars (by simp)) hfits.le, hfits, Nat.sub_self, hfold]
  · have hshort : ¬ name.length ≤ 70 := by omega
    rw [Reading.line_header hne hchars, Reading.header_empty hchars, String.ofList_toList,
      Reading.extend_put, Reading.rendered, if_neg hshort, if_pos h, ← hvalue, String.ofList_cons,
      String.ofList_toList, String.empty_append]
    rfl

theorem exists_folded_of_long (hname : isName name = true) (h : lineWidth ≤ name.length) :
    ∃ first more, Folded name value first more := by
  obtain ⟨hne, hchars⟩ := isName_iff.mp hname
  have hlength : (name.toList.take lineWidth).length = lineWidth := by
    rw [List.length_take, String.length_toList, Nat.min_eq_left h]
  have hline : logicalLine name value =
      name.toList.take lineWidth ++ (logicalLine name value).drop lineWidth := by
    have htake : (logicalLine name value).take lineWidth = name.toList.take lineWidth :=
      List.take_append_of_le_length (by rwa [String.length_toList])
    rw [← htake, List.take_append_drop]
  have hbegin : ∀ c ∈ name.toList.take lineWidth, isNameChar c = true :=
    fun c hc => hchars c (List.mem_of_mem_take hc)
  obtain ⟨more, hfold, hrest⟩ := exists_folded_zero ((logicalLine name value).drop lineWidth)
  have hfirst : name.toList.take lineWidth ≠ [] :=
    List.ne_nil_of_length_pos (by rw [hlength]; decide)
  refine ⟨name.toList.take lineWidth, more, ?_, by rw [← hrest, ← hline], hfirst, fun r => ?_⟩
  · rw [hline, fold_append (fun c hc => toNat_lt_of_isNameChar (hbegin c hc)) hlength.le, hlength,
      Nat.sub_self, hfold]
  · have hhead : (name.toList.take lineWidth).head? ≠ some ' ' := by
      intro hspace
      exact (plain_of_isNameChar (hbegin _ (List.mem_of_head? hspace))).2.2.1 rfl
    have hcolon : ':' ∉ name.toList.take lineWidth :=
      fun hmem => (plain_of_isNameChar (hbegin _ hmem)).2.1 rfl
    have hshort : ¬ name.length ≤ 70 := by unfold lineWidth at h; omega
    have hfull : ¬ name.length = 71 := by unfold lineWidth at h; omega
    rw [Reading.line_of_notMem hhead hcolon, Reading.rendered, if_neg hshort, if_neg hfull, hrest]

theorem exists_folded_attribute (hname : isName name = true) (value : String) :
    ∃ first more, Folded name value first more := by
  by_cases hshort : name.length ≤ 70
  · exact exists_folded_of_short hname hshort
  · by_cases hfull : name.length = 71
    · exact exists_folded_of_full hname hfull
    · refine exists_folded_of_long hname ?_
      unfold lineWidth
      omega

theorem head_ne_of_begins {first : List Char} (hname : isName name = true)
    (hfirst : first <+: logicalLine name value) : first.head? ≠ some ' ' := by
  intro hspace
  obtain ⟨text, rfl⟩ := List.head?_eq_some_iff.mp hspace
  obtain ⟨hne, hchars⟩ := isName_iff.mp hname
  obtain ⟨c, cs, hc⟩ := List.exists_cons_of_ne_nil hne
  obtain ⟨more, hmore⟩ := hfirst
  rw [logicalLine, hc] at hmore
  obtain ⟨rfl, -⟩ := List.cons.inj hmore
  exact (plain_of_isNameChar (hchars ' ' (hc ▸ List.mem_cons_self))).2.2.1 rfl

theorem exists_lines_folded (hname : isName name = true) (hvalue : '\n' ∉ value.toList)
    (rest : List Char) :
    ∃ first more, Folded name value first more ∧
      (physicalLines (fold lineWidth (logicalLine name value) ++ lineEnd ++ rest)).takeWhile (· != []) =
        first :: more.map (' ' :: ·) ++ (physicalLines rest).takeWhile (· != []) := by
  obtain ⟨first, more, hfold⟩ := exists_folded_attribute hname value
  have hline : '\n' ∉ logicalLine name value := by
    have hplain : '\n' ∉ name.toList :=
      fun hmem => (plain_of_isNameChar ((isName_iff.mp hname).2 _ hmem)).2.2.2 rfl
    simpa [logicalLine, hplain] using hvalue
  rw [hfold.whole, List.mem_append, not_or] at hline
  have hkept : ∀ l ∈ first :: more.map (' ' :: ·), (l != []) = true := by
    have := hfold.ne_nil
    simp_all
  refine ⟨first, more, hfold, ?_⟩
  rw [hfold.fold_eq, physicalLines_folded hline.1 hline.2, List.takeWhile_append_of_pos hkept]

theorem foldl_line_render {ps : List (String × String)} (hnames : ∀ p ∈ ps, isName p.1 = true)
    (hvalues : ∀ p ∈ ps, '\n' ∉ p.2.toList) (r : Reading) :
    ((physicalLines
        (ps.flatMap (fun p => fold lineWidth (logicalLine p.1 p.2) ++ lineEnd) ++ lineEnd)).takeWhile
          (· != [])).foldl Reading.line r =
      ps.foldl (fun r p => r.rendered p.1 p.2) r := by
  induction ps generalizing r with
  | nil => rfl
  | cons p ps ih =>
    obtain ⟨first, more, hfold, hlines⟩ := exists_lines_folded (hnames p List.mem_cons_self)
      (hvalues p List.mem_cons_self)
      (ps.flatMap (fun p => fold lineWidth (logicalLine p.1 p.2) ++ lineEnd) ++ lineEnd)
    rw [List.flatMap_cons, List.append_assoc, hlines, List.foldl_append, List.foldl_cons,
      Reading.foldl_line_continued, hfold.read, List.foldl_cons]
    exact ih (fun q hq => hnames q (List.mem_cons_of_mem _ hq))
      (fun q hq => hvalues q (List.mem_cons_of_mem _ hq)) _

end FatJar.Manifest
