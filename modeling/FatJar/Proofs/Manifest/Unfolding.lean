import FatJar.Proofs.Manifest.Rendering

namespace FatJar.Manifest

/-- The lines of the main section. -/
def mainLines (bs : Bytes) : List (List Char) :=
  (physicalLines (Utf8.decodeLossy bs)).takeWhile (· != [])

/-- A line and the text of the lines that continue it. -/
structure LogicalLine where
  first : List Char
  more : List Char
  begins : first.head? ≠ some ' '

/-- Joins each line that begins with a space, less this space, to the line directly before it. The text that
continues what stands before all lines comes first. -/
def unfolded : List (List Char) → List Char × List LogicalLine
  | [] => ([], [])
  | line :: lines =>
    if h : line.head? = some ' ' then (line.tail ++ (unfolded lines).1, (unfolded lines).2)
    else ([], ⟨line, (unfolded lines).1, h⟩ :: (unfolded lines).2)

theorem unfolded_continued (text : List Char) (lines : List (List Char)) :
    unfolded ((' ' :: text) :: lines) = (text ++ (unfolded lines).1, (unfolded lines).2) :=
  dif_pos rfl

theorem unfolded_cons_of_head {line : List Char} (h : line.head? ≠ some ' ') (lines : List (List Char)) :
    unfolded (line :: lines) = ([], ⟨line, (unfolded lines).1, h⟩ :: (unfolded lines).2) :=
  dif_neg h

def dropSpace (value : List Char) : List Char :=
  if value.head? = some ' ' then value.tail else value

/-- Reads a text in which nothing is folded: an attribute if it has a colon. -/
def readText (a : Attributes) (text : List Char) : Attributes :=
  match cutAt? ':' text with
  | none => a
  | some (name, value) => a.put (String.ofList (trim name)) (String.ofList (dropSpace value))

/-- Reads the logical lines of a manifest; what continues no line is dropped. -/
def parseUnfolded (bs : Bytes) : Attributes :=
  (unfolded (mainLines bs)).2.foldl (fun a l => readText a (l.first ++ l.more)) .empty

/-- Reads the first line for itself and takes what continues it as a part of the value. -/
def readFirst (a : Attributes) (l : LogicalLine) : Attributes :=
  match cutAt? ':' l.first with
  | none => a
  | some (name, value) =>
    a.put (String.ofList (trim name)) (String.ofList (dropSpace value ++ l.more))

def isRead (line : List Char) : Bool :=
  line.head? == some ' ' || line.contains ':'

namespace LogicalLine

/-- Whether folding as it is read makes no difference to a line. It matters whether an attribute has been
read by then, which could be continued in the place of the line. -/
def Sound (begun : Bool) (l : LogicalLine) : Prop :=
  match cutAt? ':' l.first with
  | some (_, value) => value = [] → l.more.head? ≠ some ' '
  | none => if begun then l.more = [] else ':' ∉ l.more

/-- Each line is sound, where an attribute has been read as soon as a line has a colon. -/
def AllSound : Bool → List LogicalLine → Prop
  | _, [] => True
  | begun, l :: ls => l.Sound begun ∧ AllSound (begun || l.first.contains ':') ls

end LogicalLine

section Texts

variable {a : Attributes} {name : String} {value more text first : List Char}

theorem length_dropSpace_le (value : List Char) : (dropSpace value).length ≤ value.length := by
  unfold dropSpace
  split
  · rw [List.length_tail]
    omega
  · exact Nat.le_refl _

theorem dropSpace_append_iff :
    dropSpace value ++ more = dropSpace (value ++ more) ↔ (value = [] → more.head? ≠ some ' ') := by
  cases value with
  | nil =>
    have hnil : dropSpace [] ++ more = more := rfl
    rw [hnil, List.nil_append]
    constructor
    · intro h _ hspace
      obtain ⟨text, rfl⟩ := List.head?_eq_some_iff.mp hspace
      have hlength := congrArg List.length h
      simp [dropSpace] at hlength
    · intro h
      rw [dropSpace, if_neg (h rfl)]
  | cons c value =>
    have hhead : (c :: value ++ more).head? = (c :: value).head? := rfl
    simp only [dropSpace, hhead, reduceCtorEq, false_implies, iff_true]
    split <;> rfl

theorem readText_of_header (h : cutAt? ':' first = some (text, value)) :
    readText a (first ++ more) =
      a.put (String.ofList (trim text)) (String.ofList (dropSpace (value ++ more))) := by
  obtain ⟨rfl, hno⟩ := eq_of_cutAt? h
  rw [readText, List.append_assoc, List.cons_append, cutAt?_append_cons hno]

theorem readText_of_notMem (h : ':' ∉ text) : readText a text = a := by
  rw [readText, cutAt?_eq_none_iff.mpr h]

/-- A value that is read behind a line without a colon is shorter than what continues the line. -/
theorem length_of_get?_readText {before after : String} (hno : ':' ∉ first)
    (hbefore : a.get? name = some before) (hafter : (readText a (first ++ more)).get? name = some after) :
    after = before ∨ after.length < more.length := by
  by_cases hcolon : ':' ∈ more
  · obtain ⟨text, value, rfl, htext⟩ := List.eq_append_cons_of_mem hcolon
    have hcut : cutAt? ':' (first ++ text ++ ':' :: value) = some (first ++ text, value) :=
      cutAt?_append_cons (by simp [hno, htext]) value
    rw [← List.append_assoc, readText, hcut] at hafter
    dsimp only at hafter
    rw [Attributes.get?_put_eq_ite] at hafter
    split at hafter
    · obtain rfl := Option.some.inj hafter
      have hle := length_dropSpace_le value
      right
      rw [String.length_ofList, List.length_append, List.length_cons]
      omega
    · exact .inl (Option.some.inj (hafter.symm.trans hbefore))
  · rw [readText_of_notMem (by simp [hno, hcolon])] at hafter
    exact .inl (Option.some.inj (hafter.symm.trans hbefore))

theorem put_eq_readText_iff {before : String} (hno : ':' ∉ first) (hbefore : a.get? name = some before) :
    a.put name (before ++ String.ofList more) = readText a (first ++ more) ↔ more = [] := by
  constructor
  · intro h
    have hafter := congrArg (·.get? name) h
    rw [Attributes.get?_put] at hafter
    -- The text may well come to the same name, so it is the length that tells the values apart.
    obtain hsame | hshort := length_of_get?_readText hno hbefore hafter.symm
    · have hlength := congrArg String.length hsame
      rw [String.length_append, String.length_ofList] at hlength
      exact List.eq_nil_of_length_eq_zero (by omega)
    · rw [String.length_append, String.length_ofList] at hshort
      omega
  · rintro rfl
    rw [List.append_nil, readText_of_notMem hno, String.ofList_nil, String.append_empty,
      Attributes.put_of_get? hbefore]

theorem readText_empty_iff : .empty = readText .empty text ↔ ':' ∉ text := by
  constructor
  · intro h hcolon
    obtain ⟨name, value, hcut⟩ := exists_cutAt?_of_mem hcolon
    rw [readText, hcut] at h
    have hget := congrArg (·.get? (String.ofList (trim name))) h
    rw [Attributes.get?_put] at hget
    cases hget
  · intro h
    exact (readText_of_notMem h).symm

end Texts

namespace Reading

variable {r : Reading} {l : LogicalLine}

def logicalLine (r : Reading) (l : LogicalLine) : Reading :=
  (r.line l.first).extend l.more

theorem foldl_line_eq (r : Reading) (lines : List (List Char)) :
    lines.foldl line r = (unfolded lines).2.foldl logicalLine (r.extend (unfolded lines).1) := by
  induction lines generalizing r with
  | nil => exact (extend_nil r).symm
  | cons text lines ih =>
    by_cases hspace : text.head? = some ' '
    · obtain ⟨more, rfl⟩ := List.head?_eq_some_iff.mp hspace
      rw [unfolded_continued, List.foldl_cons, line, ih, extend_extend]
    · rw [unfolded_cons_of_head hspace, List.foldl_cons, ih, extend_nil, List.foldl_cons]
      rfl

theorem logicalLine_of_header {name value : List Char} (h : cutAt? ':' l.first = some (name, value)) :
    r.logicalLine l =
      ⟨r.attributes.put (String.ofList (trim name)) (String.ofList (dropSpace value ++ l.more)),
        some (String.ofList (trim name))⟩ := by
  rw [logicalLine, line_of_head l.begins, h]
  dsimp only
  rw [header, extend_put, ← String.ofList_append, dropSpace]

theorem logicalLine_of_notMem (h : ':' ∉ l.first) : r.logicalLine l = r.extend l.more := by
  rw [logicalLine, line_of_notMem l.begins h]

/-- What can be reached: nothing is read, or the attribute that can be continued is among those read. -/
inductive Reached : Reading → Prop
  | start : Reached {}
  | within {a : Attributes} {name value : String} (h : a.get? name = some value) :
      Reached ⟨a, some name⟩

theorem Reached.logicalLine (hr : r.Reached) (l : LogicalLine) :
    (r.logicalLine l).Reached ∧
      (r.logicalLine l).current.isSome = (r.current.isSome || l.first.contains ':') := by
  by_cases hcolon : ':' ∈ l.first
  · obtain ⟨name, value, hcut⟩ := exists_cutAt?_of_mem hcolon
    have hcontains : l.first.contains ':' = true := by simpa using hcolon
    rw [logicalLine_of_header hcut, hcontains, Bool.or_true]
    exact ⟨.within (Attributes.get?_put _ _ _), rfl⟩
  · have hcontains : l.first.contains ':' = false := by simpa using hcolon
    rw [logicalLine_of_notMem hcolon, hcontains, Bool.or_false]
    cases hr with
    | start => exact ⟨.start, rfl⟩
    | within hvalue =>
      rw [extend_of_get? rfl hvalue]
      exact ⟨.within (Attributes.get?_put _ _ _), rfl⟩

theorem Reached.attributes_logicalLine_iff (hr : r.Reached) (l : LogicalLine) :
    (r.logicalLine l).attributes = readText r.attributes (l.first ++ l.more) ↔
      l.Sound r.current.isSome := by
  unfold LogicalLine.Sound
  split
  · next name value hcut =>
    rw [logicalLine_of_header hcut, readText_of_header hcut, Attributes.put_inj, String.ofList_inj,
      dropSpace_append_iff]
  · next hcut =>
    have hno := cutAt?_eq_none_iff.mp hcut
    rw [logicalLine_of_notMem hno]
    cases hr with
    | start =>
      refine readText_empty_iff.trans ?_
      simp [hno]
    | within hvalue =>
      rw [extend_of_get? rfl hvalue]
      exact put_eq_readText_iff hno hvalue

theorem Reached.forall_prefix_iff (hr : r.Reached) (ls : List LogicalLine) :
    (∀ ms, ms <+: ls → (ms.foldl Reading.logicalLine r).attributes =
        ms.foldl (fun a l => readText a (l.first ++ l.more)) r.attributes) ↔
      LogicalLine.AllSound r.current.isSome ls := by
  induction ls generalizing r with
  | nil => simp [LogicalLine.AllSound]
  | cons l ls ih =>
    obtain ⟨hnext, hcurrent⟩ := hr.logicalLine l
    rw [LogicalLine.AllSound, ← hcurrent, ← ih hnext, ← hr.attributes_logicalLine_iff]
    constructor
    · intro h
      have hone : (r.logicalLine l).attributes = readText r.attributes (l.first ++ l.more) :=
        h [l] (List.prefix_append [l] ls)
      refine ⟨hone, fun ms hms => ?_⟩
      rw [hone]
      exact h (l :: ms) (List.cons_prefix_cons.mpr ⟨rfl, hms⟩)
    · rintro ⟨hone, hmore⟩ (- | ⟨m, ms⟩) hms
      · rfl
      · obtain ⟨rfl, hrest⟩ := List.cons_prefix_cons.mp hms
        rw [List.foldl_cons, List.foldl_cons, hmore ms hrest, hone]

end Reading

section Lines

variable {lines before : List (List Char)} {ms : List LogicalLine} {line : List Char} {bs : Bytes}

/-- The first of the logical lines come from the first lines, up to a place that leaves no line without what
continues it. -/
theorem exists_prefix_unfolded (h : ms <+: (unfolded lines).2) :
    ∃ before, before <+: lines ∧ unfolded before = ((unfolded lines).1, ms) := by
  induction lines generalizing ms with
  | nil =>
    obtain rfl := List.prefix_nil.mp h
    exact ⟨[], List.prefix_rfl, rfl⟩
  | cons line lines ih =>
    by_cases hspace : line.head? = some ' '
    · obtain ⟨text, rfl⟩ := List.head?_eq_some_iff.mp hspace
      rw [unfolded_continued] at h ⊢
      obtain ⟨before, hbefore, heq⟩ := ih h
      refine ⟨(' ' :: text) :: before, List.cons_prefix_cons.mpr ⟨rfl, hbefore⟩, ?_⟩
      rw [unfolded_continued, heq]
    · rw [unfolded_cons_of_head hspace] at h ⊢
      cases ms with
      | nil => exact ⟨[], List.nil_prefix, rfl⟩
      | cons m ms =>
        obtain ⟨rfl, hms⟩ := List.cons_prefix_cons.mp h
        obtain ⟨before, hbefore, heq⟩ := ih hms
        refine ⟨line :: before, List.cons_prefix_cons.mpr ⟨rfl, hbefore⟩, ?_⟩
        rw [unfolded_cons_of_head hspace, heq]

theorem LogicalLine.Sound.of_shorter {begun : Bool} {text more : List Char} {h : line.head? ≠ some ' '}
    (hsound : Sound begun ⟨line, more, h⟩) (hbegins : text <+: more) : Sound begun ⟨line, text, h⟩ := by
  unfold Sound at hsound ⊢
  dsimp only at hsound ⊢
  split at hsound
  · intro hvalue hspace
    obtain ⟨text, rfl⟩ := List.head?_eq_some_iff.mp hspace
    obtain ⟨rest, rfl⟩ := hbegins
    exact hsound hvalue rfl
  · split at hsound
    · next hbegun =>
      subst hsound
      rw [if_pos hbegun]
      exact List.prefix_nil.mp hbegins
    · next hbegun =>
      rw [if_neg hbegun]
      exact fun hcolon => hsound (hbegins.subset hcolon)

theorem allSound_of_prefix {begun : Bool} (h : LogicalLine.AllSound begun (unfolded lines).2)
    (hbefore : before <+: lines) :
    (unfolded before).1 <+: (unfolded lines).1 ∧ LogicalLine.AllSound begun (unfolded before).2 := by
  induction before generalizing begun lines with
  | nil => exact ⟨List.nil_prefix, trivial⟩
  | cons line before ih =>
    obtain ⟨rest, rfl⟩ := hbefore
    rw [List.cons_append] at h ⊢
    by_cases hspace : line.head? = some ' '
    · obtain ⟨text, rfl⟩ := List.head?_eq_some_iff.mp hspace
      rw [unfolded_continued] at h ⊢
      rw [unfolded_continued]
      obtain ⟨hmore, hsound⟩ := ih h (List.prefix_append before rest)
      exact ⟨(List.prefix_append_right_inj text).mpr hmore, hsound⟩
    · rw [unfolded_cons_of_head hspace] at h ⊢
      rw [unfolded_cons_of_head hspace]
      obtain ⟨hmore, hsound⟩ := ih h.2 (List.prefix_append before rest)
      exact ⟨List.prefix_rfl, h.1.of_shorter hmore, hsound⟩

theorem of_mem_mainLines (h : line ∈ mainLines bs) : line ≠ [] ∧ '\n' ∉ line := by
  refine ⟨by simpa using List.mem_takeWhile_imp h, fun hfeed => ?_⟩
  exact (mem_of_mem_physicalLine ((List.takeWhile_sublist _).subset h) hfeed).2 rfl

theorem mainLines_encode (h : ∀ line ∈ lines, line ≠ [] ∧ '\n' ∉ line) :
    mainLines (Utf8.encode (lines.flatMap (· ++ lineEnd))) = lines := by
  rw [mainLines, Utf8.decodeLossy_encode]
  induction lines with
  | nil => rfl
  | cons line lines ih =>
    obtain ⟨hne, hfeed⟩ := h line List.mem_cons_self
    have hkept : (line != []) = true := by simpa using hne
    rw [List.flatMap_cons, physicalLines_append_lineEnd hfeed, List.takeWhile_cons, if_pos hkept,
      ih fun l hl => h l (List.mem_cons_of_mem _ hl)]

theorem exists_mainLines_eq (h : before <+: mainLines bs) : ∃ cs, mainLines cs = before :=
  ⟨_, mainLines_encode fun _ hline => of_mem_mainLines (h.subset hline)⟩

end Lines

section Skipping

variable {lines : List (List Char)} {l : LogicalLine}

theorem first_mem_of_mem_unfolded (h : l ∈ (unfolded lines).2) : l.first ∈ lines := by
  induction lines with
  | nil => cases h
  | cons line lines ih =>
    by_cases hspace : line.head? = some ' '
    · obtain ⟨text, rfl⟩ := List.head?_eq_some_iff.mp hspace
      rw [unfolded_continued] at h
      exact List.mem_cons_of_mem _ (ih h)
    · rw [unfolded_cons_of_head hspace] at h
      obtain rfl | h := List.mem_cons.mp h
      · exact List.mem_cons_self
      · exact List.mem_cons_of_mem _ (ih h)

theorem colon_mem_of_isRead (h : l ∈ (unfolded (lines.filter isRead)).2) : ':' ∈ l.first := by
  have hread := (List.mem_filter.mp (first_mem_of_mem_unfolded h)).2
  simpa [isRead, l.begins] using hread

theorem Reading.foldl_line_filter (r : Reading) (lines : List (List Char)) :
    (lines.filter isRead).foldl line r = lines.foldl line r := by
  rw [List.foldl_filter]
  refine List.foldl_ext _ _ r fun r text _ => ?_
  split
  · rfl
  · next hskip =>
    simp only [isRead, Bool.or_eq_true, beq_iff_eq, List.contains_iff_mem, not_or] at hskip
    exact (line_of_notMem hskip.1 hskip.2).symm

theorem Reading.foldl_logicalLine {ls : List LogicalLine} (h : ∀ l ∈ ls, ':' ∈ l.first) (r : Reading) :
    (ls.foldl logicalLine r).attributes = ls.foldl readFirst r.attributes := by
  induction ls generalizing r with
  | nil => rfl
  | cons l ls ih =>
    obtain ⟨name, value, hcut⟩ := exists_cutAt?_of_mem (h l List.mem_cons_self)
    rw [List.foldl_cons, List.foldl_cons, ih fun m hm => h m (List.mem_cons_of_mem _ hm),
      logicalLine_of_header hcut, readFirst, hcut]

end Skipping

section Parsing

theorem parse_eq_foldl (bs : Bytes) :
    parse bs = ((unfolded (mainLines bs)).2.foldl Reading.logicalLine {}).attributes :=
  congrArg Reading.attributes (Reading.foldl_line_eq {} (mainLines bs))

theorem parse_eq_readFirst (bs : Bytes) :
    parse bs = (unfolded ((mainLines bs).filter isRead)).2.foldl readFirst .empty := by
  have hlines : parse bs = ((mainLines bs).foldl Reading.line {}).attributes := rfl
  rw [hlines, ← Reading.foldl_line_filter, Reading.foldl_line_eq]
  exact Reading.foldl_logicalLine (fun l => colon_mem_of_isRead) {}

theorem forall_parse_eq_iff (bs : Bytes) :
    (∀ cs, mainLines cs <+: mainLines bs → parse cs = parseUnfolded cs) ↔
      LogicalLine.AllSound false (unfolded (mainLines bs)).2 := by
  have hagree := Reading.Reached.start.forall_prefix_iff
  constructor
  · intro h
    refine (hagree _).mp fun ms hms => ?_
    obtain ⟨before, hbefore, heq⟩ := exists_prefix_unfolded hms
    obtain ⟨cs, rfl⟩ := exists_mainLines_eq hbefore
    have hcs := h cs hbefore
    rw [parse_eq_foldl, parseUnfolded, heq] at hcs
    exact hcs
  · intro h cs hcs
    obtain ⟨-, hsound⟩ := allSound_of_prefix h hcs
    rw [parse_eq_foldl]
    exact (hagree _).mpr hsound _ List.prefix_rfl

end Parsing

/-- A line that is no attribute is passed over before the rest is unfolded, so what continues it goes to the
attribute before it. That is what unfolding first would give exactly if all lines are sound; to tell, one has
to stop at each line, since a value may be put anew by a later one. -/
theorem parse_unfolded (bs : Bytes) :
    parse bs = (unfolded ((mainLines bs).filter isRead)).2.foldl readFirst .empty ∧
      ((∀ cs, mainLines cs <+: mainLines bs → parse cs = parseUnfolded cs) ↔
        LogicalLine.AllSound false (unfolded (mainLines bs)).2) :=
  ⟨parse_eq_readFirst bs, forall_parse_eq_iff bs⟩

/-- The text behind a line without a colon becomes a part of the value read before it. -/
theorem skipped_line_continued :
    (parse (utf8 "A: b\nnotes\n more\n")).pairs = [("A", "bmore")] ∧
      (parseUnfolded (utf8 "A: b\nnotes\n more\n")).pairs = [("A", "b")] := by
  decide +kernel

section Rendering

variable {a : Attributes} {name value : String} {first : List Char} {more lines : List (List Char)}
  {ps : List (String × String)}

theorem unfolded_folded (h : first.head? ≠ some ' ') :
    unfolded (first :: more.map (' ' :: ·) ++ lines) =
      ([], ⟨first, more.flatten ++ (unfolded lines).1, h⟩ :: (unfolded lines).2) := by
  have hmore : unfolded (more.map (' ' :: ·) ++ lines) =
      (more.flatten ++ (unfolded lines).1, (unfolded lines).2) := by
    induction more with
    | nil => rfl
    | cons text more ih =>
      rw [List.map_cons, List.cons_append, unfolded_continued, ih, List.flatten_cons, List.append_assoc]
  rw [List.cons_append, unfolded_cons_of_head h, hmore]

theorem readText_logicalLine (hname : isName name = true) (a : Attributes) (value : String) :
    readText a (Manifest.logicalLine name value) = a.put name value := by
  have hchars := (isName_iff.mp hname).2
  have hcolon : ':' ∉ name.toList := fun hmem => (plain_of_isNameChar (hchars _ hmem)).2.1 rfl
  rw [readText, Manifest.logicalLine, cutAt?_append_cons hcolon]
  dsimp only
  rw [trim_eq_self fun c hc => (plain_of_isNameChar (hchars c hc)).1, String.ofList_toList]
  exact congrArg (a.put name) String.ofList_toList

theorem unfolded_render (hnames : ∀ p ∈ ps, isName p.1 = true)
    (hvalues : ∀ p ∈ ps, '\n' ∉ p.2.toList) :
    ∃ ls, unfolded ((physicalLines
        (ps.flatMap (fun p => fold lineWidth (logicalLine p.1 p.2) ++ lineEnd) ++ lineEnd)).takeWhile
          (· != [])) = ([], ls) ∧
      (ls.map fun l => l.first ++ l.more) = ps.map fun p => Manifest.logicalLine p.1 p.2 := by
  induction ps with
  | nil => exact ⟨[], rfl, rfl⟩
  | cons p ps ih =>
    have hname := hnames p List.mem_cons_self
    obtain ⟨first, more, hfold, hlines⟩ := exists_lines_folded hname (hvalues p List.mem_cons_self)
      (ps.flatMap (fun p => fold lineWidth (logicalLine p.1 p.2) ++ lineEnd) ++ lineEnd)
    obtain ⟨ls, hunfolded, htexts⟩ := ih (fun q hq => hnames q (List.mem_cons_of_mem _ hq))
      fun q hq => hvalues q (List.mem_cons_of_mem _ hq)
    have hhead := head_ne_of_begins hname ⟨more.flatten, hfold.whole.symm⟩
    refine ⟨⟨first, more.flatten, hhead⟩ :: ls, ?_, ?_⟩
    · rw [List.flatMap_cons, List.append_assoc, hlines, unfolded_folded hhead, hunfolded, List.append_nil]
    · rw [List.map_cons, htexts, ← hfold.whole]
      rfl

theorem parseUnfolded_render (hnames : ∀ p ∈ a.pairs, isName p.1 = true)
    (hvalues : ∀ p ∈ a.pairs, isValue p.2 = true) : parseUnfolded (render a) = a := by
  obtain ⟨ls, hunfolded, htexts⟩ := unfolded_render hnames
    fun p hp => (isValue_iff.mp (hvalues p hp)).2.1
  have hread : ls.foldl (fun b l => readText b (l.first ++ l.more)) Attributes.empty =
      a.pairs.foldl (fun b p => readText b (logicalLine p.1 p.2)) .empty := by
    have h := congrArg (List.foldl readText Attributes.empty) htexts
    rwa [List.foldl_map, List.foldl_map] at h
  have hput : a.pairs.foldl (fun b p => readText b (logicalLine p.1 p.2)) Attributes.empty =
      .ofList a.pairs :=
    List.foldl_ext _ _ _ fun b p hp => readText_logicalLine (hnames p hp) b p.2
  rw [parseUnfolded, mainLines, render, Utf8.decodeLossy_encode, hunfolded, hread, hput,
    Attributes.ofList_pairs]

end Rendering

end FatJar.Manifest
