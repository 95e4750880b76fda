import FatJar.Proofs.Relocation.DottedNames
import FatJar.Proofs.Relocation.Settling

namespace FatJar.Relocation

def newline : UInt8 := 0x0A

namespace RuleSet

/-- What a text becomes, or itself when there is nothing to replace in it. -/
def rewritten (rs : RuleSet) (bs : Bytes) : Bytes :=
  (rs.replace bs).getD bs

def replaced (rs : RuleSet) (bs : Bytes) : List Occurrence :=
  selectFrom 0 (occurrences rs.literals bs)

/-- Whether what is replaced at the end of a text is spelled with dots. -/
def NoSlashedEnd (rs : RuleSet) (bs : Bytes) : Prop :=
  ∀ o ∈ rs.replaced bs, o.after = none → o.spelling = .dotted

/-- Whether what is replaced behind a slash that a text begins with is spelled with dots. -/
def NoAbsoluteStart (rs : RuleSet) (bs : Bytes) : Prop :=
  ∀ o ∈ rs.replaced bs, o.start = 1 → o.before = some slash → o.spelling = .dotted

instance (rs : RuleSet) (bs : Bytes) : Decidable (rs.NoSlashedEnd bs) :=
  inferInstanceAs (Decidable (∀ o ∈ rs.replaced bs, o.after = none → o.spelling = .dotted))

instance (rs : RuleSet) (bs : Bytes) : Decidable (rs.NoAbsoluteStart bs) :=
  inferInstanceAs (Decidable
    (∀ o ∈ rs.replaced bs, o.start = 1 → o.before = some slash → o.spelling = .dotted))

end RuleSet

variable {rs : RuleSet} {r : Rule} {sep : UInt8} {pre pre' bs rest more out : Bytes}

section Breaks

theorem newline_notMem_source (hr : r ∈ rs.rules) (hsep : IsSeparator sep) :
    newline ∉ spell sep r.source.toList := by
  refine notMem_spell (by decide) ?_ (.of_isNamespace (rs.isNamespace_source hr))
  rintro rfl
  obtain h | h := hsep <;> exact absurd h (by decide)

theorem exists_of_source_before_newline (hr : r ∈ rs.rules) (hsep : IsSeparator sep)
    (h : bs ++ newline :: more = spell sep r.source.toList ++ rest) :
    ∃ rest', bs = spell sep r.source.toList ++ rest' ∧ rest = rest' ++ newline :: more := by
  obtain ⟨rest', hsource, hrest⟩ | ⟨rest', rfl, hrest⟩ := List.append_eq_append_iff.mp h
  · cases rest' with
    | nil =>
      rw [List.append_nil] at hsource
      exact ⟨[], by rw [List.append_nil, hsource], hrest.symm⟩
    | cons b rest' =>
      obtain ⟨rfl, -⟩ := List.cons.inj hrest
      have hmem : newline ∈ spell sep r.source.toList := by simp [hsource]
      exact absurd hmem (newline_notMem_source hr hsep)
  · exact ⟨rest', rfl, hrest⟩

theorem Refers.append_iff (h : rest ≠ []) (more : Bytes) :
    Refers rs sep r pre (rest ++ more) ↔ Refers rs sep r pre rest := by
  have hcloses : ClosesBefore sep r.source.toList (rest ++ more) ↔
      ClosesBefore sep r.source.toList rest :=
    closesBefore_congr (List.head?_append_of_ne_nil rest h)
  constructor
  · exact fun hr => ⟨hr.mem, hr.isSeparator, hr.opens, hcloses.mp hr.closes⟩
  · exact fun hr => ⟨hr.mem, hr.isSeparator, hr.opens, hcloses.mpr hr.closes⟩

theorem Refers.before_newline_iff (hdotted : rest = [] → sep = dot) (more : Bytes) :
    Refers rs sep r pre (rest ++ newline :: more) ↔ Refers rs sep r pre rest := by
  cases rest with
  | cons b rest => exact Refers.append_iff (List.cons_ne_nil b rest) _
  | nil =>
    obtain rfl := hdotted rfl
    have hclosed : ∀ b ∈ (newline :: more).head?, isNameByte b = false ∧ b ≠ slash := by
      rintro b ⟨⟩
      decide
    constructor
    · exact fun hr => ⟨hr.mem, hr.isSeparator, hr.opens, closesBefore_dot_iff.mpr (by simp)⟩
    · exact fun hr => ⟨hr.mem, hr.isSeparator, hr.opens, closesBefore_dot_iff.mpr hclosed⟩

theorem noReferenceAt_newline (pre more : Bytes) : NoReferenceAt rs pre (newline :: more) := by
  intro sep r rest h hrefers
  obtain ⟨rest', hnil, -⟩ :=
    exists_of_source_before_newline hrefers.mem hrefers.isSeparator ((List.nil_append _).trans h)
  exact spell_source_ne_nil hrefers.mem sep (List.append_eq_nil_iff.mp hnil.symm).1

theorem NoReferenceAt.before_newline (h : NoReferenceAt rs pre bs) (more : Bytes) :
    NoReferenceAt rs pre (bs ++ newline :: more) := by
  intro sep r rest hbs hrefers
  obtain ⟨rest', rfl, rfl⟩ := exists_of_source_before_newline hrefers.mem hrefers.isSeparator hbs
  refine h sep r rest' rfl ((Refers.before_newline_iff ?_ more).mp hrefers)
  rintro rfl
  refine hrefers.isSeparator.resolve_left ?_
  rintro rfl
  obtain hslash | ⟨hnil, -⟩ := closesBefore_slash_iff.mp hrefers.closes
  · exact absurd hslash (by decide : some newline ≠ some slash)
  · cases hnil

end Breaks

theorem AtLine.right {x y : Bytes} (h : AtLine (x ++ y)) : AtLine y := by
  intro b hb
  refine h b ?_
  rw [List.getLast?_append, Option.mem_def.mp hb]
  rfl

theorem atLine_concat (bs : Bytes) : AtLine (bs ++ [newline]) := by
  intro b hb
  rw [List.getLast?_concat] at hb
  exact (Option.some.inj hb).symm

theorem AtLine.rest_ne_nil (h : AtLine (spell sep r.source.toList ++ rest)) (hr : r ∈ rs.rules)
    (hsep : IsSeparator sep) : rest ≠ [] := by
  rintro rfl
  rw [List.append_nil] at h
  obtain ⟨init, b, hlast⟩ := (List.eq_nil_or_concat' _).resolve_left (spell_source_ne_nil hr sep)
  have hb : b = newline := h b (by rw [hlast]; exact List.getLast?_concat)
  have hmem : newline ∈ spell sep r.source.toList := by simp [hlast, hb]
  exact newline_notMem_source hr hsep hmem

theorem NoReferenceAt.append_lines (h : NoReferenceAt rs pre bs) (hlines : AtLine bs) (hne : bs ≠ [])
    (more : Bytes) : NoReferenceAt rs pre (bs ++ more) := by
  obtain ⟨line, b, rfl⟩ := (List.eq_nil_or_concat' bs).resolve_left hne
  obtain rfl : b = newline := hlines b List.getLast?_concat
  intro sep r rest hbs hrefers
  rw [List.append_assoc, List.singleton_append] at hbs
  obtain ⟨rest', rfl, rfl⟩ := exists_of_source_before_newline hrefers.mem hrefers.isSeparator hbs
  refine h sep r (rest' ++ [newline]) (List.append_assoc _ _ _) ?_
  rwa [← Refers.append_iff (by simp) more, List.append_assoc]

theorem Rewrites.append_lines (h : Rewrites rs pre bs out) (hlines : AtLine bs) {out' : Bytes}
    (hmore : Rewrites rs (pre ++ bs) more out') : Rewrites rs pre (bs ++ more) (out ++ out') := by
  induction h with
  | done pre => rwa [List.append_nil] at hmore
  | @keep pre bs out b hno htail ih =>
    rw [List.append_cons] at hmore
    exact .keep (hno.append_lines hlines (List.cons_ne_nil b bs) more)
      (ih (AtLine.right (x := [b]) hlines) hmore)
  | @swap pre rest out sep r hrefers htail ih =>
    rw [← List.append_assoc] at hmore
    have hne := hlines.rest_ne_nil hrefers.mem hrefers.isSeparator
    rw [List.append_assoc, List.append_assoc]
    exact .swap ((Refers.append_iff hne more).mpr hrefers) (ih hlines.right hmore)

theorem Rewrites.exists_line (h : Rewrites rs pre bs out) (hlines : AtLine bs) (hne : bs ≠ []) :
    ∃ line, out = line ++ [newline] := by
  induction h with
  | done => exact absurd rfl hne
  | @keep pre bs out b hno htail ih =>
    by_cases hlast : bs = []
    · subst hlast
      obtain rfl := Rewrites.unique (.done _) htail
      exact ⟨[], by rw [hlines b rfl]; rfl⟩
    · obtain ⟨line, rfl⟩ := ih (AtLine.right (x := [b]) hlines) hlast
      exact ⟨b :: line, rfl⟩
  | @swap pre rest out sep r hrefers htail ih =>
    obtain ⟨line, rfl⟩ := ih hlines.right (hlines.rest_ne_nil hrefers.mem hrefers.isSeparator)
    exact ⟨spell sep r.target.toList ++ line, (List.append_assoc _ _ _).symm⟩

/-- Before a line feed a text becomes the same as at its end, unless a reference with slashes ends
there. -/
theorem Rewrites.append_newline (h : Rewrites rs pre bs out)
    (hend : ∀ o ∈ selectedAfter rs pre bs, o.after = none → o.spelling = .dotted) :
    Rewrites rs pre (bs ++ [newline]) (out ++ [newline]) := by
  induction h with
  | done pre => exact .keep (noReferenceAt_newline pre []) (.done _)
  | @keep pre bs out b hno htail ih =>
    rw [selectedAfter_of_noReferenceAt hno] at hend
    exact .keep (hno.before_newline []) (ih hend)
  | @swap pre rest out sep r hrefers htail ih =>
    rw [hrefers.selectedAfter_eq, List.forall_mem_cons] at hend
    obtain ⟨hhere, hlater⟩ := hend
    have hdotted : rest = [] → sep = dot := by
      rintro rfl
      have hspelling := hhere rfl
      have hsep := hrefers.separator_eq
      rw [hspelling] at hsep
      exact hsep.symm
    rw [List.append_assoc, List.append_assoc]
    exact .swap ((Refers.before_newline_iff hdotted []).mpr hrefers) (ih hlater)

theorem Rewrites.congr_before (h : Rewrites rs pre bs out)
    (hopens : ∀ passed sep r rest, bs = passed ++ (spell sep r.source.toList ++ rest) →
      (Refers rs sep r (pre ++ passed) rest ↔ Refers rs sep r (pre' ++ passed) rest)) :
    Rewrites rs pre' bs out := by
  induction h generalizing pre' with
  | done => exact .done pre'
  | @keep pre bs out b hno htail ih =>
    have hhere : NoReferenceAt rs pre' (b :: bs) := by
      intro sep r rest hbs hrefers
      have hiff := hopens [] sep r rest hbs
      rw [List.append_nil, List.append_nil] at hiff
      exact hno sep r rest hbs (hiff.mpr hrefers)
    refine .keep hhere (ih fun passed sep r rest hbs => ?_)
    have hiff := hopens (b :: passed) sep r rest (by rw [hbs]; rfl)
    rwa [List.append_cons pre, List.append_cons pre'] at hiff
  | @swap pre rest out sep r hrefers htail ih =>
    have hiff := hopens [] sep r rest rfl
    rw [List.append_nil, List.append_nil] at hiff
    refine .swap (hiff.mp hrefers) (ih fun passed sep' r' rest' hrest => ?_)
    have hlater := hopens (spell sep r.source.toList ++ passed) sep' r' rest' (by rw [hrest]; simp)
    rwa [← List.append_assoc, ← List.append_assoc] at hlater

section Openings

theorem refers_congr (h : OpensAfter sep pre ↔ OpensAfter sep pre') :
    Refers rs sep r pre rest ↔ Refers rs sep r pre' rest := by
  constructor
  · exact fun hr => ⟨hr.mem, hr.isSeparator, h.mp hr.opens, hr.closes⟩
  · exact fun hr => ⟨hr.mem, hr.isSeparator, h.mpr hr.opens, hr.closes⟩

theorem opensAfter_newline_iff (hsep : IsSeparator sep) (pre passed : Bytes) :
    OpensAfter sep (newline :: passed) ↔ OpensAfter sep (pre ++ newline :: passed) := by
  have hlast : (pre ++ newline :: passed).getLast? = (newline :: passed).getLast? :=
    List.getLast?_append_of_ne_nil _ (List.cons_ne_nil _ _)
  have hsole : ¬ newline :: passed = [slash] := fun h => absurd (List.cons.inj h).1 (by decide)
  have hsole' : ¬ pre ++ newline :: passed = [slash] := by
    intro h
    have hmem : newline ∈ [slash] := h ▸ by simp
    exact absurd (List.mem_singleton.mp hmem) (by decide)
  obtain rfl | rfl := hsep
  · rw [opensAfter_slash_iff, opensAfter_slash_iff, hlast]
    simp only [hsole, hsole', false_or]
  · rw [opensAfter_dot_iff, opensAfter_dot_iff, hlast]

/-- What opens at the beginning of a line opens at that of a text, and the other way round but for a
reference with slashes behind a single slash. -/
theorem opensAfter_line_iff (hsep : IsSeparator sep) (passed : Bytes) :
    OpensAfter sep (newline :: passed) ↔
      OpensAfter sep passed ∧ (passed = [slash] → sep = dot) := by
  have hclear : isNameByte newline = false ∧ newline ≠ dot ∧ newline ≠ slash := by decide
  obtain rfl | ⟨init, b, rfl⟩ := List.eq_nil_or_concat' passed
  · obtain rfl | rfl := hsep
    · simp [opensAfter_slash_iff, hclear]
    · simp [opensAfter_dot_iff, hclear]
  · have hlast : (newline :: (init ++ [b])).getLast? = some b := by
      rw [← List.cons_append, List.getLast?_concat]
    obtain rfl | rfl := hsep
    · have hsole : ¬ newline :: (init ++ [b]) = [slash] := fun h => absurd (List.cons.inj h).1 (by decide)
      have hne : ¬ slash = dot := by decide
      have hL : ¬ slash = 0x4C := by decide
      rw [opensAfter_slash_iff, opensAfter_slash_iff, hlast, List.getLast?_concat]
      simp only [hsole, false_or, hne, imp_false, Option.mem_def, Option.some.injEq, forall_eq']
      constructor
      · intro h
        refine ⟨.inr h, fun he => ?_⟩
        obtain ⟨-, rfl⟩ : init = [] ∧ b = slash := by simpa [List.append_eq_singleton_iff] using he
        exact h.elim hL fun hno => hno.2.2 rfl
      · rintro ⟨h, hnot⟩
        exact h.resolve_left hnot
    · rw [opensAfter_dot_iff, opensAfter_dot_iff, hlast, List.getLast?_concat]
      simp

end Openings

theorem Rewrites.after_newline (h : Rewrites rs [newline] bs out) (pre : Bytes) :
    Rewrites rs (pre ++ [newline]) bs out := by
  refine h.congr_before fun passed sep r rest _ => ?_
  by_cases hsep : IsSeparator sep
  · rw [List.append_assoc]
    exact refers_congr (opensAfter_newline_iff hsep pre passed)
  · exact ⟨fun hr => absurd hr.isSeparator hsep, fun hr => absurd hr.isSeparator hsep⟩

theorem replaced_behind_slash (h : Refers rs slash r [slash] rest) :
    occurrence [slash] (r.literal slash) rest ∈
      rs.replaced (slash :: (spell slash r.source.toList ++ rest)) := by
  have hno : NoReferenceAt rs [] (slash :: (spell slash r.source.toList ++ rest)) := by
    intro sep r' rest' hbs hrefers
    obtain ⟨b, bs, hb, hname⟩ := head_spell (rs.isNamespace_source hrefers.mem) sep
    rw [hb] at hbs
    obtain ⟨rfl, -⟩ := List.cons.inj hbs
    exact absurd hname (by decide)
  have hselected : rs.replaced (slash :: (spell slash r.source.toList ++ rest)) =
      selectedAfter rs [slash] (spell slash r.source.toList ++ rest) :=
    selectedAfter_of_noReferenceAt hno
  rw [hselected, h.selectedAfter_eq]
  exact List.mem_cons_self

/-- A text becomes on a line what it becomes by itself, unless a reference with slashes follows a slash
that it begins with. -/
theorem Rewrites.at_line (h : Rewrites rs [] bs out) (hstart : rs.NoAbsoluteStart bs) :
    Rewrites rs [newline] bs out := by
  refine h.congr_before fun passed sep r rest hbs => ?_
  rw [List.nil_append, List.singleton_append]
  constructor
  · intro hrefers
    refine (refers_congr ?_).mp hrefers
    refine iff_of_true hrefers.opens ((opensAfter_line_iff hrefers.isSeparator passed).mpr
      ⟨hrefers.opens, ?_⟩)
    rintro rfl
    refine hrefers.isSeparator.resolve_left ?_
    rintro rfl
    have hmem := replaced_behind_slash hrefers
    rw [← List.singleton_append, ← hbs] at hmem
    have hsep := hrefers.separator_eq
    rw [hstart _ hmem rfl rfl] at hsep
    exact absurd hsep (by decide)
  · intro hrefers
    have hopens := ((opensAfter_line_iff hrefers.isSeparator passed).mp hrefers.opens).1
    exact (refers_congr (iff_of_true hopens hrefers.opens)).mpr hrefers

namespace RuleSet

variable (rs) (a b : Bytes)

theorem rewrites_rewritten (bs : Bytes) : Rewrites rs [] bs (rs.rewritten bs) :=
  rs.rewrites_replace bs

variable {rs} in
theorem rewritten_of_rewrites {bs out : Bytes} (h : Rewrites rs [] bs out) : rs.rewritten bs = out :=
  h.unique (rs.rewrites_rewritten bs)

/-- A line feed stays between what becomes of its two sides, and these do not depend on each other. -/
theorem exists_rewritten_sides :
    ∃ before after, rs.rewritten (a ++ [newline]) = before ++ [newline] ∧
      rs.rewritten (newline :: b) = newline :: after ∧
      rs.rewritten (a ++ newline :: b) = before ++ newline :: after := by
  have hfirst := rs.rewrites_rewritten (a ++ [newline])
  obtain ⟨before, hbefore⟩ := hfirst.exists_line (atLine_concat a) (by simp)
  obtain ⟨after, hafter, hlast⟩ :=
    (rs.rewrites_rewritten (newline :: b)).of_keep (noReferenceAt_newline [] b)
  have hboth := hfirst.append_lines (atLine_concat a) (hlast.after_newline a)
  rw [List.append_assoc, hbefore, List.append_assoc] at hboth
  exact ⟨before, after, hbefore, hafter, rewritten_of_rewrites hboth⟩

/-- A text is rewritten line by line, but for a reference with slashes at the end of what stands before
the line break and for one behind a slash at the beginning of what follows. -/
theorem rewritten_line_break :
    (rs.NoSlashedEnd a → rs.NoAbsoluteStart b →
        rs.rewritten (a ++ newline :: b) = rs.rewritten a ++ newline :: rs.rewritten b) ∧
      ∃ before after, rs.rewritten (a ++ [newline]) = before ++ [newline] ∧
        rs.rewritten (newline :: b) = newline :: after ∧
        rs.rewritten (a ++ newline :: b) = before ++ newline :: after := by
  refine ⟨fun hend hstart => ?_, rs.exists_rewritten_sides a b⟩
  have hfirst := (rs.rewrites_rewritten a).append_newline hend
  have hlast := ((rs.rewrites_rewritten b).at_line hstart).after_newline a
  have hboth := hfirst.append_lines (atLine_concat a) hlast
  rw [List.append_assoc, List.append_assoc] at hboth
  exact rewritten_of_rewrites hboth

end RuleSet

/-- Two lines with references of both spellings, and one with slashes at the beginning of the second. -/
theorem listed_lines_rewritten :
    vendored.NoSlashedEnd (utf8 "Lcom/vendor/lib/A; com.vendor.lib") ∧
      vendored.NoAbsoluteStart (utf8 "com/vendor/lib/B") ∧
      vendored.rewritten (utf8 "Lcom/vendor/lib/A; com.vendor.lib" ++
          newline :: utf8 "com/vendor/lib/B") =
        utf8 "Lshaded/vendor/lib/A; shaded.vendor.lib" ++ newline :: utf8 "shaded/vendor/lib/B" := by
  have hend : vendored.NoSlashedEnd (utf8 "Lcom/vendor/lib/A; com.vendor.lib") := by decide +kernel
  have hstart : vendored.NoAbsoluteStart (utf8 "com/vendor/lib/B") := by decide +kernel
  refine ⟨hend, hstart, ?_⟩
  rw [(RuleSet.rewritten_line_break vendored _ _).1 hend hstart]
  decide +kernel

/-- A bare name with slashes is a reference at the end of a text and not at that of a line, and an absolute
one at the beginning of a text and not at that of a line, so that of two absolute names only the first one is
rewritten. -/
theorem names_at_line_break_kept :
    vendored.rewritten (utf8 "com/vendor/lib" ++ newline :: []) = utf8 "com/vendor/lib" ++ [newline] ∧
      vendored.rewritten (utf8 "com/vendor/lib" ++ newline :: []) ≠
        vendored.rewritten (utf8 "com/vendor/lib") ++ newline :: vendored.rewritten [] ∧
      vendored.rewritten (utf8 "/com/vendor/lib/a.txt" ++ newline :: utf8 "/com/vendor/lib/b.txt") =
        utf8 "/shaded/vendor/lib/a.txt" ++ newline :: utf8 "/com/vendor/lib/b.txt" ∧
      vendored.rewritten (utf8 "/com/vendor/lib/a.txt" ++ newline :: utf8 "/com/vendor/lib/b.txt") ≠
        vendored.rewritten (utf8 "/com/vendor/lib/a.txt") ++
          newline :: vendored.rewritten (utf8 "/com/vendor/lib/b.txt") := by
  decide +kernel

end FatJar.Relocation
