import FatJar.Proofs.Relocation.References
import FatJar.Proofs.Relocation.Spelling

namespace FatJar.Relocation

variable {rs : RuleSet} {r : Rule} {sep : UInt8} {pre bs rest out : Bytes}

/-- No reference begins between `pre` and `bs`. -/
def NoReferenceAt (rs : RuleSet) (pre bs : Bytes) : Prop :=
  ∀ sep r rest, bs = spell sep r.source.toList ++ rest → ¬ Refers rs sep r pre rest

/-- Behind `pre`, the bytes `bs` become `out`. -/
inductive Rewrites (rs : RuleSet) : (pre bs out : Bytes) → Prop
  | done (pre : Bytes) : Rewrites rs pre [] []
  | keep {pre bs out : Bytes} {b : UInt8} (h : NoReferenceAt rs pre (b :: bs))
      (tail : Rewrites rs (pre ++ [b]) bs out) : Rewrites rs pre (b :: bs) (b :: out)
  | swap {pre rest out : Bytes} {sep : UInt8} {r : Rule} (h : Refers rs sep r pre rest)
      (tail : Rewrites rs (pre ++ spell sep r.source.toList) rest out) :
      Rewrites rs pre (spell sep r.source.toList ++ rest) (spell sep r.target.toList ++ out)

section Occurrences

theorem exists_of_occurrenceAt? {o : Occurrence}
    (h : occurrenceAt? rs.literals pre.length pre.getLast? bs = some o) :
    ∃ l rest, bs = l.text ++ rest ∧ l ∈ rs.literals ∧ o = occurrence pre l rest := by
  obtain ⟨l, hl, rest, hbs, rfl⟩ := occurrenceAt?_eq_some_iff.mp h
  exact ⟨l, rest, hbs, hl, rfl⟩

def Rule.literal (r : Rule) (sep : UInt8) : Literal :=
  ⟨r, spell sep r.source.toList⟩

theorem Refers.literal_mem (h : Refers rs sep r pre rest) : r.literal sep ∈ rs.literals :=
  mem_literals_iff.mpr ⟨h.mem, sep, h.isSeparator, rfl⟩

theorem Refers.occurrenceAt?_eq (h : Refers rs sep r pre rest) :
    occurrenceAt? rs.literals pre.length pre.getLast? (spell sep r.source.toList ++ rest) =
      some (occurrence pre (r.literal sep) rest) :=
  occurrenceAt?_eq_some_iff.mpr ⟨_, h.literal_mem, rest, rfl, rfl⟩

theorem Refers.separator_eq (h : Refers rs sep r pre rest) :
    (occurrence pre (r.literal sep) rest).spelling.separator = sep :=
  spelling_of_closes pre h.literal_mem h.isSeparator rfl h.closes

theorem Refers.isReference (h : Refers rs sep r pre rest) :
    (occurrence pre (r.literal sep) rest).isReference = true := by
  rw [isReference_occurrence_iff h.literal_mem, h.separator_eq]
  exact h

theorem Refers.replacement_eq (h : Refers rs sep r pre rest) :
    (occurrence pre (r.literal sep) rest).replacement = spell sep r.target.toList := by
  rw [replacement_occurrence h.literal_mem, h.separator_eq]
  rfl

theorem noReferenceAt_iff :
    NoReferenceAt rs pre bs ↔
      ∀ o, occurrenceAt? rs.literals pre.length pre.getLast? bs = some o → o.isReference = false := by
  constructor
  · intro h o ho
    obtain ⟨l, rest, hbs, hl, rfl⟩ := exists_of_occurrenceAt? ho
    rw [Bool.eq_false_iff]
    intro href
    refine h _ _ rest ?_ ((isReference_occurrence_iff hl).mp href)
    rw [hbs, ← text_eq_spell hl]
  · rintro h sep r rest rfl hrefers
    have href := hrefers.isReference
    rw [h _ hrefers.occurrenceAt?_eq] at href
    exact absurd href (by decide)

theorem spell_source_ne_nil (hr : r ∈ rs.rules) (sep : UInt8) : spell sep r.source.toList ≠ [] := by
  rw [Ne, spell_eq_nil_iff]
  exact (isNamespace_iff.mp (rs.isNamespace_source hr)).ne_nil

theorem spell_target_ne_nil (hr : r ∈ rs.rules) (sep : UInt8) : spell sep r.target.toList ≠ [] := by
  rw [Ne, spell_eq_nil_iff]
  exact (isNamespace_iff.mp (rs.isNamespace_target hr)).ne_nil

theorem noReferenceAt_nil (pre : Bytes) : NoReferenceAt rs pre [] := by
  intro sep r rest hnil hrefers
  exact spell_source_ne_nil hrefers.mem sep (List.append_eq_nil_iff.mp hnil.symm).1

theorem text_ne_nil {l : Literal} (hl : l ∈ rs.literals) : l.text ≠ [] := by
  obtain ⟨hr, sep, -, htext⟩ := mem_literals_iff.mp hl
  exact htext ▸ spell_source_ne_nil hr sep

end Occurrences

section Scanning

variable {literals : List Literal} {start : Nat} {before : Option UInt8} {b : UInt8}

theorem occurrencesFrom_acc (acc : List Occurrence) :
    occurrencesFrom literals acc start before bs =
      acc.reverse ++ occurrencesFrom literals [] start before bs := by
  induction bs generalizing acc start before with
  | nil => simp [occurrencesFrom]
  | cons b bs ih =>
    unfold occurrencesFrom
    split
    · exact ih acc
    · next o _ =>
      rw [ih (o :: acc), ih [o]]
      simp

theorem occurrencesFrom_cons :
    occurrencesFrom literals [] start before (b :: bs) =
      (occurrenceAt? literals start before (b :: bs)).toList ++
        occurrencesFrom literals [] (start + 1) (some b) bs := by
  rw [occurrencesFrom]
  cases occurrenceAt? literals start before (b :: bs) with
  | none => rfl
  | some o => exact occurrencesFrom_acc [o]

def occurrencesAfter (rs : RuleSet) (pre bs : Bytes) : List Occurrence :=
  occurrencesFrom rs.literals [] pre.length pre.getLast? bs

theorem occurrencesAfter_cons :
    occurrencesAfter rs pre (b :: bs) =
      (occurrenceAt? rs.literals pre.length pre.getLast? (b :: bs)).toList ++
        occurrencesAfter rs (pre ++ [b]) bs := by
  unfold occurrencesAfter
  rw [occurrencesFrom_cons]
  simp

theorem mem_occurrencesAfter_iff {o : Occurrence} :
    o ∈ occurrencesAfter rs pre bs ↔
      ∃ passed rest, bs = passed ++ rest ∧
        occurrenceAt? rs.literals (pre ++ passed).length (pre ++ passed).getLast? rest = some o := by
  induction bs generalizing pre with
  | nil =>
    simp only [occurrencesAfter, occurrencesFrom, List.reverse_nil, List.not_mem_nil, false_iff]
    rintro ⟨passed, rest, hnil, ho⟩
    obtain ⟨-, rfl⟩ := List.append_eq_nil_iff.mp hnil.symm
    obtain ⟨l, after, htext, hl, -⟩ := exists_of_occurrenceAt? ho
    exact text_ne_nil hl (List.append_eq_nil_iff.mp htext.symm).1
  | cons b bs ih =>
    rw [occurrencesAfter_cons, List.mem_append, Option.mem_toList, ih]
    constructor
    · rintro (ho | ⟨passed, rest, rfl, ho⟩)
      · exact ⟨[], b :: bs, rfl, by simpa using ho⟩
      · exact ⟨b :: passed, rest, rfl, by simpa using ho⟩
    · rintro ⟨passed, rest, hbs, ho⟩
      cases passed with
      | nil =>
        obtain rfl : b :: bs = rest := hbs
        exact .inl (by simpa using ho)
      | cons c passed =>
        obtain ⟨rfl, rfl⟩ := List.cons.inj hbs
        exact .inr ⟨passed, rest, rfl, by simpa using ho⟩

theorem le_start_of_mem {o : Occurrence} (h : o ∈ occurrencesAfter rs pre bs) :
    pre.length ≤ o.start := by
  obtain ⟨passed, rest, -, ho⟩ := mem_occurrencesAfter_iff.mp h
  obtain ⟨l, after, -, -, rfl⟩ := exists_of_occurrenceAt? ho
  simp [occurrence]

theorem RuleSet.find_eq_none_iff_noReferenceAt :
    rs.find bs = none ↔ ∀ pre rest, bs = pre ++ rest → NoReferenceAt rs pre rest := by
  rw [rs.find_eq_none_iff]
  have hall : occurrences rs.literals bs = occurrencesAfter rs [] bs := rfl
  rw [hall]
  constructor
  · rintro h pre rest rfl
    refine noReferenceAt_iff.mpr fun o ho => h o ?_
    exact mem_occurrencesAfter_iff.mpr ⟨pre, rest, rfl, ho⟩
  · intro h o ho
    obtain ⟨pre, rest, hbs, hat⟩ := mem_occurrencesAfter_iff.mp ho
    exact noReferenceAt_iff.mp (h pre rest hbs) o hat

end Scanning

section Selecting

variable {o : Occurrence} {os more : List Occurrence} {free free' : Nat}

theorem selectFrom_congr (h : ∀ o ∈ os, free ≤ o.start) (h' : ∀ o ∈ os, free' ≤ o.start) :
    selectFrom free os = selectFrom free' os := by
  induction os with
  | nil => rfl
  | cons o os ih =>
    rw [List.forall_mem_cons] at h h'
    simp only [selectFrom, h.1, h'.1, decide_true, Bool.true_and, ih h.2 h'.2]

theorem selectFrom_append_of_lt (h : ∀ o ∈ os, o.start < free) :
    selectFrom free (os ++ more) = selectFrom free more := by
  induction os with
  | nil => rfl
  | cons o os ih =>
    rw [List.forall_mem_cons] at h
    have hlate : ¬ free ≤ o.start := Nat.not_le.mpr h.1
    simp only [List.cons_append, selectFrom, hlate, decide_false, Bool.false_and,
      Bool.false_eq_true, if_false, ih h.2]

theorem mem_of_mem_selectFrom (h : o ∈ selectFrom free os) : o ∈ os := by
  induction os generalizing free with
  | nil => exact h
  | cons x os ih =>
    unfold selectFrom at h
    split at h
    · obtain rfl | h := List.mem_cons.mp h
      · exact List.mem_cons_self
      · exact List.mem_cons_of_mem _ (ih h)
    · exact List.mem_cons_of_mem _ (ih h)

theorem selectFrom_cons_of_not (h : o.isReference = false) :
    selectFrom free (o :: os) = selectFrom free os := by
  simp [selectFrom, h]

theorem selectFrom_cons_of_isReference (h : o.isReference = true) (hfree : free ≤ o.start) :
    selectFrom free (o :: os) = o :: selectFrom o.stop os := by
  simp [selectFrom, h, hfree]

theorem selectFrom_occurrencesAfter_append (pre passed : Bytes) :
    selectFrom (pre ++ passed).length (occurrencesAfter rs pre (passed ++ bs)) =
      selectFrom (pre ++ passed).length (occurrencesAfter rs (pre ++ passed) bs) := by
  induction passed generalizing pre with
  | nil => simp
  | cons b passed ih =>
    rw [List.cons_append, occurrencesAfter_cons, selectFrom_append_of_lt]
    · have hih := ih (pre ++ [b])
      rw [List.append_assoc, List.singleton_append] at hih
      exact hih
    · intro o ho
      obtain ⟨l, after, -, -, rfl⟩ := exists_of_occurrenceAt? (Option.mem_toList.mp ho)
      simp [occurrence]

end Selecting

section Splicing

variable {os : List Occurrence} {o : Occurrence} {pos : Nat} {b : UInt8}

theorem spliceFrom_acc (acc : List Bytes) :
    spliceFrom acc pos bs os = acc.reverse.flatten ++ spliceFrom [] pos bs os := by
  induction os generalizing acc pos bs with
  | nil => simp [spliceFrom]
  | cons o os ih =>
    unfold spliceFrom
    rw [ih (o.replacement :: _ :: acc), ih [o.replacement, _]]
    simp

theorem spliceFrom_cons (h : ∀ o ∈ os, pos < o.start) :
    spliceFrom [] pos (b :: bs) os = b :: spliceFrom [] (pos + 1) bs os := by
  cases os with
  | nil => simp [spliceFrom]
  | cons o os =>
    have hlt := h o List.mem_cons_self
    obtain ⟨n, hn⟩ := Nat.exists_eq_add_of_lt hlt
    have hpos : o.start - pos = n + 1 := by omega
    have hpos' : o.start - (pos + 1) = n := by omega
    unfold spliceFrom
    rw [hpos, hpos', spliceFrom_acc, spliceFrom_acc [_, _]]
    simp

theorem spliceFrom_of_start (rest : Bytes) (os : List Occurrence) (h : o.start = pos)
    (hbs : bs = o.literal.text ++ rest) :
    spliceFrom [] pos bs (o :: os) = o.replacement ++ spliceFrom [] o.stop rest os := by
  rw [spliceFrom, spliceFrom_acc, h, hbs]
  simp

end Splicing

def selectedAfter (rs : RuleSet) (pre bs : Bytes) : List Occurrence :=
  selectFrom pre.length (occurrencesAfter rs pre bs)

theorem selectedAfter_of_noReferenceAt {b : UInt8} (h : NoReferenceAt rs pre (b :: bs)) :
    selectedAfter rs pre (b :: bs) = selectedAfter rs (pre ++ [b]) bs := by
  have hstart : ∀ o ∈ occurrencesAfter rs (pre ++ [b]) bs, (pre ++ [b]).length ≤ o.start :=
    fun o => le_start_of_mem
  have hstart' : ∀ o ∈ occurrencesAfter rs (pre ++ [b]) bs, pre.length ≤ o.start := by
    intro o ho
    have hle := hstart o ho
    simp only [List.length_append, List.length_singleton] at hle
    omega
  unfold selectedAfter
  rw [occurrencesAfter_cons]
  cases ho : occurrenceAt? rs.literals pre.length pre.getLast? (b :: bs) with
  | none => exact selectFrom_congr hstart' hstart
  | some o =>
    rw [Option.toList_some, List.singleton_append,
      selectFrom_cons_of_not (noReferenceAt_iff.mp h o ho)]
    exact selectFrom_congr hstart' hstart

theorem stop_occurrence (pre rest : Bytes) (r : Rule) (sep : UInt8) :
    (occurrence pre (r.literal sep) rest).stop = (pre ++ spell sep r.source.toList).length :=
  List.length_append.symm

theorem Refers.selectedAfter_eq (h : Refers rs sep r pre rest) :
    selectedAfter rs pre (spell sep r.source.toList ++ rest) =
      occurrence pre (r.literal sep) rest ::
        selectedAfter rs (pre ++ spell sep r.source.toList) rest := by
  have ho := h.occurrenceAt?_eq
  have hstop := stop_occurrence pre rest r sep
  generalize hoccurrence : occurrence pre (r.literal sep) rest = o at ho hstop
  have hstart : o.start = pre.length := by rw [← hoccurrence, occurrence]
  have href : o.isReference = true := hoccurrence ▸ h.isReference
  have hne := spell_source_ne_nil h.mem sep
  obtain ⟨os, hos⟩ : ∃ os, occurrencesAfter rs pre (spell sep r.source.toList ++ rest) = o :: os := by
    obtain ⟨b, bs, hbs⟩ := List.exists_cons_of_ne_nil hne
    rw [hbs, List.cons_append] at ho ⊢
    rw [occurrencesAfter_cons, ho]
    exact ⟨_, rfl⟩
  have hlate : o.start < (pre ++ spell sep r.source.toList).length := by
    have hpos := List.length_pos_of_ne_nil hne
    rw [hstart, List.length_append]
    omega
  have hskip : selectFrom (pre ++ spell sep r.source.toList).length ([o] ++ os) =
      selectFrom (pre ++ spell sep r.source.toList).length os :=
    selectFrom_append_of_lt (by simpa using hlate)
  unfold selectedAfter
  rw [← selectFrom_occurrencesAfter_append, hos, selectFrom_cons_of_isReference href hstart.ge,
    hstop, ← hskip, List.singleton_append]

theorem rewrites_spliceFrom (pre bs : Bytes) :
    Rewrites rs pre bs (spliceFrom [] pre.length bs (selectedAfter rs pre bs)) := by
  -- By length, for a swap passes over a whole source at once.
  induction hn : bs.length using Nat.strong_induction_on generalizing pre bs with
  | _ n ih =>
    subst hn
    cases bs with
    | nil => exact .done pre
    | cons b bs =>
      by_cases h : NoReferenceAt rs pre (b :: bs)
      · have hlater : ∀ o ∈ selectedAfter rs (pre ++ [b]) bs, pre.length < o.start := by
          intro o ho
          have hle := le_start_of_mem (mem_of_mem_selectFrom ho)
          rwa [List.length_append, List.length_singleton] at hle
        rw [selectedAfter_of_noReferenceAt h, spliceFrom_cons hlater]
        have htail := ih bs.length (Nat.lt_succ_self _) (pre ++ [b]) bs rfl
        rw [List.length_append, List.length_singleton] at htail
        exact .keep h htail
      · unfold NoReferenceAt at h
        push Not at h
        obtain ⟨sep, r, rest, hbs, hrefers⟩ := h
        have hshorter : rest.length < (b :: bs).length := by
          have hpos := List.length_pos_of_ne_nil (spell_source_ne_nil hrefers.mem sep)
          rw [hbs, List.length_append]
          omega
        have hsplice := spliceFrom_of_start (o := occurrence pre (r.literal sep) rest) rest
          (selectedAfter rs (pre ++ spell sep r.source.toList) rest) rfl rfl
        rw [hrefers.replacement_eq, stop_occurrence] at hsplice
        rw [hbs, hrefers.selectedAfter_eq]
        exact hsplice ▸ .swap hrefers (ih rest.length hshorter _ rest rfl)

namespace RuleSet

variable (rs)

theorem rewrites_replace (bs : Bytes) : Rewrites rs [] bs ((rs.replace bs).getD bs) := by
  have h : Rewrites rs [] bs _ := rewrites_spliceFrom [] bs
  have hresult : (rs.replace bs).getD bs = spliceFrom [] 0 bs (selectedAfter rs [] bs) := by
    have hselected : selectedAfter rs [] bs = selectFrom 0 (occurrences rs.literals bs) := rfl
    unfold replace
    rw [hselected]
    cases selectFrom 0 (occurrences rs.literals bs) with
    | nil => simp [spliceFrom]
    | cons o os => rfl
  rw [hresult]
  exact h

variable {rs} in
theorem rewrites_of_replace (h : rs.replace bs = some out) : Rewrites rs [] bs out := by
  have hrewrites := rs.rewrites_replace bs
  rwa [h, Option.getD_some] at hrewrites

end RuleSet

theorem Rewrites.eq_self (h : Rewrites rs pre bs out)
    (hno : ∀ passed rest, bs = passed ++ rest → NoReferenceAt rs (pre ++ passed) rest) : out = bs := by
  induction h with
  | done => rfl
  | keep _ _ ih =>
    rw [ih]
    intro passed rest hbs
    have hlater := hno (_ :: passed) rest (by rw [hbs]; rfl)
    rwa [List.append_cons] at hlater
  | swap hrefers _ _ =>
    have hhere := hno [] _ rfl
    rw [List.append_nil] at hhere
    exact absurd hrefers (hhere _ _ _ rfl)

theorem Refers.unique {sep' : UInt8} {r' : Rule} {rest' : Bytes} (h : Refers rs sep r pre rest)
    (h' : Refers rs sep' r' pre rest')
    (hbs : spell sep r.source.toList ++ rest = spell sep' r'.source.toList ++ rest') :
    spell sep r.source.toList = spell sep' r'.source.toList ∧ rest = rest' ∧
      spell sep r.target.toList = spell sep' r'.target.toList := by
  have ho := h.occurrenceAt?_eq
  rw [hbs, h'.occurrenceAt?_eq] at ho
  have hoccurrence := Option.some.inj ho
  have hsame : spell sep r.source.toList = spell sep' r'.source.toList :=
    (congrArg (·.literal.text) hoccurrence).symm
  have htarget := congrArg Occurrence.replacement hoccurrence
  rw [h.replacement_eq, h'.replacement_eq] at htarget
  rw [hsame] at hbs
  exact ⟨hsame, List.append_cancel_left hbs, htarget.symm⟩

theorem Rewrites.of_refers (h : Rewrites rs pre bs out) (hrefers : Refers rs sep r pre rest)
    (hbs : bs = spell sep r.source.toList ++ rest) :
    ∃ out', out = spell sep r.target.toList ++ out' ∧
      Rewrites rs (pre ++ spell sep r.source.toList) rest out' := by
  cases h with
  | done => exact absurd hrefers (noReferenceAt_nil _ _ _ _ hbs)
  | keep hno _ => exact absurd hrefers (hno _ _ _ hbs)
  | @swap _ _ out _ _ hrefers' htail =>
    obtain ⟨hsource, rfl, htarget⟩ := hrefers'.unique hrefers hbs
    rw [hsource] at htail
    exact ⟨out, by rw [htarget], htail⟩

theorem Rewrites.of_keep {b : UInt8} (h : Rewrites rs pre (b :: bs) out)
    (hno : NoReferenceAt rs pre (b :: bs)) :
    ∃ out', out = b :: out' ∧ Rewrites rs (pre ++ [b]) bs out' := by
  generalize hbs : b :: bs = text at h
  cases h with
  | done => cases hbs
  | keep _ htail =>
    obtain ⟨rfl, rfl⟩ := List.cons.inj hbs
    exact ⟨_, rfl, htail⟩
  | swap hrefers _ => exact absurd hrefers (hno _ _ _ hbs)

/-- No reference begins in `passed`, which stands between `pre` and `rest`. -/
def NoReferenceIn (rs : RuleSet) (pre passed rest : Bytes) : Prop :=
  ∀ before after, passed = before ++ after → after ≠ [] →
    NoReferenceAt rs (pre ++ before) (after ++ rest)

theorem noReferenceIn_nil (pre rest : Bytes) : NoReferenceIn rs pre [] rest := by
  intro before after hnil hne
  exact absurd (List.append_eq_nil_iff.mp hnil.symm).2 hne

theorem noReferenceIn_cons_iff {b : UInt8} {passed : Bytes} :
    NoReferenceIn rs pre (b :: passed) rest ↔
      NoReferenceAt rs pre (b :: (passed ++ rest)) ∧ NoReferenceIn rs (pre ++ [b]) passed rest := by
  constructor
  · intro h
    refine ⟨?_, fun before after hpassed hne => ?_⟩
    · have hhere := h [] (b :: passed) rfl (List.cons_ne_nil b passed)
      rwa [List.append_nil] at hhere
    · have hlater := h (b :: before) after (by rw [hpassed]; rfl) hne
      rwa [List.append_cons] at hlater
  · rintro ⟨hhere, hlater⟩ before after hpassed hne
    cases before with
    | nil =>
      obtain rfl : b :: passed = after := hpassed
      rwa [List.append_nil]
    | cons c before =>
      obtain ⟨rfl, rfl⟩ := List.cons.inj hpassed
      rw [List.append_cons]
      exact hlater before after rfl hne

theorem noReferenceIn_append_iff {passed more : Bytes} :
    NoReferenceIn rs pre (passed ++ more) rest ↔
      NoReferenceIn rs pre passed (more ++ rest) ∧ NoReferenceIn rs (pre ++ passed) more rest := by
  induction passed generalizing pre with
  | nil => simp [noReferenceIn_nil]
  | cons b passed ih =>
    rw [List.cons_append, noReferenceIn_cons_iff, noReferenceIn_cons_iff, ih, List.append_assoc,
      ← List.append_cons, and_assoc]

theorem NoReferenceIn.selectedAfter_eq {passed : Bytes} (h : NoReferenceIn rs pre passed rest) :
    selectedAfter rs pre (passed ++ rest) = selectedAfter rs (pre ++ passed) rest := by
  induction passed generalizing pre with
  | nil => rw [List.append_nil, List.nil_append]
  | cons b passed ih =>
    obtain ⟨hhere, hlater⟩ := noReferenceIn_cons_iff.mp h
    rw [List.cons_append, selectedAfter_of_noReferenceAt hhere, ih hlater, ← List.append_cons]

theorem Rewrites.of_noReference {passed : Bytes} (h : Rewrites rs pre (passed ++ rest) out)
    (hno : NoReferenceIn rs pre passed rest) :
    ∃ out', out = passed ++ out' ∧ Rewrites rs (pre ++ passed) rest out' := by
  induction passed generalizing pre out with
  | nil => exact ⟨out, rfl, by rwa [List.append_nil]⟩
  | cons b passed ih =>
    obtain ⟨hhere, hlater⟩ := noReferenceIn_cons_iff.mp hno
    obtain ⟨out', rfl, htail⟩ := h.of_keep hhere
    obtain ⟨out'', rfl, hrest⟩ := ih htail hlater
    exact ⟨out'', rfl, by rwa [List.append_cons]⟩

theorem Rewrites.unique {out' : Bytes} (h : Rewrites rs pre bs out) (h' : Rewrites rs pre bs out') :
    out' = out := by
  induction h generalizing out' with
  | done =>
    refine h'.eq_self fun passed rest hnil => ?_
    obtain ⟨-, rfl⟩ := List.append_eq_nil_iff.mp hnil.symm
    exact noReferenceAt_nil _
  | keep hno _ ih =>
    obtain ⟨out'', rfl, htail⟩ := h'.of_keep hno
    rw [ih htail]
  | swap hrefers _ ih =>
    obtain ⟨out'', rfl, htail⟩ := h'.of_refers hrefers rfl
    rw [ih htail]

theorem Rewrites.exists_target {passed : Bytes} (h : Rewrites rs pre bs out)
    (hbs : bs = passed ++ rest) (href : ¬ NoReferenceAt rs (pre ++ passed) rest) :
    ∃ sep, IsSeparator sep ∧ ∃ r ∈ rs.rules, spell sep r.target.toList ⊆ out := by
  induction h generalizing passed rest with
  | done pre =>
    obtain ⟨rfl, rfl⟩ := List.append_eq_nil_iff.mp hbs.symm
    exact absurd (noReferenceAt_nil _) href
  | @keep pre bs out b hno _ ih =>
    cases passed with
    | nil =>
      rw [List.append_nil, ← List.nil_append rest, ← hbs] at href
      exact absurd hno href
    | cons c passed =>
      obtain ⟨rfl, htail⟩ := List.cons.inj hbs
      rw [List.append_cons] at href
      obtain ⟨sep, hsep, r, hr, hsub⟩ := ih htail href
      exact ⟨sep, hsep, r, hr, List.Subset.trans hsub (List.subset_cons_self b out)⟩
  | @swap _ _ _ sep r hrefers _ _ =>
    exact ⟨sep, hrefers.isSeparator, r, hrefers.mem, List.subset_append_left _ _⟩

theorem Rewrites.mem_or {b : UInt8} (h : Rewrites rs pre bs out) (hb : b ∈ out) :
    b ∈ bs ∨ ∃ sep, IsSeparator sep ∧ ∃ r ∈ rs.rules, b ∈ spell sep r.target.toList := by
  induction h with
  | done => exact .inl hb
  | keep _ _ ih =>
    obtain rfl | hb := List.mem_cons.mp hb
    · exact .inl List.mem_cons_self
    · exact (ih hb).imp_left (List.mem_cons_of_mem _)
  | @swap _ _ _ sep r hrefers _ ih =>
    obtain hb | hb := List.mem_append.mp hb
    · exact .inr ⟨sep, hrefers.isSeparator, r, hrefers.mem, hb⟩
    · exact (ih hb).imp_left (List.mem_append_right _)

end FatJar.Relocation
