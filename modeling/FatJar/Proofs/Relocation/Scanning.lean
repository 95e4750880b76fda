import FatJar.Proofs.Relocation.Rewriting
import Mathlib.Data.List.Nodup

namespace FatJar.Relocation

/-- A piece of a text: a byte that is kept, or a reference with what takes its place. -/
inductive Piece where
  | kept (b : UInt8)
  | replaced (o : Occurrence)

namespace Piece

def text : Piece → Bytes
  | kept b => [b]
  | replaced o => o.replacement

def occurrence? : Piece → Option Occurrence
  | kept _ => none
  | replaced o => some o

end Piece

/-- The first literal that is referred to at the head of `bs`, of all that are there. -/
def referenceAt? (literals : List Literal) (start : Nat) (before : Option UInt8) (bs : Bytes) :
    Option Occurrence :=
  literals.findSome? fun l =>
    ((l.text.isPrefixOf? bs).map fun rest =>
      (⟨start, before, l, rest.head?⟩ : Occurrence)).filter Occurrence.isReference

/-- The pieces from `start` on, where `skip` bytes belong to a reference that began before. -/
def piecesFrom (literals : List Literal) :
    (skip start : Nat) → (before : Option UInt8) → Bytes → List Piece
  | _, _, _, [] => []
  | skip + 1, start, _, b :: bs => piecesFrom literals skip (start + 1) (some b) bs
  | 0, start, before, b :: bs =>
    match referenceAt? literals start before (b :: bs) with
    | none => .kept b :: piecesFrom literals 0 (start + 1) (some b) bs
    | some o => .replaced o :: piecesFrom literals (o.literal.text.length - 1) (start + 1) (some b) bs

/-- What a search in a text from `pos` on has found. -/
structure Found (bs : Bytes) (pos : Nat) where
  start : Nat
  stop : Nat
  le_start : pos ≤ start
  start_lt : start < stop
  stop_le : stop ≤ bs.length

abbrev Search :=
  (bs : Bytes) → (pos : Nat) → Option (Found bs pos)

def standsAt? (literals : List Literal) (bs : Bytes) (place : Nat) : Option Literal :=
  literals.find? (·.text.isPrefixOf (bs.drop place))

/-- Whether this is the leftmost place from `pos` on with a literal, and there the first literal. -/
def Leftmost (literals : List Literal) {bs : Bytes} {pos : Nat} : Option (Found bs pos) → Prop
  | none => ∀ place, pos ≤ place → standsAt? literals bs place = none
  | some m =>
    (∃ l, standsAt? literals bs m.start = some l ∧ m.stop = m.start + l.text.length) ∧
      ∀ place, pos ≤ place → place < m.start → standsAt? literals bs place = none

def IsLeftmost (literals : List Literal) (search : Search) : Prop :=
  ∀ bs pos, Leftmost literals (search bs pos)

namespace RuleSet

def pieces (rs : RuleSet) (bs : Bytes) : List Piece :=
  piecesFrom rs.literals 0 0 none bs

def scanned (rs : RuleSet) (bs : Bytes) : List Occurrence :=
  (rs.pieces bs).filterMap Piece.occurrence?

/-- Replaces all references in a plain scan; `none` when there is none. -/
def scan (rs : RuleSet) (bs : Bytes) : Option Bytes :=
  if (rs.scanned bs).isEmpty then none else some ((rs.pieces bs).flatMap Piece.text)

def accept? (rs : RuleSet) (bs : Bytes) (start stop : Nat) : Option Occurrence :=
  ((rs.literals.find? (·.text == (bs.take stop).drop start)).map fun l =>
    (⟨start, (bs.take start).getLast?, l, (bs.drop stop).head?⟩ : Occurrence)).filter Occurrence.isReference

variable (rs : RuleSet) (search : Search) (bs : Bytes)

/-- Replaces what a search finds from `pos` on. `out` has what has become of the bytes before `copied`. -/
def replaceFrom (out : Bytes) (copied pos : Nat) : Bytes × Nat :=
  match search bs pos with
  | none => (out, copied)
  | some m =>
    match rs.accept? bs m.start m.stop with
    | none => replaceFrom out copied (m.start + 1)
    | some o => replaceFrom (out ++ (bs.take m.start).drop copied ++ o.replacement) m.stop m.stop
termination_by bs.length - pos
decreasing_by
  all_goals
    have hpos := m.le_start
    have hstart := m.start_lt
    have hstop := m.stop_le
    omega

/-- Replaces all references by means of a search. -/
def replaceBy : Option Bytes :=
  if rs.rules.isEmpty then none
  else
    match rs.replaceFrom search bs [] 0 0 with
    | (_, 0) => none
    | (out, copied) => some (out ++ bs.drop copied)

/-- The rule of the first reference that a search finds from `pos` on. -/
def findFrom (pos : Nat) : Option Rule :=
  match search bs pos with
  | none => none
  | some m =>
    match rs.accept? bs m.start m.stop with
    | none => findFrom (m.start + 1)
    | some o => some o.literal.rule
termination_by bs.length - pos
decreasing_by
  have hpos := m.le_start
  have hstart := m.start_lt
  have hstop := m.stop_le
  omega

end RuleSet

variable {rs : RuleSet} {r : Rule} {sep : UInt8} {pre passed bs rest out : Bytes}

section Places

theorem length_pos_of_mem {l : Literal} (hl : l ∈ rs.literals) : 0 < l.text.length :=
  List.length_pos_of_ne_nil (text_ne_nil hl)

theorem standsAt?_eq_none_iff {place : Nat} :
    standsAt? rs.literals bs place = none ↔ ∀ l ∈ rs.literals, ¬ l.text <+: bs.drop place := by
  unfold standsAt?
  rw [List.find?_eq_none]
  simp only [List.isPrefixOf_iff_prefix]

theorem standsAt?_eq_some_iff {place : Nat} {l : Literal} :
    standsAt? rs.literals bs place = some l ↔ l ∈ rs.literals ∧ l.text <+: bs.drop place := by
  have hfound : ∀ {l}, standsAt? rs.literals bs place = some l →
      l ∈ rs.literals ∧ l.text <+: bs.drop place := by
    intro l h
    have hstands := List.find?_some h
    exact ⟨List.mem_of_find?_eq_some h, List.isPrefixOf_iff_prefix.mp hstands⟩
  refine ⟨hfound, fun ⟨hl, hstands⟩ => ?_⟩
  obtain ⟨l', hl'⟩ : ∃ l', standsAt? rs.literals bs place = some l' := by
    rw [← Option.ne_none_iff_exists']
    exact fun hnone => standsAt?_eq_none_iff.mp hnone l hl hstands
  rw [hl', literal_eq_of_prefix hl (hfound hl').1 hstands (hfound hl').2]

theorem noReferenceAt_of_standsAt? (h : standsAt? rs.literals (pre ++ rest) pre.length = none) :
    NoReferenceAt rs pre rest := by
  rintro sep r more rfl hrefers
  refine standsAt?_eq_none_iff.mp h _ hrefers.literal_mem ?_
  rw [List.drop_left]
  exact List.prefix_append _ _

theorem noReferenceIn_of_standsAt?
    (h : ∀ place, pre.length ≤ place → place < (pre ++ passed).length →
      standsAt? rs.literals (pre ++ (passed ++ rest)) place = none) :
    NoReferenceIn rs pre passed rest := by
  rintro before after rfl hne
  have hplace := h (pre ++ before).length (by simp) (by
    have hpos := List.length_pos_of_ne_nil hne
    simp only [List.length_append]
    omega)
  rw [List.append_assoc, ← List.append_assoc] at hplace
  exact noReferenceAt_of_standsAt? hplace

theorem nodup_rules (rs : RuleSet) : rs.rules.Nodup := by
  rw [List.nodup_iff_injective_get]
  intro i j hij
  by_contra hne
  have hfault := rs.faultBeside?_eq_none (List.getElem?_eq_getElem i.isLt)
    (List.getElem?_eq_getElem j.isLt)
  have hsame : rs.rules[i.val] = rs.rules[j.val] := hij
  have hval : (i.val == j.val) = false := by simpa [Fin.ext_iff] using hne
  rw [hsame, hval] at hfault
  simp [faultBeside?] at hfault

theorem rule_of_mem_literals {l : Literal} (h : l ∈ r.literals) : l.rule = r := by
  unfold Rule.literals at h
  dsimp only at h
  split at h
  · rw [List.mem_singleton.mp h]
  · obtain rfl | rfl := List.mem_pair.mp h <;> rfl

theorem nodup_literals (rs : RuleSet) : rs.literals.Nodup := by
  refine List.nodup_flatMap.mpr ⟨fun r _ => ?_, ?_⟩
  · unfold Rule.literals
    dsimp only
    split
    · exact List.nodup_singleton _
    · next hne => simpa using hne
  · exact (nodup_rules rs).imp fun hne l ha hb =>
      hne ((rule_of_mem_literals ha).symm.trans (rule_of_mem_literals hb))

theorem length_literals_at_le (rs : RuleSet) (bs : Bytes) (place : Nat) :
    (rs.literals.filter (·.text.isPrefixOf (bs.drop place))).length ≤ 1 := by
  refine length_le_one_of_sole ((nodup_literals rs).filter _) fun a ha b hb => ?_
  obtain ⟨ha, hastands⟩ := List.mem_filter.mp ha
  obtain ⟨hb, hbstands⟩ := List.mem_filter.mp hb
  exact literal_eq_of_prefix ha hb (List.isPrefixOf_iff_prefix.mp hastands)
    (List.isPrefixOf_iff_prefix.mp hbstands)

end Places

section Plain

theorem referenceAt?_eq (start : Nat) (before : Option UInt8) (bs : Bytes) :
    referenceAt? rs.literals start before bs =
      (occurrenceAt? rs.literals start before bs).filter Occurrence.isReference := by
  ext o
  rw [Option.filter_eq_some_iff, occurrenceAt?_eq_some_iff, referenceAt?,
    findSome?_eq_some_iff_of_sole]
  · simp only [Option.filter_eq_some_iff, Option.map_eq_some_iff,
      List.isPrefixOf?_eq_some_iff_append_eq]
    constructor
    · rintro ⟨l, hl, ⟨rest, hrest, rfl⟩, href⟩
      exact ⟨⟨l, hl, rest, hrest.symm, rfl⟩, href⟩
    · rintro ⟨⟨l, hl, rest, hrest, rfl⟩, href⟩
      exact ⟨l, hl, ⟨rest, hrest.symm, rfl⟩, href⟩
  · intro a ha b hb hsa hsb
    have hstands : ∀ {l : Literal}, (((l.text.isPrefixOf? bs).map fun rest =>
        (⟨start, before, l, rest.head?⟩ : Occurrence)).filter Occurrence.isReference).isSome →
        l.text <+: bs := by
      intro l hsome
      obtain ⟨o, ho⟩ := Option.isSome_iff_exists.mp hsome
      obtain ⟨rest, hrest, -⟩ := Option.map_eq_some_iff.mp (Option.filter_eq_some_iff.mp ho).1
      exact ⟨rest, List.isPrefixOf?_eq_some_iff_append_eq.mp hrest⟩
    exact literal_eq_of_prefix ha hb (hstands hsa) (hstands hsb)

def piecesAfter (rs : RuleSet) (pre bs : Bytes) : List Piece :=
  piecesFrom rs.literals 0 pre.length pre.getLast? bs

theorem piecesFrom_skip (rs : RuleSet) (pre passed rest : Bytes) :
    piecesFrom rs.literals passed.length pre.length pre.getLast? (passed ++ rest) =
      piecesAfter rs (pre ++ passed) rest := by
  induction passed generalizing pre with
  | nil => rw [List.append_nil, List.nil_append, List.length_nil, piecesAfter]
  | cons b passed ih =>
    have hih := ih (pre ++ [b])
    rw [List.length_append, List.length_singleton, List.getLast?_concat, ← List.append_cons] at hih
    rw [List.length_cons, List.cons_append, piecesFrom, hih]

theorem NoReferenceAt.piecesAfter_eq {b : UInt8} (h : NoReferenceAt rs pre (b :: rest)) :
    piecesAfter rs pre (b :: rest) = .kept b :: piecesAfter rs (pre ++ [b]) rest := by
  have hnone : referenceAt? rs.literals pre.length pre.getLast? (b :: rest) = none := by
    rw [referenceAt?_eq, Option.filter_eq_none_iff]
    intro o ho
    rw [noReferenceAt_iff.mp h o ho]
    decide
  rw [piecesAfter, piecesFrom, hnone, piecesAfter, List.length_append, List.length_singleton,
    List.getLast?_concat]

theorem Refers.piecesAfter_eq (h : Refers rs sep r pre rest) :
    piecesAfter rs pre (spell sep r.source.toList ++ rest) =
      .replaced (occurrence pre (r.literal sep) rest) ::
        piecesAfter rs (pre ++ spell sep r.source.toList) rest := by
  have hhere : referenceAt? rs.literals pre.length pre.getLast? (spell sep r.source.toList ++ rest) =
      some (occurrence pre (r.literal sep) rest) := by
    rw [referenceAt?_eq, h.occurrenceAt?_eq, Option.filter_some, if_pos h.isReference]
  have htext : (occurrence pre (r.literal sep) rest).literal.text = spell sep r.source.toList := rfl
  generalize occurrence pre (r.literal sep) rest = o at hhere htext
  obtain ⟨b, bs, hbs⟩ := List.exists_cons_of_ne_nil (spell_source_ne_nil h.mem sep)
  have hskip := piecesFrom_skip rs (pre ++ [b]) bs rest
  rw [List.length_append, List.length_singleton, List.getLast?_concat, ← List.append_cons] at hskip
  rw [hbs, List.cons_append] at hhere ⊢
  rw [piecesAfter, piecesFrom, hhere]
  dsimp only
  rw [htext, hbs, List.length_cons, Nat.add_sub_cancel, hskip]

theorem Rewrites.pieces (h : Rewrites rs pre bs out) :
    (piecesAfter rs pre bs).flatMap Piece.text = out ∧
      (piecesAfter rs pre bs).filterMap Piece.occurrence? = selectedAfter rs pre bs := by
  induction h with
  | done => exact ⟨rfl, rfl⟩
  | keep hno _ ih =>
    rw [hno.piecesAfter_eq, selectedAfter_of_noReferenceAt hno]
    exact ⟨congrArg (List.cons _) ih.1, ih.2⟩
  | swap hrefers _ ih =>
    rw [hrefers.piecesAfter_eq, hrefers.selectedAfter_eq, List.flatMap_cons, ih.1, Piece.text,
      hrefers.replacement_eq]
    exact ⟨rfl, congrArg (List.cons _) ih.2⟩

end Plain

section Searching

variable {search : Search}

theorem accept?_eq {l : Literal} (hl : l ∈ rs.literals) (pre rest : Bytes) :
    rs.accept? (pre ++ (l.text ++ rest)) pre.length (pre ++ l.text).length =
      (some (occurrence pre l rest)).filter Occurrence.isReference := by
  have hfind : rs.literals.find? (·.text == l.text) = some l := by
    obtain ⟨l', hl'⟩ : ∃ l', rs.literals.find? (·.text == l.text) = some l' := by
      rw [← Option.isSome_iff_exists, List.find?_isSome]
      exact ⟨l, hl, beq_self_eq_true l.text⟩
    have htext := List.find?_some hl'
    have hbegins : l'.text <+: l.text := eq_of_beq htext ▸ List.prefix_rfl
    rw [hl', literal_eq_of_begins (List.mem_of_find?_eq_some hl') hl hbegins]
  have hbetween : ((pre ++ (l.text ++ rest)).take (pre ++ l.text).length).drop pre.length = l.text := by
    rw [← List.append_assoc, List.take_left, List.drop_left]
  have hafter : (pre ++ (l.text ++ rest)).drop (pre ++ l.text).length = rest := by
    rw [← List.append_assoc, List.drop_left]
  rw [RuleSet.accept?, hbetween, hfind, hafter, List.take_left, Option.map_some]
  rfl

/-- How a search goes on behind `pre`: it finds nothing, or what it finds is no reference, or it is one. -/
inductive Advance (rs : RuleSet) (search : Search) (pre : Bytes) : Bytes → Prop
  | missing {rest : Bytes} (hsearch : search (pre ++ rest) pre.length = none)
      (hpassed : NoReferenceIn rs pre rest []) : Advance rs search pre rest
  | refused {passed rest : Bytes} {m : Found (pre ++ (passed ++ rest)) pre.length} (hne : passed ≠ [])
      (hsearch : search (pre ++ (passed ++ rest)) pre.length = some m)
      (hnext : m.start + 1 = (pre ++ passed).length)
      (haccept : rs.accept? (pre ++ (passed ++ rest)) m.start m.stop = none)
      (hpassed : NoReferenceIn rs pre passed rest) : Advance rs search pre (passed ++ rest)
  | accepted {passed rest : Bytes} {sep : UInt8} {r : Rule}
      {m : Found (pre ++ (passed ++ (spell sep r.source.toList ++ rest))) pre.length}
      (hsearch : search (pre ++ (passed ++ (spell sep r.source.toList ++ rest))) pre.length = some m)
      (hstart : m.start = (pre ++ passed).length)
      (hstop : m.stop = (pre ++ passed ++ spell sep r.source.toList).length)
      (haccept : rs.accept? (pre ++ (passed ++ (spell sep r.source.toList ++ rest))) m.start m.stop =
        some (occurrence (pre ++ passed) (r.literal sep) rest))
      (hpassed : NoReferenceIn rs pre passed (spell sep r.source.toList ++ rest))
      (hrefers : Refers rs sep r (pre ++ passed) rest) :
      Advance rs search pre (passed ++ (spell sep r.source.toList ++ rest))

theorem IsLeftmost.exists_literal (h : IsLeftmost rs.literals search) {m : Found (pre ++ rest) pre.length}
    (hsearch : search (pre ++ rest) pre.length = some m) :
    ∃ passed l after, l ∈ rs.literals ∧ rest = passed ++ (l.text ++ after) ∧
      m.start = (pre ++ passed).length ∧ m.stop = (pre ++ passed ++ l.text).length ∧
      NoReferenceIn rs pre passed (l.text ++ after) := by
  have hfound := h (pre ++ rest) pre.length
  rw [hsearch] at hfound
  obtain ⟨⟨l, hstands, hstop⟩, hleftmost⟩ := hfound
  obtain ⟨hl, after, hafter⟩ := standsAt?_eq_some_iff.mp hstands
  obtain ⟨passed, tail, rfl, hstart⟩ : ∃ passed tail, rest = passed ++ tail ∧
      m.start = (pre ++ passed).length := by
    have hfrom := m.le_start
    have hpos := m.start_lt
    have hupto := m.stop_le
    refine ⟨rest.take (m.start - pre.length), _, (List.take_append_drop _ _).symm, ?_⟩
    simp only [List.length_append, List.length_take] at hupto ⊢
    omega
  obtain rfl : l.text ++ after = tail := by rwa [hstart, ← List.append_assoc, List.drop_left] at hafter
  refine ⟨passed, l, after, hl, rfl, hstart, ?_, ?_⟩
  · rw [hstop, hstart]
    exact List.length_append.symm
  · exact noReferenceIn_of_standsAt? fun place hplace hlt =>
      hleftmost place hplace (hlt.trans_eq hstart.symm)

theorem IsLeftmost.advance (h : IsLeftmost rs.literals search) (pre rest : Bytes) :
    Advance rs search pre rest := by
  cases hsearch : search (pre ++ rest) pre.length with
  | none =>
    have hfound := h (pre ++ rest) pre.length
    rw [hsearch] at hfound
    refine .missing hsearch (noReferenceIn_of_standsAt? fun place hplace _ => ?_)
    rw [List.append_nil]
    exact hfound place hplace
  | some m =>
    obtain ⟨passed, l, after, hl, rfl, hstart, hstop, hpassed⟩ := h.exists_literal hsearch
    have haccept := accept?_eq hl (pre ++ passed) after
    rw [List.append_assoc pre passed (l.text ++ after), ← hstart, ← hstop] at haccept
    by_cases href : (occurrence (pre ++ passed) l after).isReference = true
    · rw [Option.filter_some, if_pos href] at haccept
      have hrefers := (isReference_occurrence_iff hl).mp href
      have hliteral : l = l.rule.literal (occurrence (pre ++ passed) l after).spelling.separator :=
        congrArg (Literal.mk l.rule) (text_eq_spell hl)
      generalize (occurrence (pre ++ passed) l after).spelling.separator = sep at hrefers hliteral
      generalize l.rule = r at hrefers hliteral
      subst hliteral
      exact .accepted hsearch hstart hstop haccept hpassed hrefers
    · rw [Option.filter_some, if_neg href] at haccept
      have hhere : NoReferenceAt rs (pre ++ passed) (l.text ++ after) := by
        refine noReferenceAt_iff.mpr fun o ho => ?_
        rw [occurrenceAt?_eq_some_iff.mpr ⟨l, hl, after, rfl, rfl⟩] at ho
        obtain rfl := Option.some.inj ho
        exact Bool.eq_false_iff.mpr href
      obtain ⟨b, bs, hb⟩ := List.exists_cons_of_ne_nil (text_ne_nil hl)
      have hcut : passed ++ (l.text ++ after) = passed ++ [b] ++ (bs ++ after) := by simp [hb]
      have hone : NoReferenceIn rs (pre ++ passed) [b] (bs ++ after) := by
        rw [hb] at hhere
        exact noReferenceIn_cons_iff.mpr ⟨hhere, noReferenceIn_nil _ _⟩
      rw [hb] at hpassed
      generalize passed ++ (l.text ++ after) = rest at *
      subst hcut
      refine .refused (by simp) hsearch ?_ haccept (noReferenceIn_append_iff.mpr ⟨hpassed, hone⟩)
      rw [hstart, ← List.append_assoc]
      simp only [List.length_append, List.length_singleton]

section Steps

variable {pos copied : Nat} {m : Found bs pos}

theorem replaceFrom_of_missing (h : search bs pos = none) :
    rs.replaceFrom search bs out copied pos = (out, copied) := by
  rw [RuleSet.replaceFrom, h]

theorem replaceFrom_of_refused (h : search bs pos = some m) (hm : rs.accept? bs m.start m.stop = none) :
    rs.replaceFrom search bs out copied pos = rs.replaceFrom search bs out copied (m.start + 1) := by
  rw [RuleSet.replaceFrom, h]
  dsimp only
  rw [hm]

theorem replaceFrom_of_accepted {o : Occurrence} (h : search bs pos = some m)
    (hm : rs.accept? bs m.start m.stop = some o) :
    rs.replaceFrom search bs out copied pos =
      rs.replaceFrom search bs (out ++ (bs.take m.start).drop copied ++ o.replacement) m.stop m.stop := by
  rw [RuleSet.replaceFrom, h]
  dsimp only
  rw [hm]

theorem findFrom_of_missing (h : search bs pos = none) : rs.findFrom search bs pos = none := by
  rw [RuleSet.findFrom, h]

theorem findFrom_of_refused (h : search bs pos = some m) (hm : rs.accept? bs m.start m.stop = none) :
    rs.findFrom search bs pos = rs.findFrom search bs (m.start + 1) := by
  rw [RuleSet.findFrom, h]
  dsimp only
  rw [hm]

theorem findFrom_of_accepted {o : Occurrence} (h : search bs pos = some m)
    (hm : rs.accept? bs m.start m.stop = some o) : rs.findFrom search bs pos = some o.literal.rule := by
  rw [RuleSet.findFrom, h]
  dsimp only
  rw [hm]

end Steps

theorem selectedAfter_nil (pre : Bytes) : selectedAfter rs pre [] = [] := by
  simp [selectedAfter, occurrencesAfter, occurrencesFrom, selectFrom]

theorem NoReferenceIn.selectedAfter_eq_nil (h : NoReferenceIn rs pre rest []) :
    selectedAfter rs pre rest = [] := by
  have hselected := h.selectedAfter_eq
  rwa [List.append_nil, selectedAfter_nil] at hselected

/-- What is replaced with a search is what the pass replaces, and something has been copied when there was
a reference. -/
theorem IsLeftmost.replaceFrom_eq (h : IsLeftmost rs.literals search) {text : Bytes} {copied : Nat}
    (hrewrites : Rewrites rs pre rest text) (hcopied : copied ≤ pre.length) (out : Bytes) :
    ∃ out' copied', rs.replaceFrom search (pre ++ rest) out copied pre.length = (out', copied') ∧
      out' ++ (pre ++ rest).drop copied' = out ++ pre.drop copied ++ text ∧
      (copied' = 0 ↔ copied = 0 ∧ selectedAfter rs pre rest = []) := by
  -- By the length of what is left: a refused place shortens it as well as an accepted one.
  induction hn : rest.length using Nat.strong_induction_on generalizing pre rest text copied out with
  | _ n ih =>
    subst hn
    cases h.advance pre rest with
    | missing hsearch hpassed =>
      rw [← List.append_nil rest] at hrewrites
      obtain ⟨text', rfl, hnil⟩ := hrewrites.of_noReference hpassed
      obtain rfl := (Rewrites.done _).unique hnil
      refine ⟨out, copied, replaceFrom_of_missing hsearch, ?_, ?_⟩
      · rw [List.drop_append_of_le_length hcopied, List.append_nil, List.append_assoc]
      · rw [hpassed.selectedAfter_eq_nil, and_iff_left rfl]
    | @refused passed rest m hne hsearch hnext haccept hpassed =>
      obtain ⟨text', rfl, hlater⟩ := hrewrites.of_noReference hpassed
      have hpos := List.length_pos_of_ne_nil hne
      obtain ⟨out', copied', hresult, htext, hzero⟩ := ih rest.length
        (by rw [List.length_append]; omega) hlater
        (hcopied.trans (by rw [List.length_append]; omega)) out rfl
      rw [List.append_assoc] at hresult htext
      rw [replaceFrom_of_refused hsearch haccept, hnext]
      refine ⟨out', copied', hresult, ?_, ?_⟩
      · rw [htext, List.drop_append_of_le_length hcopied]
        simp only [List.append_assoc]
      · rw [hzero, hpassed.selectedAfter_eq]
    | @accepted passed rest sep r m hsearch hstart hstop haccept hpassed hrefers =>
      obtain ⟨text', rfl, hhere⟩ := hrewrites.of_noReference hpassed
      obtain ⟨text'', rfl, hlater⟩ := hhere.of_refers hrefers rfl
      have hpos := List.length_pos_of_ne_nil (spell_source_ne_nil hrefers.mem sep)
      have hkept : (pre ++ (passed ++ (spell sep r.source.toList ++ rest))).take m.start =
          pre ++ passed := by
        rw [hstart, ← List.append_assoc, List.take_left]
      obtain ⟨out', copied', hresult, htext, hzero⟩ := ih rest.length
        (by simp only [List.length_append]; omega) hlater le_rfl
        (out ++ (pre ++ passed).drop copied ++ spell sep r.target.toList) rfl
      have hwhole : pre ++ passed ++ spell sep r.source.toList ++ rest =
          pre ++ (passed ++ (spell sep r.source.toList ++ rest)) := by simp only [List.append_assoc]
      rw [hwhole] at hresult htext
      rw [replaceFrom_of_accepted hsearch haccept, hkept, hrefers.replacement_eq, hstop]
      refine ⟨out', copied', hresult, ?_, ?_⟩
      · rw [htext, List.drop_append_of_le_length hcopied, List.drop_length]
        simp only [List.append_assoc, List.nil_append]
      · rw [hzero, hpassed.selectedAfter_eq, hrefers.selectedAfter_eq]
        have hstopped : ¬ (pre ++ passed ++ spell sep r.source.toList).length = 0 := by
          simp only [List.length_append]
          omega
        simp only [hstopped, reduceCtorEq, false_and, and_false]

theorem IsLeftmost.findFrom_eq (h : IsLeftmost rs.literals search) (pre rest : Bytes) :
    rs.findFrom search (pre ++ rest) pre.length =
      (selectedAfter rs pre rest).head?.map (·.literal.rule) := by
  induction hn : rest.length using Nat.strong_induction_on generalizing pre rest with
  | _ n ih =>
    subst hn
    cases h.advance pre rest with
    | missing hsearch hpassed =>
      rw [findFrom_of_missing hsearch, hpassed.selectedAfter_eq_nil]
      rfl
    | @refused passed rest m hne hsearch hnext haccept hpassed =>
      have hpos := List.length_pos_of_ne_nil hne
      have hlater := ih rest.length (by rw [List.length_append]; omega) (pre ++ passed) rest rfl
      rw [findFrom_of_refused hsearch haccept, hnext, hpassed.selectedAfter_eq, ← hlater,
        List.append_assoc]
    | accepted hsearch hstart hstop haccept hpassed hrefers =>
      rw [findFrom_of_accepted hsearch haccept, hpassed.selectedAfter_eq, hrefers.selectedAfter_eq]
      rfl

end Searching

namespace RuleSet

variable (rs : RuleSet)

def searchFrom (bs : Bytes) (pos : Nat) : Option (Found bs pos) :=
  if hpos : pos < bs.length then
    match h : standsAt? rs.literals bs pos with
    | some l =>
      have hstands := standsAt?_eq_some_iff.mp h
      have hlength := hstands.2.length_le
      some ⟨pos, pos + l.text.length, le_rfl, Nat.lt_add_of_pos_right (length_pos_of_mem hstands.1), by
        rw [List.length_drop] at hlength
        omega⟩
    | none =>
      (searchFrom bs (pos + 1)).map fun m =>
        ⟨m.start, m.stop, (Nat.le_succ pos).trans m.le_start, m.start_lt, m.stop_le⟩
  else none
termination_by bs.length - pos

theorem standsAt?_of_length_le {bs : Bytes} {place : Nat} (h : bs.length ≤ place) :
    standsAt? rs.literals bs place = none := by
  refine standsAt?_eq_none_iff.mpr fun l hl hstands => text_ne_nil hl ?_
  rwa [List.drop_of_length_le h, List.prefix_nil] at hstands

theorem isLeftmost_searchFrom : IsLeftmost rs.literals rs.searchFrom := by
  intro bs pos
  fun_induction rs.searchFrom bs pos with
  | case1 pos hpos l h _ _ =>
    refine ⟨⟨l, h, rfl⟩, fun place hplace hlt => ?_⟩
    exact absurd hlt (Nat.not_lt.mpr hplace)
  | case2 pos hpos h ih =>
    have hplace : ∀ {place}, pos ≤ place → place = pos ∨ pos + 1 ≤ place := by omega
    cases hm : rs.searchFrom bs (pos + 1) with
    | none =>
      rw [hm] at ih
      intro place hle
      obtain rfl | hlater := hplace hle
      · exact h
      · exact ih place hlater
    | some m =>
      rw [hm] at ih
      refine ⟨ih.1, fun place hle hlt => ?_⟩
      obtain rfl | hlater := hplace hle
      · exact h
      · exact ih.2 place hlater hlt
  | case3 pos hpos =>
    exact fun place hplace => rs.standsAt?_of_length_le ((Nat.not_lt.mp hpos).trans hplace)

variable {rs}

theorem selectedAfter_of_rules_nil (h : rs.rules = []) (bs : Bytes) : selectedAfter rs [] bs = [] := by
  refine selectFrom_zero_eq_nil_iff.mpr fun o ho => ?_
  obtain ⟨passed, rest, -, hat⟩ := mem_occurrencesAfter_iff.mp ho
  obtain ⟨l, after, -, hl, -⟩ := exists_of_occurrenceAt? hat
  exact absurd (h ▸ (mem_literals_iff.mp hl).1) List.not_mem_nil

theorem replace_eq_none_iff_selectedAfter (bs : Bytes) :
    rs.replace bs = none ↔ selectedAfter rs [] bs = [] := by
  rw [replace_eq_none_iff, find_eq_none_iff]
  exact selectFrom_zero_eq_nil_iff.symm

theorem find_eq_head? (bs : Bytes) :
    rs.find bs = (selectedAfter rs [] bs).head?.map (·.literal.rule) :=
  congrArg (Option.map _) head?_selectFrom_zero.symm

/-- Replacing with a search and the pass agree, whatever the search that finds what is leftmost. -/
theorem replaceBy_eq {search : Search} (h : IsLeftmost rs.literals search) (bs : Bytes) :
    rs.replaceBy search bs = rs.replace bs := by
  obtain ⟨out, copied, hresult, htext, hzero⟩ := h.replaceFrom_eq (rs.rewrites_replace bs) le_rfl []
  simp only [List.nil_append, List.length_nil, List.drop_nil, true_and] at hresult htext hzero
  unfold replaceBy
  by_cases hrules : rs.rules = []
  · rw [hrules, List.isEmpty_nil, if_pos rfl, (replace_eq_none_iff_selectedAfter bs).mpr]
    exact selectedAfter_of_rules_nil hrules bs
  · rw [if_neg (by rwa [List.isEmpty_iff]), hresult]
    cases copied with
    | zero => exact ((replace_eq_none_iff_selectedAfter bs).mpr (hzero.mp rfl)).symm
    | succ n =>
      have hsome : rs.replace bs ≠ none := fun hnone =>
        Nat.succ_ne_zero n (hzero.mpr ((replace_eq_none_iff_selectedAfter bs).mp hnone))
      obtain ⟨text, ht⟩ := Option.ne_none_iff_exists'.mp hsome
      rw [ht] at htext ⊢
      exact congrArg some htext

theorem scanned_eq (bs : Bytes) : rs.scanned bs = selectedAfter rs [] bs :=
  (rs.rewrites_replace bs).pieces.2

theorem scan_eq (bs : Bytes) : rs.scan bs = rs.replace bs := by
  have htext : (rs.pieces bs).flatMap Piece.text = (rs.replace bs).getD bs :=
    (rs.rewrites_replace bs).pieces.1
  rw [scan, scanned_eq, htext]
  cases hr : rs.replace bs with
  | none => rw [(replace_eq_none_iff_selectedAfter bs).mp hr, List.isEmpty_nil, if_pos rfl]
  | some text =>
    have hne : selectedAfter rs [] bs ≠ [] := by
      rw [Ne, ← replace_eq_none_iff_selectedAfter, hr]
      exact Option.some_ne_none text
    rw [if_neg (by rwa [List.isEmpty_iff]), Option.getD_some]

/-- At a place there is at most one literal, so a search for the leftmost one replaces what the plain scan
replaces, and finds the rule of its first replacement. -/
theorem replaceBy_eq_scan {search : Search} (h : IsLeftmost rs.literals search) (bs : Bytes) :
    (∀ place, (rs.literals.filter (·.text.isPrefixOf (bs.drop place))).length ≤ 1) ∧
      rs.replace bs = rs.replaceBy search bs ∧ rs.replace bs = rs.scan bs ∧
      rs.find bs = rs.findFrom search bs 0 ∧
      (rs.replace bs = none ↔ rs.scanned bs = []) ∧ (rs.replace bs = none ↔ rs.find bs = none) ∧
      rs.find bs = (rs.scanned bs).head?.map (·.literal.rule) := by
  refine ⟨length_literals_at_le rs bs, (replaceBy_eq h bs).symm, (scan_eq bs).symm, ?_, ?_,
    rs.replace_eq_none_iff bs, ?_⟩
  · rw [find_eq_head?]
    exact (h.findFrom_eq [] bs).symm
  · rw [scanned_eq, replace_eq_none_iff_selectedAfter]
  · rw [scanned_eq, find_eq_head?]

end RuleSet

/-- A namespace of one part and one of several, in a text where most of what looks like them is no
reference. -/
theorem scanned_among_lookalikes :
    ∃ rs : RuleSet, rs.rules = [⟨"log", "shaded.log"⟩, ⟨"com.vendor.lib", "shaded.lib"⟩] ∧
      IsLeftmost rs.literals rs.searchFrom ∧
      rs.replaceBy rs.searchFrom (utf8 "catalog log.x log/x com/vendor/library Lcom/vendor/lib/A;") =
        some (utf8 "catalog shaded.log.x shaded/log/x com/vendor/library Lshaded/lib/A;") ∧
      rs.findFrom rs.searchFrom (utf8 "catalog Lcom/vendor/lib/A;") 0 =
        some ⟨"com.vendor.lib", "shaded.lib"⟩ := by
  refine ⟨⟨[⟨"log", "shaded.log"⟩, ⟨"com.vendor.lib", "shaded.lib"⟩], by decide +kernel⟩, rfl,
    RuleSet.isLeftmost_searchFrom _, ?_, ?_⟩
  · rw [← (RuleSet.replaceBy_eq_scan (RuleSet.isLeftmost_searchFrom _) _).2.1]
    decide +kernel
  · rw [← (RuleSet.replaceBy_eq_scan (RuleSet.isLeftmost_searchFrom _) _).2.2.2.1]
    decide +kernel

end FatJar.Relocation
