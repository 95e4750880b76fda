import FatJar.Proofs.Lists
import FatJar.Proofs.Relocation.Rules
import FatJar.Proofs.Text.Utf8
import FatJar.Relocation.Reference

namespace FatJar.Relocation

/-- A name in bytes with `sep` between its parts. -/
def spell (sep : UInt8) (name : List Char) : Bytes :=
  name.map fun c => if c = '.' then sep else UInt8.ofNat c.toNat

def unspell (bs : Bytes) : List Char :=
  bs.map fun b => if b = slash then '.' else Char.ofNat b.toNat

/-- A piece of a namespace. -/
def Spellable (name : List Char) : Prop :=
  ∀ c ∈ name, c = '.' ∨ isSegmentChar c = true

def IsSeparator (sep : UInt8) : Prop :=
  sep = slash ∨ sep = dot

instance (sep : UInt8) : Decidable (IsSeparator sep) :=
  inferInstanceAs (Decidable (sep = slash ∨ sep = dot))

section Bytes

variable {c : Char} {sep b : UInt8} {name more : List Char}

theorem isNameByte_of_isSegmentChar (h : isSegmentChar c = true) :
    isNameByte (UInt8.ofNat c.toNat) = true :=
  of_isSegmentChar (p := fun c => isNameByte (UInt8.ofNat c.toNat) = true) (by decide) h

theorem IsSeparator.not_isNameByte (h : IsSeparator sep) : isNameByte sep = false := by
  obtain rfl | rfl := h <;> decide

theorem Spellable.of_isNamespace {name : String} (h : isNamespace name = true) :
    Spellable name.toList :=
  fun _ hc => (isNamespace_iff.mp h).of_mem hc

@[simp]
theorem spell_append : spell sep (name ++ more) = spell sep name ++ spell sep more :=
  List.map_append

@[simp]
theorem spell_nil : spell sep [] = [] :=
  rfl

@[simp]
theorem spell_cons : spell sep (c :: name) =
    (if c = '.' then sep else UInt8.ofNat c.toNat) :: spell sep name :=
  rfl

@[simp]
theorem length_spell : (spell sep name).length = name.length :=
  List.length_map _

@[simp]
theorem spell_eq_nil_iff : spell sep name = [] ↔ name = [] :=
  List.map_eq_nil_iff

theorem exists_of_spell_eq_append {x y : Bytes} (h : spell sep name = x ++ y) :
    ∃ before after, name = before ++ after ∧ spell sep before = x ∧ spell sep after = y := by
  obtain ⟨before, after, hname, hx, hy⟩ := List.map_eq_append_iff.mp h
  exact ⟨before, after, hname, hx, hy⟩

theorem utf8_eq_spell {name : String} (h : isNamespace name = true) :
    utf8 name = spell dot name.toList := by
  unfold utf8
  rw [Utf8.encode_ascii fun c hc => ascii_of_isNamespace h hc]
  refine List.map_congr_left fun c _ => ?_
  split
  · next hc =>
    subst hc
    decide
  · rfl

theorem utf8_slashed_eq_spell {name : String} (h : isNamespace name = true) :
    utf8 (slashed name) = spell slash name.toList := by
  unfold utf8
  rw [toList_slashed, Utf8.encode_ascii, List.map_map]
  · refine List.map_congr_left fun c _ => ?_
    by_cases hc : c = '.' <;> simp [hc]
    decide
  · intro c hc
    obtain ⟨d, hd, rfl⟩ := List.mem_map.mp hc
    split
    · decide
    · exact ascii_of_isNamespace h hd

theorem eq_sep_or_isNameByte (h : Spellable name) (hb : b ∈ spell sep name) :
    b = sep ∨ isNameByte b = true := by
  obtain ⟨c, hc, rfl⟩ := List.mem_map.mp hb
  obtain rfl | hc := h c hc
  · exact .inl rfl
  · rw [if_neg (ne_dot_of_isSegmentChar hc)]
    exact .inr (isNameByte_of_isSegmentChar hc)

theorem sep_mem_spell_iff (hsep : IsSeparator sep) (h : Spellable name) :
    sep ∈ spell sep name ↔ '.' ∈ name := by
  constructor
  · intro hmem
    obtain ⟨c, hc, hb⟩ := List.mem_map.mp hmem
    obtain rfl | hsegment := h c hc
    · exact hc
    · rw [if_neg (ne_dot_of_isSegmentChar hsegment)] at hb
      have hname := isNameByte_of_isSegmentChar hsegment
      rw [hb, hsep.not_isNameByte] at hname
      exact absurd hname (by decide)
  · intro hmem
    exact List.mem_map.mpr ⟨'.', hmem, if_pos rfl⟩

theorem notMem_spell {other : UInt8} (hother : isNameByte other = false) (hne : other ≠ sep)
    (h : Spellable name) : other ∉ spell sep name := by
  intro hmem
  obtain hb | hb := eq_sep_or_isNameByte h hmem
  · exact hne hb
  · rw [hother] at hb
    exact absurd hb (by decide)

theorem unspell_spell (hsep : IsSeparator sep) (h : Spellable name) : unspell (spell sep name) = name := by
  unfold unspell spell
  rw [List.map_map]
  refine (List.map_congr_left fun c hc => ?_).trans (List.map_id _)
  obtain rfl | hsegment := h c hc
  · obtain rfl | rfl := hsep <;> decide
  · have hne : UInt8.ofNat c.toNat ≠ slash := by
      intro he
      have hname := isNameByte_of_isSegmentChar hsegment
      rw [he] at hname
      exact absurd hname (by decide)
    have hlt := toNat_lt_of_isSegmentChar hsegment
    simp only [Function.comp_apply, if_neg (ne_dot_of_isSegmentChar hsegment), if_neg hne, id_eq]
    rw [Utf8.toNat_ofNat_lt (by omega), Char.ofNat_toNat]

end Bytes

def Spelling.separator : Spelling → UInt8
  | slashed => slash
  | dotted => dot

theorem Spelling.isSeparator (s : Spelling) : IsSeparator s.separator := by
  cases s
  · exact .inl rfl
  · exact .inr rfl

section Literals

variable {rs : RuleSet} {l l' : Literal}

theorem mem_literals_iff :
    l ∈ rs.literals ↔ l.rule ∈ rs.rules ∧ ∃ sep, IsSeparator sep ∧
      l.text = spell sep l.rule.source.toList := by
  unfold RuleSet.literals
  rw [List.mem_flatMap]
  have hrule : ∀ r ∈ rs.rules, l ∈ r.literals ↔ l.rule = r ∧ ∃ sep, IsSeparator sep ∧
      l.text = spell sep l.rule.source.toList := by
    intro r hr
    have hn := rs.isNamespace_source hr
    have hliteral : ∀ text, l = ⟨r, text⟩ ↔ l.rule = r ∧ l.text = text := by
      intro text
      cases l
      simp
    have hseps : ∀ p : UInt8 → Prop, (∃ sep, IsSeparator sep ∧ p sep) ↔ p slash ∨ p dot := by
      intro p
      simp [IsSeparator, or_and_right, exists_or]
    have hmem : l ∈ r.literals ↔ l = ⟨r, utf8 r.slashedSource⟩ ∨ l = ⟨r, utf8 r.source⟩ := by
      unfold Rule.literals
      dsimp only
      split
      · next he => simp [← he]
      · simp
    rw [hmem, hliteral, hliteral, Rule.slashedSource, utf8_slashed_eq_spell hn, utf8_eq_spell hn,
      ← and_or_left, hseps]
    refine and_congr_right fun he => ?_
    rw [he]
  constructor
  · rintro ⟨r, hr, hl⟩
    obtain ⟨rfl, htext⟩ := (hrule r hr).mp hl
    exact ⟨hr, htext⟩
  · rintro ⟨hr, hl⟩
    exact ⟨l.rule, hr, (hrule l.rule hr).mpr ⟨rfl, hl⟩⟩

theorem literal_eq_of_begins (hl : l ∈ rs.literals) (hl' : l' ∈ rs.literals)
    (h : l.text <+: l'.text) : l = l' := by
  obtain ⟨hr, sep, hsep, htext⟩ := mem_literals_iff.mp hl
  obtain ⟨hr', sep', hsep', htext'⟩ := mem_literals_iff.mp hl'
  have hs := Spellable.of_isNamespace (rs.isNamespace_source hr)
  have hs' := Spellable.of_isNamespace (rs.isNamespace_source hr')
  have hsource : l.rule.source.toList <+: l'.rule.source.toList := by
    rw [← unspell_spell hsep hs, ← unspell_spell hsep' hs', ← htext, ← htext']
    exact h.map _
  have hrule : l.rule = l'.rule := rs.eq_of_prefix hr hr' hsource
  have hlength : l.text.length = l'.text.length := by
    rw [htext, htext', length_spell, length_spell, hrule]
  have htexts : l.text = l'.text := h.eq_of_length hlength
  cases l
  cases l'
  simp_all

theorem literal_eq_of_prefix {bs : Bytes} (hl : l ∈ rs.literals) (hl' : l' ∈ rs.literals)
    (h : l.text <+: bs) (h' : l'.text <+: bs) : l = l' := by
  obtain hbegins | hbegins := List.prefix_or_prefix_of_prefix h h'
  · exact literal_eq_of_begins hl hl' hbegins
  · exact (literal_eq_of_begins hl' hl hbegins).symm

theorem occurrenceAt?_eq_some_iff {start : Nat} {before : Option UInt8} {bs : Bytes}
    {o : Occurrence} :
    occurrenceAt? rs.literals start before bs = some o ↔
      ∃ l ∈ rs.literals, ∃ rest, bs = l.text ++ rest ∧ o = ⟨start, before, l, rest.head?⟩ := by
  unfold occurrenceAt?
  rw [findSome?_eq_some_iff_of_sole]
  · simp only [Option.map_eq_some_iff, List.isPrefixOf?_eq_some_iff_append_eq]
    simp only [eq_comm]
  · intro a ha b hb hsa hsb
    rw [Option.isSome_map, Option.isSome_iff_exists] at hsa hsb
    obtain ⟨s, hs⟩ := hsa
    obtain ⟨t, ht⟩ := hsb
    exact literal_eq_of_prefix ha hb ⟨s, List.isPrefixOf?_eq_some_iff_append_eq.mp hs⟩
      ⟨t, List.isPrefixOf?_eq_some_iff_append_eq.mp ht⟩

end Literals

/-- What may stand before a reference that is spelled with `sep`. With slashes, a name may also follow
the `L` of a descriptor or the slash of an absolute name. -/
def OpensAfter (sep : UInt8) (pre : Bytes) : Prop :=
  if sep = slash then
    pre = [slash] ∨ ∀ b ∈ pre.getLast?, b = 0x4C ∨ (isNameByte b = false ∧ b ≠ dot ∧ b ≠ slash)
  else ∀ b ∈ pre.getLast?, isNameByte b = false ∧ b ≠ dot

/-- What may stand behind a reference to `name` that is spelled with `sep`. A name of one part is read
with slashes only where a slash follows. -/
def ClosesBefore (sep : UInt8) (name : List Char) (rest : Bytes) : Prop :=
  if sep = slash then
    rest.head? = some slash ∨ (rest = [] ∧ '.' ∈ name)
  else ∀ b ∈ rest.head?, isNameByte b = false ∧ b ≠ slash

theorem opensAfter_slash_iff {pre : Bytes} :
    OpensAfter slash pre ↔ pre = [slash] ∨
      ∀ b ∈ pre.getLast?, b = 0x4C ∨ (isNameByte b = false ∧ b ≠ dot ∧ b ≠ slash) := by
  rw [OpensAfter, if_pos rfl]

theorem opensAfter_dot_iff {pre : Bytes} :
    OpensAfter dot pre ↔ ∀ b ∈ pre.getLast?, isNameByte b = false ∧ b ≠ dot := by
  rw [OpensAfter, if_neg (by decide)]

theorem closesBefore_slash_iff {name : List Char} {rest : Bytes} :
    ClosesBefore slash name rest ↔ rest.head? = some slash ∨ (rest = [] ∧ '.' ∈ name) := by
  rw [ClosesBefore, if_pos rfl]

theorem closesBefore_dot_iff {name : List Char} {rest : Bytes} :
    ClosesBefore dot name rest ↔ ∀ b ∈ rest.head?, isNameByte b = false ∧ b ≠ slash := by
  rw [ClosesBefore, if_neg (by decide)]

theorem closesBefore_congr {sep : UInt8} {name : List Char} {rest tail : Bytes}
    (h : rest.head? = tail.head?) : ClosesBefore sep name rest ↔ ClosesBefore sep name tail := by
  have hnil : rest = [] ↔ tail = [] := by
    rw [← List.head?_eq_none_iff, ← List.head?_eq_none_iff, h]
  unfold ClosesBefore
  rw [h, hnil]

/-- A reference to the source of a rule, spelled with `sep`, between `pre` and `rest`. -/
structure Refers (rs : RuleSet) (sep : UInt8) (r : Rule) (pre rest : Bytes) : Prop where
  mem : r ∈ rs.rules
  isSeparator : IsSeparator sep
  opens : OpensAfter sep pre
  closes : ClosesBefore sep r.source.toList rest

theorem spell_eq_of_notMem {name : List Char} (h : '.' ∉ name) (sep sep' : UInt8) :
    spell sep name = spell sep' name := by
  refine List.map_congr_left fun c hc => ?_
  have hne : c ≠ '.' := fun he => h (he ▸ hc)
  rw [if_neg hne, if_neg hne]

section Occurrences

variable {rs : RuleSet} {l : Literal} {pre rest : Bytes}

def occurrence (pre : Bytes) (l : Literal) (rest : Bytes) : Occurrence :=
  ⟨pre.length, pre.getLast?, l, rest.head?⟩

/-- A namespace of several parts shows its separator; for one of a single part what follows decides. -/
theorem spelling_occurrence (pre rest : Bytes) {sep : UInt8} (hl : l ∈ rs.literals) (hsep : IsSeparator sep)
    (htext : l.text = spell sep l.rule.source.toList) :
    (occurrence pre l rest).spelling.separator =
      if '.' ∈ l.rule.source.toList then sep
      else if rest.head? = some slash then slash else dot := by
  have hs := Spellable.of_isNamespace (rs.isNamespace_source (mem_literals_iff.mp hl).1)
  have hmem := sep_mem_spell_iff hsep hs
  unfold occurrence Occurrence.spelling
  dsimp only
  rw [htext]
  by_cases hdots : '.' ∈ l.rule.source.toList
  · rw [if_pos hdots]
    have hin := hmem.mpr hdots
    obtain rfl | rfl := hsep
    · simp [hin, Spelling.separator]
    · have hno : slash ∉ spell dot l.rule.source.toList := notMem_spell (by decide) (by decide) hs
      simp [hin, hno, Spelling.separator]
  · rw [if_neg hdots]
    have hslash : slash ∉ spell sep l.rule.source.toList := by
      rw [spell_eq_of_notMem hdots sep dot]
      exact notMem_spell (by decide) (by decide) hs
    have hdot : dot ∉ spell sep l.rule.source.toList := by
      rw [spell_eq_of_notMem hdots sep slash]
      exact notMem_spell (by decide) (by decide) hs
    by_cases hafter : rest.head? = some slash <;> simp [hslash, hdot, hafter, Spelling.separator]

theorem text_eq_spell (hl : l ∈ rs.literals) :
    l.text = spell (occurrence pre l rest).spelling.separator l.rule.source.toList := by
  obtain ⟨-, sep, hsep, htext⟩ := mem_literals_iff.mp hl
  rw [spelling_occurrence pre rest hl hsep htext]
  split
  · exact htext
  · next hdots => rw [htext, spell_eq_of_notMem hdots]

theorem opensSlashed_iff : (occurrence pre l rest).opensSlashed = true ↔ OpensAfter slash pre := by
  rw [opensAfter_slash_iff]
  unfold occurrence Occurrence.opensSlashed Occurrence.opens
  dsimp only
  obtain rfl | ⟨init, b, rfl⟩ := List.eq_nil_or_concat' pre
  · simp
  · rw [List.getLast?_concat]
    by_cases hb : b = slash
    · subst hb
      have hL : ¬ slash = 0x4C := by decide
      simp [hL]
    · have hsole : ¬ (init ++ [b] = [slash]) := by
        intro he
        have hlast := congrArg List.getLast? he
        simp [hb] at hlast
      simp [hb, hsole]

theorem opens_iff : (occurrence pre l rest).opens = true ↔ OpensAfter dot pre := by
  rw [opensAfter_dot_iff]
  unfold occurrence Occurrence.opens
  dsimp only
  cases pre.getLast? with
  | none => simp
  | some b => simp

theorem closes_iff {name : List Char} :
    (occurrence pre l rest).closes = true ↔ ClosesBefore dot name rest := by
  have hne : ¬ dot = slash := by decide
  rw [closesBefore_dot_iff]
  unfold occurrence Occurrence.closes
  dsimp only
  cases rest.head? with
  | none => simp
  | some b =>
    by_cases hb : b = dot
    · subst hb
      have hdot : isNameByte dot = false := by decide
      simp [hdot, hne]
    · simp [hb]

theorem closesSlashed_iff {name : List Char} (h : '.' ∈ name ∨ rest.head? = some slash) :
    (occurrence pre l rest).closesSlashed = true ↔ ClosesBefore slash name rest := by
  rw [closesBefore_slash_iff]
  unfold occurrence Occurrence.closesSlashed
  cases rest with
  | nil =>
    have hname : '.' ∈ name := by simpa using h
    simp [hname]
  | cons b rest => simp

theorem isReference_occurrence_iff (hl : l ∈ rs.literals) :
    (occurrence pre l rest).isReference = true ↔
      Refers rs (occurrence pre l rest).spelling.separator l.rule pre rest := by
  have hr := (mem_literals_iff.mp hl).1
  have hrefers : ∀ sep, IsSeparator sep → (Refers rs sep l.rule pre rest ↔
      OpensAfter sep pre ∧ ClosesBefore sep l.rule.source.toList rest) :=
    fun sep hsep => ⟨fun h => ⟨h.opens, h.closes⟩, fun h => ⟨hr, hsep, h.1, h.2⟩⟩
  obtain ⟨-, sep, hsep, htext⟩ := mem_literals_iff.mp hl
  have hspelling := spelling_occurrence pre rest hl hsep htext
  rw [hrefers _ (Spelling.isSeparator _)]
  unfold Occurrence.isReference
  cases hs : (occurrence pre l rest).spelling with
  | slashed =>
    rw [hs] at hspelling
    have hslash : '.' ∈ l.rule.source.toList ∨ rest.head? = some slash := by
      by_contra hno
      rw [not_or] at hno
      rw [if_neg hno.1, if_neg hno.2] at hspelling
      exact absurd hspelling (by decide)
    rw [Bool.and_eq_true, opensSlashed_iff, closesSlashed_iff hslash]
    rfl
  | dotted =>
    rw [Bool.and_eq_true, opens_iff, closes_iff]
    rfl

theorem spelling_of_closes (pre : Bytes) {sep : UInt8} (hl : l ∈ rs.literals) (hsep : IsSeparator sep)
    (htext : l.text = spell sep l.rule.source.toList)
    (hcloses : ClosesBefore sep l.rule.source.toList rest) :
    (occurrence pre l rest).spelling.separator = sep := by
  rw [spelling_occurrence pre rest hl hsep htext]
  split
  · rfl
  · next hdots =>
    obtain rfl | rfl := hsep
    · rw [closesBefore_slash_iff] at hcloses
      exact if_pos (hcloses.resolve_right fun h => hdots h.2)
    · rw [closesBefore_dot_iff] at hcloses
      exact if_neg fun hslash => (hcloses slash hslash).2 rfl

theorem replacement_occurrence (hl : l ∈ rs.literals) :
    (occurrence pre l rest).replacement =
      spell (occurrence pre l rest).spelling.separator l.rule.target.toList := by
  have hn := rs.isNamespace_target (mem_literals_iff.mp hl).1
  unfold Occurrence.replacement
  cases (occurrence pre l rest).spelling with
  | slashed => exact utf8_slashed_eq_spell hn
  | dotted => exact utf8_eq_spell hn

end Occurrences

end FatJar.Relocation
