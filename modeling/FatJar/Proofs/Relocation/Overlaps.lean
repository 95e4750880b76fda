import FatJar.Proofs.Relocation.Rewriting

namespace FatJar.Relocation

/-- A name is another one or lies above it. -/
def Above (x y : List Char) : Prop :=
  x ++ ['.'] <+: y ++ ['.']

def Related (x y : List Char) : Prop :=
  Above x y ∨ Above y x

instance (x y : List Char) : Decidable (Above x y) :=
  inferInstanceAs (Decidable (_ <+: _))

instance (x y : List Char) : Decidable (Related x y) :=
  inferInstanceAs (Decidable (_ ∨ _))

section Names

variable {x y : List Char}

theorem Above.refl (x : List Char) : Above x x :=
  List.prefix_refl _

theorem above_append_cons (x rest : List Char) : Above x (x ++ '.' :: rest) := by
  refine ⟨rest ++ ['.'], ?_⟩
  simp

theorem Above.eq_or_exists (h : Above x y) : y = x ∨ ∃ rest, y = x ++ '.' :: rest := by
  obtain ⟨rest, h⟩ := h
  obtain rfl | ⟨init, c, rfl⟩ := List.eq_nil_or_concat' rest
  · rw [List.append_nil] at h
    exact .inl (List.append_cancel_right h).symm
  · rw [← List.append_assoc] at h
    obtain ⟨hy, -⟩ := List.append_inj' h rfl
    exact .inr ⟨init, by rw [← hy]; simp⟩

theorem above_append_tail (x : List Char) {tail : List Char} (h : ∀ c ∈ tail.head?, c = '.') :
    Above x (x ++ tail) := by
  cases tail with
  | nil =>
    rw [List.append_nil]
    exact Above.refl x
  | cons c rest =>
    obtain rfl := h c rfl
    exact above_append_cons x rest

theorem Above.exists_tail (h : Above x y) :
    ∃ tail, y = x ++ tail ∧ ∀ c ∈ tail.head?, c = '.' := by
  obtain rfl | ⟨rest, rfl⟩ := h.eq_or_exists
  · exact ⟨[], by simp⟩
  · exact ⟨'.' :: rest, rfl, by simp⟩

end Names

section Overlap

variable {x y : List Char} {s t : UInt8} {after after' : Bytes}

theorem above_of_spell_eq_append {more : Bytes} (hx : Spellable x) (hy : Spellable y)
    (hs : IsSeparator s) (ht : IsSeparator t) (h : spell t y = spell s x ++ more)
    (hmore : ∀ b ∈ more.head?, isNameByte b = false) : Above x y := by
  have hname : y = x ++ unspell more := by
    have hread := congrArg unspell h
    rwa [unspell_spell ht hy, unspell, List.map_append, ← unspell, ← unspell, unspell_spell hs hx]
      at hread
  cases more with
  | nil =>
    rw [hname, unspell, List.map_nil, List.append_nil]
    exact Above.refl x
  | cons b more =>
    have hb : b = t := by
      refine (eq_sep_or_isNameByte hy (h ▸ by simp)).resolve_right fun hb => ?_
      rw [hmore b rfl] at hb
      exact absurd hb (by decide)
    have hdot : unspell (b :: more) = '.' :: unspell more := by
      obtain rfl | rfl := ht <;> rw [hb] <;> rfl
    rw [hname, hdot]
    exact above_append_cons x _

theorem related_of_overlap (hx : Spellable x) (hy : Spellable y) (hs : IsSeparator s)
    (ht : IsSeparator t) (h : spell s x ++ after = spell t y ++ after')
    (hafter : ∀ b ∈ after.head?, isNameByte b = false)
    (hafter' : ∀ b ∈ after'.head?, isNameByte b = false) : Related x y := by
  obtain ⟨more, hmore, hrest⟩ | ⟨more, hmore, hrest⟩ := List.append_eq_append_iff.mp h
  · refine .inl (above_of_spell_eq_append hx hy hs ht hmore fun b hb => hafter b ?_)
    rw [hrest, List.head?_append, Option.mem_def.mp hb]
    rfl
  · refine .inr (above_of_spell_eq_append hy hx ht hs hmore fun b hb => hafter' b ?_)
    rw [hrest, List.head?_append, Option.mem_def.mp hb]
    rfl

/-- A name with slashes up to a slash or the end of a text, and one with dots up to something else than
a slash, are one part at its end. -/
theorem eq_of_mixed_overlap (hx : Spellable x) (hy : Spellable y)
    (h : spell slash x ++ after = spell dot y ++ after')
    (hafter : after.head? = some slash ∨ after = [])
    (hafter' : ∀ b ∈ after'.head?, isNameByte b = false ∧ b ≠ slash) :
    x = y ∧ '.' ∉ x ∧ after = [] := by
  have hno : slash ∉ spell dot y := notMem_spell (by decide) (by decide) hy
  have hsame : spell slash x = spell dot y ∧ after = after' := by
    obtain ⟨more, hmore, hrest⟩ | ⟨more, hmore, hrest⟩ := List.append_eq_append_iff.mp h
    · cases more with
      | nil => exact ⟨by simpa using hmore.symm, hrest⟩
      | cons b more =>
        have hb : b = slash := by simpa [hrest] using hafter
        exact absurd (hmore ▸ by simp [hb]) hno
    · cases more with
      | nil => exact ⟨by simpa using hmore, hrest.symm⟩
      | cons b more =>
        obtain ⟨hnot, hslash⟩ := hafter' b (by rw [hrest]; rfl)
        have hmem : b ∈ spell slash x := by simp [hmore]
        obtain hb | hb := eq_sep_or_isNameByte hx hmem
        · exact absurd hb hslash
        · rw [hnot] at hb
          exact absurd hb (by decide)
  refine ⟨?_, fun hdot => hno ?_, hafter.resolve_left fun hslash => ?_⟩
  · rw [← unspell_spell (.inl rfl) hx, hsame.1, unspell_spell (.inr rfl) hy]
  · rw [← hsame.1]
    exact (sep_mem_spell_iff (.inl rfl) hx).mpr hdot
  · exact (hafter' slash (hsame.2 ▸ hslash)).2 rfl

end Overlap

section Inside

variable {s t : UInt8} {name : String} {before x pre : Bytes}

theorem head_spell (h : isNamespace name = true) (sep : UInt8) :
    ∃ b bs, spell sep name.toList = b :: bs ∧ isNameByte b = true := by
  obtain ⟨c, cs, hc, hsegment⟩ := exists_cons_of_isNamespace h
  rw [hc, spell_cons, if_neg (ne_dot_of_isSegmentChar hsegment)]
  exact ⟨_, _, rfl, isNameByte_of_isSegmentChar hsegment⟩

theorem eq_L_of_byte {c : Char} (h : isSegmentChar c = true) (hc : UInt8.ofNat c.toNat = 0x4C) :
    c = 'L' :=
  of_isSegmentChar (p := fun c => UInt8.ofNat c.toNat = 0x4C → c = 'L') (by decide) h hc

variable {c : Char}

theorem spell_dot (sep : UInt8) : spell sep ['.'] = [sep] :=
  rfl

theorem spell_segmentChar (h : isSegmentChar c = true) (sep : UInt8) :
    spell sep [c] = [UInt8.ofNat c.toNat] := by
  rw [spell_cons, if_neg (ne_dot_of_isSegmentChar h), spell_nil]

/-- Of the characters of a name only `L` opens a reference that is spelled with slashes. -/
theorem eq_L_of_opensAfter (hc : c = '.' ∨ isSegmentChar c = true) (hs : IsSeparator s)
    (hfirst : pre = [] → isSegmentChar c = true) (h : OpensAfter slash (pre ++ spell s [c])) :
    c = 'L' := by
  rw [opensAfter_slash_iff] at h
  obtain rfl | hsegment := hc
  · rw [spell_dot, List.getLast?_concat] at h
    exfalso
    obtain hsole | hlast := h
    · have hnil : pre = [] := (List.append_eq_singleton_iff.mp hsole).elim And.left (by simp)
      exact absurd (hfirst hnil) (by decide)
    · obtain rfl | rfl := hs <;> exact absurd (hlast _ rfl) (by decide)
  · have hname := isNameByte_of_isSegmentChar hsegment
    rw [spell_segmentChar hsegment, List.getLast?_concat] at h
    obtain hsole | hlast := h
    · have hbyte : pre = [] ∧ UInt8.ofNat c.toNat = slash := by
        simpa [List.append_eq_singleton_iff] using hsole
      rw [hbyte.2] at hname
      exact absurd hname (by decide)
    · obtain hL | ⟨hnot, -⟩ := hlast _ rfl
      · exact eq_L_of_byte hsegment hL
      · rw [hname] at hnot
        exact absurd hnot (by decide)

/-- Of the characters of a name only a slash between two parts opens one that is spelled with dots. -/
theorem eq_slash_of_opensAfter (hc : c = '.' ∨ isSegmentChar c = true) (hs : IsSeparator s)
    (h : OpensAfter dot (pre ++ spell s [c])) : c = '.' ∧ s = slash := by
  rw [opensAfter_dot_iff] at h
  obtain rfl | hsegment := hc
  · rw [spell_dot, List.getLast?_concat] at h
    exact ⟨rfl, hs.resolve_right (h s rfl).2⟩
  · rw [spell_segmentChar hsegment, List.getLast?_concat] at h
    have hnot := (h _ rfl).1
    rw [isNameByte_of_isSegmentChar hsegment] at hnot
    exact absurd hnot (by decide)

theorem opens_inside (hname : isNamespace name = true) (hs : IsSeparator s) (ht : IsSeparator t)
    (hcut : spell s name.toList = before ++ x) (hne : before ≠ [])
    (hopens : OpensAfter t (pre ++ before)) :
    ∃ rest, spell s rest = x ∧
      (t = slash ∧ 'L' :: rest <:+ name.toList ∨
        t = dot ∧ s = slash ∧ '.' :: rest <:+ name.toList) := by
  obtain ⟨first, rest, hsplit, rfl, rfl⟩ := exists_of_spell_eq_append hcut
  obtain ⟨init, c, rfl⟩ := (List.eq_nil_or_concat' first).resolve_left (by simpa using hne)
  rw [List.append_assoc, List.singleton_append] at hsplit
  have hjoined := isNamespace_iff.mp hname
  rw [hsplit] at hjoined ⊢
  rw [spell_append, ← List.append_assoc] at hopens
  have hchar := hjoined.of_mem (c := c) (by simp)
  refine ⟨rest, rfl, ?_⟩
  obtain rfl | rfl := ht
  · left
    have hfirst : pre ++ spell s init = [] → isSegmentChar c = true := by
      intro hnil
      obtain rfl := spell_eq_nil_iff.mp (List.append_eq_nil_iff.mp hnil).2
      exact hjoined.of_cons
    obtain rfl := eq_L_of_opensAfter hchar hs hfirst hopens
    exact ⟨rfl, List.suffix_append _ _⟩
  · right
    obtain ⟨rfl, hslash⟩ := eq_slash_of_opensAfter hchar hs hopens
    exact ⟨rfl, hslash, List.suffix_append _ _⟩

end Inside

end FatJar.Relocation
