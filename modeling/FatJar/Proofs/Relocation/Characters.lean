import FatJar.Proofs.Relocation.LineBreaks
import FatJar.Proofs.Relocation.Scanning
import FatJar.Proofs.Text.Validity

namespace FatJar.Relocation

/-- From `pos` on, `text` becomes `result`: at the places of the occurrences their literals give way to what
replaces them, and every other character is kept. -/
inductive Carries : (pos : Nat) → List Occurrence → (text result : List Char) → Prop
  | done (pos : Nat) : Carries pos [] [] []
  | keep {pos : Nat} {os : List Occurrence} {text result : List Char} (c : Char)
      (tail : Carries (pos + c.utf8Size) os text result) : Carries pos os (c :: text) (c :: result)
  | swap {pos : Nat} {o : Occurrence} {os : List Occurrence} {source target text result : List Char}
      (hstart : o.start = pos) (hsource : Utf8.encode source = o.literal.text)
      (htarget : Utf8.encode target = o.replacement) (tail : Carries o.stop os text result) :
      Carries pos (o :: os) (source ++ text) (target ++ result)

variable {rs : RuleSet} {r : Rule} {sep b : UInt8} {pre bs rest out : Bytes} {text : List Char} {c : Char}

theorem exists_encode_eq_spell {name : String} (h : isNamespace name = true) (hsep : IsSeparator sep) :
    ∃ cs, Utf8.encode cs = spell sep name.toList ∧ ∀ c ∈ cs, c.toNat < 0x80 := by
  obtain rfl | rfl := hsep
  · exact ⟨(slashed name).toList, utf8_slashed_eq_spell h, fun c => ascii_of_mem_slashed h⟩
  · exact ⟨name.toList, utf8_eq_spell h, fun c => ascii_of_isNamespace h⟩

theorem exists_source (h : Refers rs sep r pre rest) :
    ∃ source, Utf8.encode source = spell sep r.source.toList ∧ source ≠ [] ∧
      ∀ c ∈ source, c.toNat < 0x80 := by
  obtain ⟨source, hsource, hascii⟩ :=
    exists_encode_eq_spell (rs.isNamespace_source h.mem) h.isSeparator
  refine ⟨source, hsource, ?_, hascii⟩
  rintro rfl
  exact spell_source_ne_nil h.mem sep hsource.symm

theorem noReferenceAt_of_le (hb : 0x80 ≤ b.toNat) (pre bs : Bytes) : NoReferenceAt rs pre (b :: bs) := by
  intro sep r rest hbs h
  obtain ⟨source, hsource, hne, hascii⟩ := exists_source h
  obtain ⟨c, cs, rfl⟩ := List.exists_cons_of_ne_nil hne
  have hc := hascii c List.mem_cons_self
  rw [← hsource, Utf8.encode_cons_ascii hc, List.cons_append] at hbs
  obtain ⟨rfl, -⟩ := List.cons.inj hbs
  rw [Utf8.toNat_ofNat_lt (by omega)] at hb
  omega

theorem noReferenceIn_encodeChar (h : NoReferenceAt rs pre (String.utf8EncodeChar c ++ rest)) :
    NoReferenceIn rs pre (String.utf8EncodeChar c) rest := by
  intro before after hchar hne
  cases before with
  | nil =>
    rw [List.append_nil]
    rwa [hchar] at h
  | cons x before =>
    obtain ⟨y, after, rfl⟩ := List.exists_cons_of_ne_nil hne
    have hwide : 0x80 ≤ c.toNat := by
      by_contra hascii
      rw [Utf8.encodeChar_ascii (Nat.lt_of_not_le hascii)] at hchar
      simp at hchar
    have hy : y ∈ String.utf8EncodeChar c := by simp [hchar]
    exact noReferenceAt_of_le (Utf8.le_of_mem_encodeChar hwide hy) _ _

theorem Rewrites.carries (h : Rewrites rs pre (Utf8.encode text) out) :
    ∃ result, out = Utf8.encode result ∧
      Carries pre.length (selectedAfter rs pre (Utf8.encode text)) text result := by
  -- By length, for a reference takes several characters at once.
  induction hn : text.length using Nat.strong_induction_on generalizing pre text out with
  | _ n ih =>
    subst hn
    cases text with
    | nil =>
      rw [Utf8.encode_nil] at h ⊢
      rw [selectedAfter_nil]
      exact ⟨[], (Rewrites.done pre).unique h, .done _⟩
    | cons c text =>
      by_cases hno : NoReferenceAt rs pre (Utf8.encode (c :: text))
      · rw [Utf8.encode_cons] at h hno ⊢
        have hchar := noReferenceIn_encodeChar hno
        obtain ⟨out, rfl, htail⟩ := h.of_noReference hchar
        obtain ⟨result, rfl, hcarries⟩ := ih text.length (Nat.lt_succ_self _) htail rfl
        rw [List.length_append, String.length_utf8EncodeChar] at hcarries
        rw [hchar.selectedAfter_eq]
        exact ⟨c :: result, (Utf8.encode_cons c result).symm, .keep c hcarries⟩
      · unfold NoReferenceAt at hno
        push Not at hno
        obtain ⟨sep, r, rest, hbs, hrefers⟩ := hno
        obtain ⟨source, hsource, hne, hascii⟩ := exists_source hrefers
        obtain ⟨target, htarget, -⟩ :=
          exists_encode_eq_spell (rs.isNamespace_target hrefers.mem) hrefers.isSeparator
        obtain ⟨out, rfl, htail⟩ := h.of_refers hrefers hbs
        obtain ⟨more, hmore, rfl⟩ :=
          Utf8.exists_of_encode_eq_append hascii (hbs.trans (by rw [hsource]))
        have hshorter : more.length < (c :: text).length := by
          have hpos := List.length_pos_of_ne_nil hne
          rw [hmore, List.length_append]
          omega
        obtain ⟨result, rfl, hcarries⟩ := ih more.length hshorter htail rfl
        rw [← stop_occurrence pre (Utf8.encode more)] at hcarries
        rw [hbs, hrefers.selectedAfter_eq, hmore]
        refine ⟨target ++ result, by rw [Utf8.encode_append, htarget], ?_⟩
        exact .swap rfl hsource (htarget.trans hrefers.replacement_eq.symm) hcarries

/-- A valid text stays valid, so that what it is rewritten to is read without loss; and each character that is
no part of a replaced literal is kept in its order. -/
theorem replace_carries (hvalid : Utf8.isValid bs = true) (h : rs.replace bs = some out) :
    Utf8.isValid out = true ∧
      Utf8.decode? out = some (rs.replaceInText (textOf bs)).toList ∧
      Carries 0 (rs.replaced bs) (Utf8.decodeLossy bs) (Utf8.decodeLossy out) := by
  obtain ⟨text, rfl⟩ := Utf8.isValid_iff.mp hvalid
  obtain ⟨result, rfl, hcarries⟩ := (RuleSet.rewrites_of_replace h).carries
  have htext : textOf (Utf8.encode text) = String.ofList text := by
    rw [textOf, Utf8.decodeLossy_encode]
  have hrewritten : rs.replaceInText (String.ofList text) = String.ofList result := by
    rw [RuleSet.replaceInText, utf8, String.toList_ofList, h]
    exact congrArg String.ofList (Utf8.decodeLossy_encode result)
  refine ⟨Utf8.isValid_encode result, ?_, ?_⟩
  · rw [htext, hrewritten, String.toList_ofList, Utf8.decode?_encode]
  · rw [Utf8.decodeLossy_encode, Utf8.decodeLossy_encode]
    exact hcarries

def shortened : RuleSet :=
  ⟨[⟨"com.vendor.lib", "x"⟩], by decide +kernel⟩

/-- Names between characters of two, three and four bytes; the last one follows such a character and is none. -/
theorem accented_names_carried :
    Utf8.isValid (utf8 "é com.vendor.lib.Ü 字 com/vendor/lib/Ä 😀com.vendor.lib") = true ∧
      shortened.replace (utf8 "é com.vendor.lib.Ü 字 com/vendor/lib/Ä 😀com.vendor.lib") =
        some (utf8 "é x.Ü 字 x/Ä 😀com.vendor.lib") ∧
      Utf8.isValid (utf8 "é x.Ü 字 x/Ä 😀com.vendor.lib") = true := by
  have hvalid : Utf8.isValid (utf8 "é com.vendor.lib.Ü 字 com/vendor/lib/Ä 😀com.vendor.lib") = true := by
    decide +kernel
  have hreplace : shortened.replace (utf8 "é com.vendor.lib.Ü 字 com/vendor/lib/Ä 😀com.vendor.lib") =
      some (utf8 "é x.Ü 字 x/Ä 😀com.vendor.lib") := by
    decide +kernel
  exact ⟨hvalid, hreplace, (replace_carries hvalid hreplace).1⟩

end FatJar.Relocation
