import FatJar.Manifest.Parser
import FatJar.Manifest.Settings
import FatJar.Proofs.Manifest.Attributes
import FatJar.Proofs.Text.Lines
import FatJar.Proofs.Text.Parts
import FatJar.Proofs.Text.Utf8

namespace FatJar

namespace Manifest

theorem toNat_lt_of_isNameChar {c : Char} (h : isNameChar c = true) : c.toNat < 0x80 :=
  Utf8.toNat_lt_of_isAlphanum_or (by decide) (by decide) h

theorem isValue_iff {value : String} :
    isValue value = true ↔ '\r' ∉ value.toList ∧ '\n' ∉ value.toList ∧ '\x00' ∉ value.toList := by
  rw [isValue, List.all_eq_true]
  constructor
  · intro h
    refine ⟨fun hc => ?_, fun hc => ?_, fun hc => ?_⟩ <;> exact absurd (h _ hc) (by decide)
  · rintro ⟨hreturn, hfeed, hnul⟩ c hc
    have hne : ∀ d, d ∉ value.toList → (c != d) = true := fun d hd =>
      bne_iff_ne.mpr fun he => hd (he ▸ hc)
    rw [hne _ hreturn, hne _ hfeed, hne _ hnul]
    rfl

theorem plain_of_isNameChar {c : Char} (h : isNameChar c = true) :
    isBlank c = false ∧ c ≠ ':' ∧ c ≠ ' ' ∧ c ≠ '\n' := by
  have hall : isNameChar c = true → isBlank c = false ∧ c ≠ ':' ∧ c ≠ ' ' ∧ c ≠ '\n' :=
    Utf8.of_ascii (p := fun c => isNameChar c = true → isBlank c = false ∧ c ≠ ':' ∧ c ≠ ' ' ∧ c ≠ '\n')
      (by decide) (toNat_lt_of_isNameChar h)
  exact hall h

namespace Reading

variable {r : Reading} {name value more text : List Char}

theorem extend_nil (r : Reading) : r.extend [] = r := by
  unfold extend
  split
  · rfl
  · split
    · rfl
    · next value hvalue =>
      rw [String.ofList_nil, String.append_empty, Attributes.put_of_get? hvalue]

theorem extend_of_get? {name value : String} (hname : r.current = some name)
    (hvalue : r.attributes.get? name = some value) (more : List Char) :
    r.extend more = { r with attributes := r.attributes.put name (value ++ String.ofList more) } := by
  rw [extend, hname]
  simp only [hvalue]

theorem extend_put (r : Reading) (name value : String) (more : List Char) :
    extend ⟨r.attributes.put name value, some name⟩ more =
      ⟨r.attributes.put name (value ++ String.ofList more), some name⟩ := by
  rw [extend_of_get? rfl (Attributes.get?_put _ _ _), Attributes.put_put]

theorem extend_extend (r : Reading) (more text : List Char) :
    (r.extend more).extend text = r.extend (more ++ text) := by
  cases hname : r.current with
  | none => simp only [extend, hname]
  | some name =>
    cases hvalue : r.attributes.get? name with
    | none => simp only [extend, hname, hvalue]
    | some value =>
      rw [extend_of_get? hname hvalue, extend_of_get? hname hvalue, hname, extend_put,
        String.append_assoc, String.ofList_append]

theorem foldl_line_continued (r : Reading) (lines : List (List Char)) :
    (lines.map (' ' :: ·)).foldl line r = r.extend lines.flatten := by
  induction lines generalizing r with
  | nil => exact (extend_nil r).symm
  | cons text lines ih =>
    rw [List.map_cons, List.foldl_cons, line, ih, extend_extend, List.flatten_cons]

theorem line_of_head (h : text.head? ≠ some ' ') :
    r.line text = match cutAt? ':' text with
      | none => r
      | some (name, value) => r.header name value := by
  unfold line
  split
  · exact absurd rfl h
  · rfl

theorem line_header (hne : name ≠ []) (h : ∀ c ∈ name, isNameChar c = true) (value : List Char) :
    r.line (name ++ ':' :: value) = r.header name value := by
  obtain ⟨c, cs, rfl⟩ := List.exists_cons_of_ne_nil hne
  have hcut : cutAt? ':' (c :: cs ++ ':' :: value) = some (c :: cs, value) := by
    refine cutAt?_append_cons (fun hmem => ?_) value
    exact (plain_of_isNameChar (h _ hmem)).2.1 rfl
  rw [line_of_head, hcut]
  rw [List.cons_append, List.head?_cons, ne_eq, Option.some.injEq]
  exact (plain_of_isNameChar (h c List.mem_cons_self)).2.2.1

theorem line_of_notMem (h : text.head? ≠ some ' ') (hcolon : ':' ∉ text) : r.line text = r := by
  rw [line_of_head h, cutAt?_eq_none_iff.mpr hcolon]

theorem header_spaced (h : ∀ c ∈ name, isNameChar c = true) (value : List Char) :
    r.header name (' ' :: value) =
      ⟨r.attributes.put (String.ofList name) (String.ofList value), some (String.ofList name)⟩ := by
  rw [header, trim_eq_self fun c hc => (plain_of_isNameChar (h c hc)).1]
  rfl

theorem header_empty (h : ∀ c ∈ name, isNameChar c = true) :
    r.header name [] = ⟨r.attributes.put (String.ofList name) "", some (String.ofList name)⟩ := by
  rw [header, trim_eq_self fun c hc => (plain_of_isNameChar (h c hc)).1]
  rfl

section Values

def ValuesOf (p : Char → Prop) (r : Reading) : Prop :=
  ∀ q ∈ r.attributes.pairs, ∀ c ∈ q.2.toList, p c

variable {p : Char → Prop}

theorem ValuesOf.put (hr : r.ValuesOf p) {name value : String} (hvalue : ∀ c ∈ value.toList, p c)
    (current : Option String) : ValuesOf p ⟨r.attributes.put name value, current⟩ := by
  intro q hq
  obtain rfl | hq := mem_of_mem_putPair hq
  · exact hvalue
  · exact hr q hq

theorem ValuesOf.extend (hr : r.ValuesOf p) (hmore : ∀ c ∈ more, p c) : (r.extend more).ValuesOf p := by
  cases hname : r.current with
  | none => simpa only [Reading.extend, hname] using hr
  | some name =>
    cases hvalue : r.attributes.get? name with
    | none => simpa only [Reading.extend, hname, hvalue] using hr
    | some value =>
      rw [extend_of_get? hname hvalue]
      refine hr.put (fun c hc => ?_) _
      rw [String.toList_append, String.toList_ofList, List.mem_append] at hc
      obtain hc | hc := hc
      · exact hr _ ((lookup_eq_some_iff_mem r.attributes.nodup).mp hvalue) c hc
      · exact hmore c hc

theorem ValuesOf.header (hr : r.ValuesOf p) (hvalue : ∀ c ∈ value, p c) (name : List Char) :
    (r.header name value).ValuesOf p := by
  refine hr.put (fun c hc => ?_) _
  rw [String.toList_ofList] at hc
  split at hc
  · exact hvalue c (List.mem_of_mem_tail hc)
  · exact hvalue c hc

theorem ValuesOf.line (hr : r.ValuesOf p) (htext : ∀ c ∈ text, p c) : (r.line text).ValuesOf p := by
  by_cases hspace : text.head? = some ' '
  · obtain ⟨more, rfl⟩ := List.head?_eq_some_iff.mp hspace
    exact hr.extend fun c hc => htext c (List.mem_cons_of_mem _ hc)
  · rw [line_of_head hspace]
    cases hcut : cutAt? ':' text with
    | none => exact hr
    | some parts =>
      refine hr.header (fun c hc => htext c ?_) _
      rw [(eq_of_cutAt? hcut).1]
      exact List.mem_append_right _ (List.mem_cons_of_mem _ hc)

end Values

end Reading

theorem valuesOf_parse {p : Char → Prop} (bs : Bytes)
    (h : ∀ line ∈ physicalLines (Utf8.decodeLossy bs), ∀ c ∈ line, p c) :
    ∀ q ∈ (parse bs).pairs, ∀ c ∈ q.2.toList, p c := by
  refine List.foldlRecOn (motive := Reading.ValuesOf p) _ _ (fun q hq => by cases hq) ?_
  intro r hr line hline
  exact hr.line (h line ((List.takeWhile_sublist _).subset hline))

end Manifest

end FatJar
