import FatJar.Text.Utf8

namespace FatJar

namespace Utf8

theorem encode_injective {cs ds : List Char} (h : encode cs = encode ds) : cs = ds := by
  have hb : (String.ofList cs).toByteArray = (String.ofList ds).toByteArray := by
    rw [String.toByteArray_ofList, String.toByteArray_ofList]
    exact congrArg List.toByteArray h
  have hs := congrArg String.toList (String.toByteArray_inj.mp hb)
  simpa using hs

@[simp]
theorem encode_nil : encode [] = [] :=
  rfl

theorem encode_cons (c : Char) (cs : List Char) :
    encode (c :: cs) = String.utf8EncodeChar c ++ encode cs :=
  List.flatMap_cons

@[simp]
theorem encode_append (cs ds : List Char) : encode (cs ++ ds) = encode cs ++ encode ds :=
  List.flatMap_append

theorem size_eq_length (cs : List Char) : size cs = (encode cs).length := by
  have hfoldl (n : Nat) : cs.foldl (fun n c => n + c.utf8Size) n = n + (encode cs).length := by
    induction cs generalizing n with
    | nil => rfl
    | cons c cs ih =>
      rw [List.foldl_cons, ih, encode_cons, List.length_append, String.length_utf8EncodeChar, Nat.add_assoc]
  rw [size, hfoldl, Nat.zero_add]

theorem toNat_lt_of_isAlphanum {c : Char} (h : c.isAlphanum = true) : c.toNat < 0x80 := by
  unfold Char.isAlphanum Char.isAlpha Char.isUpper Char.isLower Char.isDigit at h
  simp only [Bool.or_eq_true, Bool.and_eq_true, decide_eq_true_eq, ge_iff_le,
    UInt32.le_iff_toNat_le, Char.reduceVal, UInt32.reduceToNat, Char.toNat_val] at h
  omega

theorem toNat_lt_of_isAlphanum_or {c x y : Char} (hx : x.toNat < 0x80) (hy : y.toNat < 0x80)
    (h : (c.isAlphanum || c == x || c == y) = true) : c.toNat < 0x80 := by
  obtain h | h := Bool.or_eq_true_iff.mp h
  · obtain h | h := Bool.or_eq_true_iff.mp h
    · exact toNat_lt_of_isAlphanum h
    · rwa [eq_of_beq h]
  · rwa [eq_of_beq h]

theorem of_ascii {p : Char → Prop} (hp : ∀ n < 0x80, p (Char.ofNat n)) {c : Char} (h : c.toNat < 0x80) :
    p c := by
  rw [← Char.ofNat_toNat c]
  exact hp c.toNat h

theorem toNat_ofNat_lt {n : Nat} (h : n < 256) : (UInt8.ofNat n).toNat = n := by
  rw [UInt8.toNat_ofNat', Nat.mod_eq_of_lt h]

theorem encodeChar_ascii {c : Char} (h : c.toNat < 0x80) :
    String.utf8EncodeChar c = [UInt8.ofNat c.toNat] :=
  if_pos (Nat.le_of_lt_succ h)

theorem encode_cons_ascii {c : Char} (h : c.toNat < 0x80) (cs : List Char) :
    encode (c :: cs) = UInt8.ofNat c.toNat :: encode cs := by
  rw [encode_cons, encodeChar_ascii h, List.singleton_append]

theorem encode_ascii {cs : List Char} (h : ∀ c ∈ cs, c.toNat < 0x80) :
    encode cs = cs.map fun c => UInt8.ofNat c.toNat := by
  induction cs with
  | nil => rfl
  | cons c cs ih =>
    have hcs : ∀ d ∈ cs, d.toNat < 0x80 := fun d hd => h d (List.mem_cons_of_mem _ hd)
    rw [encode_cons_ascii (h c List.mem_cons_self), ih hcs, List.map_cons]

theorem le_of_mem_encodeChar {c : Char} (h : 0x80 ≤ c.toNat) {b : UInt8}
    (hb : b ∈ String.utf8EncodeChar c) : 0x80 ≤ b.toNat := by
  have hn : ¬ c.val.toNat ≤ 0x7F := Nat.not_le.mpr h
  have hhigh : ∀ n, 0x80 ≤ n → n < 256 → 0x80 ≤ (UInt8.ofNat n).toNat := by
    intro n hle hlt
    rwa [toNat_ofNat_lt hlt]
  simp only [String.utf8EncodeChar, if_neg hn] at hb
  split at hb
  · simp only [List.mem_cons, List.not_mem_nil, or_false] at hb
    obtain rfl | rfl := hb <;> exact hhigh _ (by omega) (by omega)
  split at hb
  · simp only [List.mem_cons, List.not_mem_nil, or_false] at hb
    obtain rfl | rfl | rfl := hb <;> exact hhigh _ (by omega) (by omega)
  · simp only [List.mem_cons, List.not_mem_nil, or_false] at hb
    obtain rfl | rfl | rfl | rfl := hb <;> exact hhigh _ (by omega) (by omega)

theorem eq_of_mem_encodeChar {c : Char} {b : UInt8} (hb : b ∈ String.utf8EncodeChar c)
    (ha : b.toNat < 0x80) : c = Char.ofNat b.toNat ∧ String.utf8EncodeChar c = [b] := by
  have hc : c.toNat < 0x80 := Nat.lt_of_not_le fun hc =>
    absurd (le_of_mem_encodeChar hc hb) (Nat.not_le.mpr ha)
  rw [encodeChar_ascii hc] at hb ⊢
  rw [List.mem_singleton.mp hb, toNat_ofNat_lt (by omega), Char.ofNat_toNat]
  exact ⟨rfl, rfl⟩

@[simp]
theorem encode_eq_nil_iff {cs : List Char} : encode cs = [] ↔ cs = [] := by
  cases cs with
  | nil => simp
  | cons c cs => simp [encode_cons]

theorem exists_of_encode_eq_append_cons {cs : List Char} {before after : Bytes} {b : UInt8}
    (h : encode cs = before ++ b :: after) (hb : b.toNat < 0x80) :
    ∃ ds es, cs = ds ++ Char.ofNat b.toNat :: es ∧ encode ds = before ∧ encode es = after := by
  induction cs generalizing before with
  | nil => simp at h
  | cons c cs ih =>
    rw [encode_cons] at h
    obtain ⟨rest, rfl, hrest⟩ | ⟨rest, hchar, hrest⟩ := List.append_eq_append_iff.mp h
    · obtain ⟨ds, es, rfl, rfl, hes⟩ := ih hrest
      exact ⟨c :: ds, es, rfl, encode_cons c ds, hes⟩
    · cases rest with
      | nil =>
        rw [List.append_nil] at hchar
        have hnext : encode cs = [] ++ b :: after := hrest.symm
        obtain ⟨ds, es, rfl, hds, hes⟩ := ih hnext
        obtain rfl := encode_eq_nil_iff.mp hds
        exact ⟨[c], es, rfl, by rw [encode_cons, encode_nil, List.append_nil, hchar], hes⟩
      | cons x rest =>
        obtain ⟨rfl, hafter⟩ := List.cons.inj hrest
        obtain ⟨hc, hone⟩ := eq_of_mem_encodeChar (c := c) (b := b) (by simp [hchar]) hb
        rw [hone] at hchar
        cases before with
        | nil =>
          obtain ⟨-, rfl⟩ := List.cons.inj hchar
          exact ⟨[], cs, by rw [hc, List.nil_append], rfl, hafter.symm⟩
        | cons y before => simp at hchar

theorem exists_of_encode_eq_append {ds cs : List Char} (hd : ∀ c ∈ ds, c.toNat < 0x80)
    {after : Bytes} (h : encode cs = encode ds ++ after) :
    ∃ es, cs = ds ++ es ∧ encode es = after := by
  induction ds generalizing cs with
  | nil => exact ⟨cs, rfl, h⟩
  | cons d ds ih =>
    have hdc := hd d List.mem_cons_self
    rw [encode_cons_ascii hdc] at h
    have hb : (UInt8.ofNat d.toNat).toNat = d.toNat := toNat_ofNat_lt (by omega)
    have hfirst : encode cs = [] ++ UInt8.ofNat d.toNat :: (encode ds ++ after) := h
    obtain ⟨ds', es, rfl, hds', hes⟩ := exists_of_encode_eq_append_cons hfirst (by omega)
    obtain rfl := encode_eq_nil_iff.mp hds'
    obtain ⟨es', rfl, hes'⟩ := ih (fun c hc => hd c (List.mem_cons_of_mem _ hc)) hes
    exact ⟨es', by rw [hb, Char.ofNat_toNat]; rfl, hes'⟩

theorem exists_of_encode_eq_append_append {ds cs : List Char} (hd : ∀ c ∈ ds, c.toNat < 0x80)
    (hn : ds ≠ []) {before after : Bytes} (h : encode cs = before ++ encode ds ++ after) :
    ∃ fs es, cs = fs ++ ds ++ es ∧ encode fs = before ∧ encode es = after := by
  cases ds with
  | nil => exact absurd rfl hn
  | cons d ds =>
    have hdc := hd d List.mem_cons_self
    rw [encode_cons_ascii hdc, List.append_assoc, List.cons_append] at h
    have hb : (UInt8.ofNat d.toNat).toNat = d.toNat := toNat_ofNat_lt (by omega)
    obtain ⟨fs, es, rfl, hfs, hes⟩ := exists_of_encode_eq_append_cons h (by omega)
    obtain ⟨es', rfl, hes'⟩ :=
      exists_of_encode_eq_append (fun c hc => hd c (List.mem_cons_of_mem _ hc)) hes
    exact ⟨fs, es', by rw [hb, Char.ofNat_toNat]; simp, hfs, hes'⟩

end Utf8

theorem utf8_injective {s t : String} (h : utf8 s = utf8 t) : s = t :=
  String.toList_inj.mp (Utf8.encode_injective h)

end FatJar
