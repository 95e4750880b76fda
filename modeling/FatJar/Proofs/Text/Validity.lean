import FatJar.Proofs.Text.Scalars

namespace FatJar.Utf8

section Characters

variable {a b c d : UInt8}

theorem ofNat_eq_of_toNat {n : Nat} (h : n = a.toNat) : UInt8.ofNat n = a := by
  rw [h, UInt8.ofNat_toNat]

theorem encodeChar_codePoint_two (ha : (decide (0xC2 ≤ a) && decide (a < 0xE0)) = true)
    (hb : isContinuation b = true) :
    String.utf8EncodeChar (codePoint (a.toNat % 32) [b]) = [a, b] := by
  have hn : (codePoint (a.toNat % 32) [b]).val.toNat = _ := toNat_codePoint_two a b
  simp only [Bool.and_eq_true, decide_eq_true_eq, UInt8.le_iff_toNat_le, UInt8.lt_iff_toNat_lt] at ha
  simp at ha
  have hb' := isContinuation_iff.mp hb
  have hone : ¬ a.toNat % 32 * 64 + b.toNat % 64 ≤ 0x7F := by omega
  have htwo : a.toNat % 32 * 64 + b.toNat % 64 ≤ 0x7FF := by omega
  simp only [String.utf8EncodeChar, hn, if_neg hone, if_pos htwo]
  rw [ofNat_eq_of_toNat (a := a) (by omega), ofNat_eq_of_toNat (a := b) (by omega)]

theorem encodeChar_codePoint_three (ha : (decide (0xE0 ≤ a) && decide (a < 0xF0)) = true)
    (hb : secondOfThree a b = true) (hc : isContinuation c = true) :
    String.utf8EncodeChar (codePoint (a.toNat % 16) [b, c]) = [a, b, c] := by
  have hn : (codePoint (a.toNat % 16) [b, c]).val.toNat = _ := toNat_codePoint_three ha hb hc
  simp only [Bool.and_eq_true, decide_eq_true_eq, UInt8.le_iff_toNat_le, UInt8.lt_iff_toNat_lt] at ha
  simp at ha
  have hb' := secondOfThree_iff.mp hb
  have hc' := isContinuation_iff.mp hc
  generalize hm : (a.toNat % 16 * 64 + b.toNat % 64) * 64 + c.toNat % 64 = m at hn
  have htwo : ¬ m ≤ 0x7FF := by omega
  have hone : ¬ m ≤ 0x7F := by omega
  have hthree : m ≤ 0xFFFF := by omega
  simp only [String.utf8EncodeChar, hn, if_neg hone, if_neg htwo, if_pos hthree]
  rw [ofNat_eq_of_toNat (a := a) (by omega), ofNat_eq_of_toNat (a := b) (by omega),
    ofNat_eq_of_toNat (a := c) (by omega)]

theorem encodeChar_codePoint_four (ha : (decide (0xF0 ≤ a) && decide (a < 0xF5)) = true)
    (hb : secondOfFour a b = true) (hc : isContinuation c = true) (hd : isContinuation d = true) :
    String.utf8EncodeChar (codePoint (a.toNat % 8) [b, c, d]) = [a, b, c, d] := by
  have hn : (codePoint (a.toNat % 8) [b, c, d]).val.toNat = _ := toNat_codePoint_four ha hb hc hd
  simp only [Bool.and_eq_true, decide_eq_true_eq, UInt8.le_iff_toNat_le, UInt8.lt_iff_toNat_lt] at ha
  simp at ha
  have hb' := secondOfFour_iff.mp hb
  have hc' := isContinuation_iff.mp hc
  have hd' := isContinuation_iff.mp hd
  generalize hm : ((a.toNat % 8 * 64 + b.toNat % 64) * 64 + c.toNat % 64) * 64 + d.toNat % 64 = m at hn
  have hthree : ¬ m ≤ 0xFFFF := by omega
  have htwo : ¬ m ≤ 0x7FF := by omega
  have hone : ¬ m ≤ 0x7F := by omega
  simp only [String.utf8EncodeChar, hn, if_neg hone, if_neg htwo, if_neg hthree]
  rw [ofNat_eq_of_toNat (a := a) (by omega), ofNat_eq_of_toNat (a := b) (by omega),
    ofNat_eq_of_toNat (a := c) (by omega), ofNat_eq_of_toNat (a := d) (by omega)]

theorem isContinuation_ofNat (n : Nat) : isContinuation (UInt8.ofNat (n % 64 + 128)) = true := by
  rw [isContinuation_iff, toNat_ofNat_lt (by omega)]
  omega

theorem isContinuation_ofNat_eq_false {n : Nat} (h : n < 0x80 ∨ 0xC0 ≤ n ∧ n < 256) :
    isContinuation (UInt8.ofNat n) = false := by
  rw [Bool.eq_false_iff, Ne, isContinuation_iff, toNat_ofNat_lt (by omega)]
  omega

theorem exists_encodeChar_eq (x : Char) :
    ∃ lead rest, String.utf8EncodeChar x = lead :: rest ∧ isContinuation lead = false ∧
      ∀ b ∈ rest, isContinuation b = true := by
  have hvalid : x.val.toNat < 0xD800 ∨ 0xDFFF < x.val.toNat ∧ x.val.toNat < 0x110000 := x.valid
  simp only [String.utf8EncodeChar]
  repeat' split
  all_goals refine ⟨_, _, rfl, isContinuation_ofNat_eq_false (by omega), ?_⟩
  all_goals simp only [List.forall_mem_cons, isContinuation_ofNat, List.not_mem_nil, false_implies,
    implies_true, and_self]

end Characters

section Reading

variable {acc : List (Option Char)} {bs rest : Bytes} {cs : List Char} {c : Char}

theorem exists_cons_of_scalarsFrom {x : Option Char}
    (h : scalarsFrom (x :: acc) rest = acc.reverse ++ cs.map some) :
    ∃ c ds, x = some c ∧ cs = c :: ds ∧
      scalarsFrom (x :: acc) rest = (x :: acc).reverse ++ ds.map some := by
  obtain ⟨ys, -, hys⟩ := exists_reads (x :: acc) rest
  have hcs : cs.map some = x :: ys := by
    rw [h, List.reverse_cons, List.append_assoc, List.singleton_append] at hys
    exact List.append_cancel_left hys
  obtain ⟨c, ds, rfl, rfl, rfl⟩ := List.map_eq_cons_iff.mp hcs
  exact ⟨c, ds, rfl, rfl, hys⟩

theorem ne_of_scalarsFrom_none : scalarsFrom (none :: acc) rest ≠ acc.reverse ++ cs.map some := by
  intro h
  obtain ⟨c, ds, hnone, -⟩ := exists_cons_of_scalarsFrom h
  cases hnone

theorem ne_of_last_none : (none :: acc).reverse ≠ acc.reverse ++ cs.map some := by
  simpa [scalarsFrom] using @ne_of_scalarsFrom_none acc [] cs

theorem eq_encode_cons (unit : Bytes) (hunit : String.utf8EncodeChar c = unit)
    (ih : ∀ ds, scalarsFrom (some c :: acc) rest = (some c :: acc).reverse ++ ds.map some →
      rest = encode ds)
    (h : scalarsFrom (some c :: acc) rest = acc.reverse ++ cs.map some) :
    unit ++ rest = encode cs := by
  obtain ⟨d, ds, hd, rfl, hrest⟩ := exists_cons_of_scalarsFrom h
  obtain rfl := Option.some.inj hd
  rw [encode_cons, hunit, ih ds hrest]

theorem eq_encode_of_scalarsFrom (acc : List (Option Char)) (bs : Bytes) (cs : List Char)
    (h : scalarsFrom acc bs = acc.reverse ++ cs.map some) : bs = encode cs := by
  fun_induction scalarsFrom acc bs generalizing cs with
  | case1 acc =>
    have hnil : cs.map some = [] := List.self_eq_append_right.mp h
    rw [List.map_eq_nil_iff.mp hnil, encode_nil]
  | case2 acc a rest ha ih =>
    refine eq_encode_cons [a] ?_ ih h
    have hlt : a.toNat < 0x80 := ha
    rw [encodeChar_ascii (by rwa [toNat_ofNat_byte]), toNat_ofNat_byte, UInt8.ofNat_toNat]
  | case4 acc a _ ha b rest hb ih =>
    exact eq_encode_cons [a, b] (encodeChar_codePoint_two ha hb) ih h
  | case9 acc a _ _ ha b c rest hb hc ih =>
    exact eq_encode_cons [a, b, c] (encodeChar_codePoint_three ha hb hc) ih h
  | case18 acc a _ _ _ ha b c d rest hb hc hd ih =>
    exact eq_encode_cons [a, b, c, d] (encodeChar_codePoint_four ha hb hc hd) ih h
  -- A run of bytes that spells no character is no part of a text.
  | case3 | case6 | case7 | case12 | case13 | case15 => exact absurd h ne_of_last_none
  | case5 | case8 | case10 | case11 | case14 | case16 | case17 | case19 | case20 | case21 | case22 =>
    exact absurd h ne_of_scalarsFrom_none

theorem isValid_iff : isValid bs = true ↔ ∃ cs, bs = encode cs := by
  constructor
  · intro h
    have hsome : ∀ x ∈ scalars bs, x.isSome := List.all_eq_true.mp h
    have hmap : (scalars bs).map (fun x => some (x.getD '\uFFFD')) = scalars bs := by
      refine (List.map_congr_left fun x hx => ?_).trans (List.map_id _)
      obtain ⟨c, rfl⟩ := Option.isSome_iff_exists.mp (hsome x hx)
      rfl
    refine ⟨decodeLossy bs, eq_encode_of_scalarsFrom [] bs _ ?_⟩
    rw [List.reverse_nil, List.nil_append, decodeLossy, List.map_map]
    exact hmap.symm
  · rintro ⟨cs, rfl⟩
    exact isValid_encode cs

theorem decode?_encode (cs : List Char) : decode? (encode cs) = some cs := by
  rw [decode?, if_pos (isValid_encode cs), decodeLossy_encode]

end Reading

end FatJar.Utf8
