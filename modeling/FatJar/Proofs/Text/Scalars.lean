import FatJar.Proofs.Text.Utf8

namespace FatJar.Utf8

/-- A unit of a byte string with the character that it spells, if it spells one. A unit is an ASCII
byte or a run of bytes outside ASCII, and so is its character. -/
inductive Spells : Bytes → Option Char → Prop
  | ascii {b : UInt8} (h : b < 0x80) : Spells [b] (some (Char.ofNat b.toNat))
  | wide {unit : Bytes} {c : Option Char} (hb : ∀ b ∈ unit, 0x80 ≤ b)
      (hc : ∀ x ∈ c, 0x80 ≤ x.toNat) : Spells unit c

inductive Reads : Bytes → List (Option Char) → Prop
  | nil : Reads [] []
  | cons {unit rest : Bytes} {c : Option Char} {cs : List (Option Char)} (h : Spells unit c)
      (hrest : Reads rest cs) : Reads (unit ++ rest) (c :: cs)

section CodePoints

variable {a b c d : UInt8}

theorem isContinuation_iff : isContinuation b = true ↔ 0x80 ≤ b.toNat ∧ b.toNat < 0xC0 := by
  simp [isContinuation, UInt8.le_iff_toNat_le, UInt8.lt_iff_toNat_lt]

/-- Second bytes, of which the low ones are left out after one lead byte and the high ones after another. -/
theorem second_iff {first last low high : UInt8} (hlow : 0x80 ≤ low.toNat) (hhigh : high.toNat ≤ 0xC0)
    (hne : first.toNat ≠ last.toNat) :
    (if a = first then decide (low ≤ b) && decide (b < 0xC0)
        else if a = last then decide (0x80 ≤ b) && decide (b < high)
        else isContinuation b) = true ↔
      0x80 ≤ b.toNat ∧ b.toNat < 0xC0 ∧ (a.toNat = first.toNat → low.toNat ≤ b.toNat) ∧
        (a.toNat = last.toNat → b.toNat < high.toNat) := by
  simp only [isContinuation, ← UInt8.toNat_inj, UInt8.le_iff_toNat_le, UInt8.lt_iff_toNat_lt]
  split
  · simp [*]
    omega
  · split <;> simp_all
    omega

theorem secondOfThree_iff : secondOfThree a b = true ↔
    0x80 ≤ b.toNat ∧ b.toNat < 0xC0 ∧ (a.toNat = 0xE0 → 0xA0 ≤ b.toNat) ∧
      (a.toNat = 0xED → b.toNat < 0xA0) :=
  second_iff (by decide) (by decide) (by decide)

theorem secondOfFour_iff : secondOfFour a b = true ↔
    0x80 ≤ b.toNat ∧ b.toNat < 0xC0 ∧ (a.toNat = 0xF0 → 0x90 ≤ b.toNat) ∧
      (a.toNat = 0xF4 → b.toNat < 0x90) :=
  second_iff (by decide) (by decide) (by decide)

theorem toNat_ofNat {n : Nat} (h : n.isValidChar) : (Char.ofNat n).toNat = n := by
  unfold Char.ofNat
  rw [dif_pos h]
  rfl

theorem toNat_ofNat_byte (b : UInt8) : (Char.ofNat b.toNat).toNat = b.toNat :=
  toNat_ofNat (.inl (Nat.lt_trans b.toNat_lt (by decide)))

theorem toNat_codePoint_two (a b : UInt8) :
    (codePoint (a.toNat % 32) [b]).toNat = a.toNat % 32 * 64 + b.toNat % 64 := by
  rw [codePoint, toNat_ofNat]
  · simp only [List.foldl_cons, List.foldl_nil]
  · left
    simp only [List.foldl_cons, List.foldl_nil]
    omega

theorem toNat_codePoint_three (ha : (decide (0xE0 ≤ a) && decide (a < 0xF0)) = true)
    (hb : secondOfThree a b = true) (hc : isContinuation c = true) :
    (codePoint (a.toNat % 16) [b, c]).toNat =
      (a.toNat % 16 * 64 + b.toNat % 64) * 64 + c.toNat % 64 := by
  simp only [Bool.and_eq_true, decide_eq_true_eq, UInt8.le_iff_toNat_le, UInt8.lt_iff_toNat_lt] at ha
  simp at ha
  have hb' := secondOfThree_iff.mp hb
  have hc' := isContinuation_iff.mp hc
  rw [codePoint, toNat_ofNat]
  · simp only [List.foldl_cons, List.foldl_nil]
  · simp only [Nat.isValidChar, List.foldl_cons, List.foldl_nil]
    omega

theorem toNat_codePoint_four (ha : (decide (0xF0 ≤ a) && decide (a < 0xF5)) = true)
    (hb : secondOfFour a b = true) (hc : isContinuation c = true) (hd : isContinuation d = true) :
    (codePoint (a.toNat % 8) [b, c, d]).toNat =
      ((a.toNat % 8 * 64 + b.toNat % 64) * 64 + c.toNat % 64) * 64 + d.toNat % 64 := by
  simp only [Bool.and_eq_true, decide_eq_true_eq, UInt8.le_iff_toNat_le, UInt8.lt_iff_toNat_lt] at ha
  simp at ha
  have hb' := secondOfFour_iff.mp hb
  have hc' := isContinuation_iff.mp hc
  have hd' := isContinuation_iff.mp hd
  rw [codePoint, toNat_ofNat]
  · simp only [List.foldl_cons, List.foldl_nil]
  · simp only [Nat.isValidChar, List.foldl_cons, List.foldl_nil]
    omega

end CodePoints

section Units

variable {a b c d : UInt8}

theorem spells_one (ha : ¬ a < 0x80) : Spells [a] none :=
  .wide (by simpa using ha) (by simp)

theorem spells_two (ha : ¬ a < 0x80) (hb : 0x80 ≤ b.toNat) : Spells [a, b] none := by
  have ha' : 0x80 ≤ a.toNat := by simpa [UInt8.lt_iff_toNat_lt] using ha
  exact .wide (by simpa [UInt8.le_iff_toNat_le] using ⟨ha', hb⟩) (by simp)

theorem spells_three (ha : ¬ a < 0x80) (hb : 0x80 ≤ b.toNat) (hc : isContinuation c = true) :
    Spells [a, b, c] none := by
  have ha' : 0x80 ≤ a.toNat := by simpa [UInt8.lt_iff_toNat_lt] using ha
  have hc' := (isContinuation_iff.mp hc).1
  exact .wide (by simpa [UInt8.le_iff_toNat_le] using ⟨ha', hb, hc'⟩) (by simp)

theorem spells_of_wide {unit : Bytes} {x : Char} (hunit : ∀ b ∈ unit, 0x80 ≤ b.toNat)
    (hx : 0x80 ≤ x.toNat) : Spells unit (some x) := by
  refine .wide (fun b hb => UInt8.le_iff_toNat_le.mpr (hunit b hb)) ?_
  rintro y ⟨⟩
  exact hx

theorem spells_codePoint_two (ha : (decide (0xC2 ≤ a) && decide (a < 0xE0)) = true)
    (hb : isContinuation b = true) : Spells [a, b] (some (codePoint (a.toNat % 32) [b])) := by
  have hn := toNat_codePoint_two a b
  simp only [Bool.and_eq_true, decide_eq_true_eq, UInt8.le_iff_toNat_le, UInt8.lt_iff_toNat_lt] at ha
  simp at ha
  have hb' := isContinuation_iff.mp hb
  exact spells_of_wide (by simp; omega) (by omega)

theorem spells_codePoint_three (ha : (decide (0xE0 ≤ a) && decide (a < 0xF0)) = true)
    (hb : secondOfThree a b = true) (hc : isContinuation c = true) :
    Spells [a, b, c] (some (codePoint (a.toNat % 16) [b, c])) := by
  have hn := toNat_codePoint_three ha hb hc
  simp only [Bool.and_eq_true, decide_eq_true_eq, UInt8.le_iff_toNat_le, UInt8.lt_iff_toNat_lt] at ha
  simp at ha
  have hb' := secondOfThree_iff.mp hb
  have hc' := isContinuation_iff.mp hc
  exact spells_of_wide (by simp; omega) (by omega)

theorem spells_codePoint_four (ha : (decide (0xF0 ≤ a) && decide (a < 0xF5)) = true)
    (hb : secondOfFour a b = true) (hc : isContinuation c = true) (hd : isContinuation d = true) :
    Spells [a, b, c, d] (some (codePoint (a.toNat % 8) [b, c, d])) := by
  have hn := toNat_codePoint_four ha hb hc hd
  simp only [Bool.and_eq_true, decide_eq_true_eq, UInt8.le_iff_toNat_le, UInt8.lt_iff_toNat_lt] at ha
  simp at ha
  have hb' := secondOfFour_iff.mp hb
  have hc' := isContinuation_iff.mp hc
  have hd' := isContinuation_iff.mp hd
  exact spells_of_wide (by simp; omega) (by omega)

end Units

theorem Reads.extend {rest : Bytes} {c : Option Char} {acc out : List (Option Char)}
    (unit : Bytes) (h : Spells unit c)
    (hrest : ∃ cs, Reads rest cs ∧ out = (c :: acc).reverse ++ cs) :
    ∃ cs, Reads (unit ++ rest) cs ∧ out = acc.reverse ++ cs := by
  obtain ⟨cs, hcs, hout⟩ := hrest
  exact ⟨c :: cs, .cons h hcs, by simpa using hout⟩

theorem Reads.last {unit : Bytes} {acc : List (Option Char)} (h : Spells unit none) :
    ∃ cs, Reads unit cs ∧ (none :: acc).reverse = acc.reverse ++ cs :=
  ⟨[none], by simpa using Reads.cons h .nil, by simp⟩

theorem exists_reads (acc : List (Option Char)) (bs : Bytes) :
    ∃ cs, Reads bs cs ∧ scalarsFrom acc bs = acc.reverse ++ cs := by
  fun_induction scalarsFrom acc bs with
  | case1 acc => exact ⟨[], .nil, by simp⟩
  | case2 acc a rest h ih => exact Reads.extend [a] (.ascii h) ih
  | case4 acc a h ha b rest hb ih => exact Reads.extend [a, b] (spells_codePoint_two ha hb) ih
  | case9 acc a h h' ha b c rest hb hc ih =>
    exact Reads.extend [a, b, c] (spells_codePoint_three ha hb hc) ih
  | case18 acc a h h' h'' ha b c d rest hb hc hd ih =>
    exact Reads.extend [a, b, c, d] (spells_codePoint_four ha hb hc hd) ih
  -- Where no character is completed, the bytes passed over all lie outside ASCII.
  | case3 | case6 | case12 => exact Reads.last (spells_one ‹_›)
  | case7 acc a h _ _ b hb => exact Reads.last (spells_two h (secondOfThree_iff.mp hb).1)
  | case13 acc a h _ _ _ b hb => exact Reads.last (spells_two h (secondOfFour_iff.mp hb).1)
  | case15 acc a h _ _ _ b c hb hc => exact Reads.last (spells_three h (secondOfFour_iff.mp hb).1 hc)
  | case5 | case8 | case11 | case14 | case17 | case21 | case22 =>
    exact Reads.extend [_] (spells_one ‹_›) ‹_›
  | case10 acc a h _ _ b c rest hb _ ih =>
    exact Reads.extend [a, b] (spells_two h (secondOfThree_iff.mp hb).1) ih
  | case16 acc a h _ _ _ b c hb _ ih =>
    exact Reads.extend [a, b] (spells_two h (secondOfFour_iff.mp hb).1) ih
  | case20 acc a h _ _ _ b c d rest hb _ ih =>
    exact Reads.extend [a, b] (spells_two h (secondOfFour_iff.mp hb).1) ih
  | case19 acc a h _ _ _ b c d rest hb hc _ ih =>
    exact Reads.extend [a, b, c] (spells_three h (secondOfFour_iff.mp hb).1 hc) ih

theorem reads_scalars (bs : Bytes) : Reads bs (scalars bs) := by
  obtain ⟨cs, hcs, h⟩ := exists_reads [] bs
  rw [scalars, h]
  exact hcs

theorem Reads.ascii_of_mem {bs : Bytes} {cs : List (Option Char)} (h : Reads bs cs) {c : Char}
    (hc : some c ∈ cs) (ha : c.toNat < 0x80) : UInt8.ofNat c.toNat ∈ bs := by
  induction h with
  | nil => simp at hc
  | cons hunit _ ih =>
    rw [List.mem_append]
    obtain rfl | hc := List.mem_cons.mp hc
    · left
      cases hunit with
      | ascii _ => simp [toNat_ofNat_byte]
      | wide _ hw => exact absurd (hw c rfl) (by omega)
    · exact .inr (ih hc)

theorem Reads.mem_of_ascii {bs : Bytes} {cs : List (Option Char)} (h : Reads bs cs) {b : UInt8}
    (hb : b ∈ bs) (ha : b < 0x80) : some (Char.ofNat b.toNat) ∈ cs := by
  induction h with
  | nil => simp at hb
  | cons hunit _ ih =>
    rw [List.mem_cons]
    obtain hb | hb := List.mem_append.mp hb
    · left
      cases hunit with
      | ascii _ => rw [List.mem_singleton.mp hb]
      | wide hw _ => exact absurd ha (by simpa using hw b hb)
    · exact .inr (ih hb)

theorem byte_of_mem_decodeLossy {bs : Bytes} {c : Char} (hc : c ∈ decodeLossy bs)
    (ha : c.toNat < 0x80) : UInt8.ofNat c.toNat ∈ bs := by
  obtain ⟨x, hx, rfl⟩ := List.mem_map.mp hc
  cases x with
  | none => exact absurd ha (by decide)
  | some c => exact (reads_scalars bs).ascii_of_mem hx ha

theorem mem_decodeLossy_of_byte {bs : Bytes} {b : UInt8} (hb : b ∈ bs) (ha : b < 0x80) :
    Char.ofNat b.toNat ∈ decodeLossy bs :=
  List.mem_map.mpr ⟨_, (reads_scalars bs).mem_of_ascii hb ha, rfl⟩

section Writing

variable (acc : List (Option Char)) (rest : Bytes)

theorem scalarsFrom_one {a : UInt8} (ha : a.toNat < 0x80) :
    scalarsFrom acc (a :: rest) = scalarsFrom (some (Char.ofNat a.toNat) :: acc) rest := by
  have h : a < 0x80 := ha
  rw [scalarsFrom.eq_def]
  exact if_pos h

theorem scalarsFrom_two {a b : UInt8} (ha : 0xC2 ≤ a.toNat ∧ a.toNat < 0xE0)
    (hb : isContinuation b = true) :
    scalarsFrom acc (a :: b :: rest) =
      scalarsFrom (some (codePoint (a.toNat % 32) [b]) :: acc) rest := by
  have h : ¬ a < 0x80 := by
    simp [UInt8.lt_iff_toNat_lt]
    omega
  have h' : (decide (0xC2 ≤ a) && decide (a < 0xE0)) = true := by
    simpa [UInt8.lt_iff_toNat_lt, UInt8.le_iff_toNat_le] using ha
  rw [scalarsFrom.eq_def]
  simp only [if_neg h, if_pos h', if_pos hb]

theorem scalarsFrom_three {a b c : UInt8} (ha : 0xE0 ≤ a.toNat ∧ a.toNat < 0xF0)
    (hb : secondOfThree a b = true) (hc : isContinuation c = true) :
    scalarsFrom acc (a :: b :: c :: rest) =
      scalarsFrom (some (codePoint (a.toNat % 16) [b, c]) :: acc) rest := by
  have h : ¬ a < 0x80 := by
    simp [UInt8.lt_iff_toNat_lt]
    omega
  have h' : ¬ (decide (0xC2 ≤ a) && decide (a < 0xE0)) = true := by
    simp [UInt8.lt_iff_toNat_lt, UInt8.le_iff_toNat_le]
    omega
  have h'' : (decide (0xE0 ≤ a) && decide (a < 0xF0)) = true := by
    simpa [UInt8.lt_iff_toNat_lt, UInt8.le_iff_toNat_le] using ha
  rw [scalarsFrom.eq_def]
  simp only [if_neg h, if_neg h', if_pos h'', if_pos hb, if_pos hc]

theorem scalarsFrom_four {a b c d : UInt8} (ha : 0xF0 ≤ a.toNat ∧ a.toNat < 0xF5)
    (hb : secondOfFour a b = true) (hc : isContinuation c = true) (hd : isContinuation d = true) :
    scalarsFrom acc (a :: b :: c :: d :: rest) =
      scalarsFrom (some (codePoint (a.toNat % 8) [b, c, d]) :: acc) rest := by
  have h : ¬ a < 0x80 := by
    simp [UInt8.lt_iff_toNat_lt]
    omega
  have h' : ¬ (decide (0xC2 ≤ a) && decide (a < 0xE0)) = true := by
    simp [UInt8.lt_iff_toNat_lt, UInt8.le_iff_toNat_le]
    omega
  have h'' : ¬ (decide (0xE0 ≤ a) && decide (a < 0xF0)) = true := by
    simp [UInt8.lt_iff_toNat_lt, UInt8.le_iff_toNat_le]
    omega
  have h4 : (decide (0xF0 ≤ a) && decide (a < 0xF5)) = true := by
    simpa [UInt8.lt_iff_toNat_lt, UInt8.le_iff_toNat_le] using ha
  rw [scalarsFrom.eq_def]
  simp only [if_neg h, if_neg h', if_neg h'', if_pos h4, if_pos hb, if_pos hc, if_pos hd]

theorem codePoint_eq {high : Nat} {low : Bytes} (c : Char)
    (h : low.foldl (fun n b => n * 64 + b.toNat % 64) high = c.toNat) : codePoint high low = c := by
  rw [codePoint, h, Char.ofNat_toNat]

theorem scalarsFrom_encodeChar (c : Char) :
    scalarsFrom acc (String.utf8EncodeChar c ++ rest) = scalarsFrom (some c :: acc) rest := by
  have hvalid : c.toNat < 0xD800 ∨ 0xDFFF < c.toNat ∧ c.toNat < 0x110000 := c.valid
  have hn : c.val.toNat = c.toNat := rfl
  simp only [String.utf8EncodeChar, hn]
  generalize hc : c.toNat = n at *
  have hlast := toNat_ofNat_lt (n := n % 64 + 128) (by omega)
  have hthird := toNat_ofNat_lt (n := n / 64 % 64 + 128) (by omega)
  have hsecond := toNat_ofNat_lt (n := n / 4096 % 64 + 128) (by omega)
  split
  · have ha := toNat_ofNat_lt (n := n) (by omega)
    rw [List.singleton_append, scalarsFrom_one _ _ (by omega), ha, ← hc, Char.ofNat_toNat]
  split
  · have ha := toNat_ofNat_lt (n := n / 64 % 32 + 192) (by omega)
    have hchar : codePoint ((UInt8.ofNat (n / 64 % 32 + 192)).toNat % 32)
        [UInt8.ofNat (n % 64 + 128)] = c := by
      apply codePoint_eq
      simp only [List.foldl_cons, List.foldl_nil, ha, hlast, hc]
      omega
    rw [List.cons_append, List.singleton_append, scalarsFrom_two, hchar]
    · rw [ha]
      omega
    · rw [isContinuation_iff, hlast]
      omega
  split
  · have ha := toNat_ofNat_lt (n := n / 4096 % 16 + 224) (by omega)
    have hchar : codePoint ((UInt8.ofNat (n / 4096 % 16 + 224)).toNat % 16)
        [UInt8.ofNat (n / 64 % 64 + 128), UInt8.ofNat (n % 64 + 128)] = c := by
      apply codePoint_eq
      simp only [List.foldl_cons, List.foldl_nil, ha, hthird, hlast, hc]
      omega
    rw [List.cons_append, List.cons_append, List.singleton_append, scalarsFrom_three, hchar]
    · rw [ha]
      omega
    · rw [secondOfThree_iff, ha, hthird]
      omega
    · rw [isContinuation_iff, hlast]
      omega
  · have ha := toNat_ofNat_lt (n := n / 262144 % 8 + 240) (by omega)
    have hchar : codePoint ((UInt8.ofNat (n / 262144 % 8 + 240)).toNat % 8)
        [UInt8.ofNat (n / 4096 % 64 + 128), UInt8.ofNat (n / 64 % 64 + 128),
          UInt8.ofNat (n % 64 + 128)] = c := by
      apply codePoint_eq
      simp only [List.foldl_cons, List.foldl_nil, ha, hsecond, hthird, hlast, hc]
      omega
    rw [List.cons_append, List.cons_append, List.cons_append, List.singleton_append,
      scalarsFrom_four, hchar]
    · rw [ha]
      omega
    · rw [secondOfFour_iff, ha, hsecond]
      omega
    · rw [isContinuation_iff, hthird]
      omega
    · rw [isContinuation_iff, hlast]
      omega

theorem scalarsFrom_encode (cs : List Char) :
    scalarsFrom acc (encode cs) = acc.reverse ++ cs.map some := by
  induction cs generalizing acc with
  | nil => simp [encode, scalarsFrom]
  | cons c cs ih =>
    rw [encode_cons, scalarsFrom_encodeChar, ih]
    simp

end Writing

theorem decodeLossy_encode (cs : List Char) : decodeLossy (encode cs) = cs := by
  simp [decodeLossy, scalars, scalarsFrom_encode, Function.comp_def]

theorem isValid_encode (cs : List Char) : isValid (encode cs) = true := by
  simp [isValid, scalars, scalarsFrom_encode]

end FatJar.Utf8
