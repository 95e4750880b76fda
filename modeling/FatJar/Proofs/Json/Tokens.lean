import FatJar.Json.Token
import FatJar.Json.Value
import Mathlib.Data.List.Forall2
import Mathlib.Tactic.IntervalCases

namespace FatJar.Json

def decimalDigits (n : Nat) : List Nat :=
  (Nat.toDigits 10 n).map fun c => c.toNat - '0'.toNat

def numeral (n : Nat) : Numeral where
  whole := decimalDigits n

def separated : List (List Token) → List Token
  | [] => []
  | [part] => part
  | part :: parts => part ++ .comma :: separated parts

namespace Lexer

/-- The lexer has the tokens `ts`, the last one first, at the end of the text and before every
character that may follow a value. -/
structure Settled (l : Lexer) (ts : List Token) : Prop where
  finish : l.finish = ts.reverse
  step : ∀ c ∈ [',', ']', '}'], l.step c = Lexer.start ⟨.blank, ts⟩ c

theorem settled_blank (ts : List Token) : Settled ⟨.blank, ts⟩ ts :=
  ⟨rfl, fun _ _ => rfl⟩

theorem settled_numeral {part : NumeralPart} (hpart : part.mayEnd) (x : Numeral)
    (ts : List Token) : Settled ⟨.numeral part x, ts⟩ (.number x :: ts) where
  finish := by simp [finish, hpart, emit]
  step c hc := by
    simp only [List.mem_cons, List.not_mem_nil, or_false] at hc
    -- none of these characters goes on with a numeral that may end
    obtain rfl | rfl | rfl := hc <;> cases part <;> first | rfl | cases hpart

end Lexer

open Lexer

/-- Reading `text` adds the tokens `ts` to those before. -/
def Spells (text : List Char) (ts : List Token) : Prop :=
  ∀ before, (text.foldl Lexer.step ⟨.blank, before⟩).Settled (ts.reverse ++ before)

section Numbers

theorem digit?_digitChar {d : Nat} (hd : d < 10) : digit? (Nat.digitChar d) = some d := by
  interval_cases d <;> rfl

theorem decimalDigits_of_lt {n : Nat} (hn : n < 10) : decimalDigits n = [n] := by
  rw [decimalDigits, Nat.toDigits_of_lt_base hn]
  interval_cases n <;> rfl

theorem decimalDigits_of_le {n : Nat} (hn : 10 ≤ n) :
    decimalDigits n = decimalDigits (n / 10) ++ [n % 10] := by
  have hd : n % 10 < 10 := Nat.mod_lt n (by decide)
  rw [decimalDigits, Nat.toDigits_of_base_le (by decide) hn, List.map_append, ← decimalDigits]
  have hlast := decimalDigits_of_lt hd
  rw [decimalDigits, Nat.toDigits_of_lt_base hd] at hlast
  rw [hlast]

theorem start_digitChar (l : Lexer) {d : Nat} (hd : d < 10) :
    l.start (Nat.digitChar d)
      = l.become (.numeral (if d = 0 then .zero else .whole) { whole := [d] }) := by
  interval_cases d <;> rfl

theorem step_digitChar (x : Numeral) (before : List Token) {d : Nat} (hd : d < 10) :
    Lexer.step ⟨.numeral .whole x, before⟩ (Nat.digitChar d)
      = ⟨.numeral .whole { x with whole := x.whole ++ [d] }, before⟩ := by
  simp only [Lexer.step, Numeral.extend?, digit?_digitChar hd, Numeral.addDigit, become]

/-- The first digit of a number is zero only if the number is, so the lexer never meets a digit
after a leading zero. -/
theorem foldl_step_toDigits (before : List Token) (n : Nat) :
    (Nat.toDigits 10 n).foldl Lexer.step ⟨.blank, before⟩
      = ⟨.numeral (if n = 0 then .zero else .whole) (numeral n), before⟩ := by
  induction n using Nat.strong_induction_on with
  | _ n ih =>
    obtain hn | hn := Nat.lt_or_ge n 10
    · rw [Nat.toDigits_of_lt_base hn, numeral, decimalDigits_of_lt hn]
      exact start_digitChar _ hn
    · have hdiv : n / 10 ≠ 0 := by omega
      rw [Nat.toDigits_of_base_le (by decide) hn, List.foldl_append, ih _ (by omega), if_neg hdiv,
        if_neg (by omega), numeral, numeral, decimalDigits_of_le hn]
      exact step_digitChar _ before (Nat.mod_lt n (by decide))

theorem spells_number (n : Nat) : Spells (Nat.toDigits 10 n) [.number (numeral n)] := by
  intro before
  rw [foldl_step_toDigits]
  exact settled_numeral (by split <;> rfl) (numeral n) before

end Numbers

section Strings

theorem unitDigits_of_lt {n : Nat} (hn : n < 32) :
    unitDigits n = ['0', '0', Nat.digitChar (n / 16), Nat.digitChar (n % 16)] := by
  interval_cases n <;> rfl

theorem hexDigit?_digitChar {d : Nat} (hd : d < 16) : hexDigit? (Nat.digitChar d) = some d := by
  interval_cases d <;> rfl

theorem foldl_step_unitDigits (units : List Nat) (before : List Token) {n : Nat} (hn : n < 32) :
    (unitDigits n).foldl Lexer.step ⟨.hex units 4 0, before⟩ = ⟨.text (n :: units), before⟩ := by
  have hzero : hexDigit? '0' = some 0 := rfl
  have hhigh : hexDigit? (Nat.digitChar (n / 16)) = some (n / 16) :=
    hexDigit?_digitChar (by omega)
  have hlow : hexDigit? (Nat.digitChar (n % 16)) = some (n % 16) :=
    hexDigit?_digitChar (Nat.mod_lt n (by decide))
  simp only [unitDigits_of_lt hn, List.foldl_cons, List.foldl_nil, Lexer.step, hzero, hhigh, hlow,
    become, Nat.reduceLeDiff, Nat.reduceSub, if_true, if_false]
  congr 3
  omega

theorem foldl_step_escaped (units : List Nat) (before : List Token) (c : Char) :
    (escaped c).foldl Lexer.step ⟨.text units, before⟩ = ⟨.text (c.toNat :: units), before⟩ := by
  unfold escaped
  split_ifs with hmark h h h h h hcontrol
  · obtain rfl | rfl := (by simpa using hmark : c = '"' ∨ c = '\\') <;> rfl
  iterate 5 (· subst h; rfl)
  · exact foldl_step_unitDigits units before hcontrol
  · have hplain : c ≠ '"' ∧ c ≠ '\\' := by simpa using hmark
    simp [Lexer.step, hplain, hcontrol, become]

theorem foldl_step_flatMap_escaped (before : List Token) (cs : List Char) (units : List Nat) :
    (cs.flatMap escaped).foldl Lexer.step ⟨.text units, before⟩
      = ⟨.text ((cs.map Char.toNat).reverse ++ units), before⟩ := by
  induction cs generalizing units with
  | nil => rfl
  | cons c cs ih =>
    rw [List.flatMap_cons, List.foldl_append, foldl_step_escaped, ih]
    simp

theorem not_isSurrogate (c : Char) :
    isHighSurrogate c.toNat = false ∧ isLowSurrogate c.toNat = false := by
  have hvalid : c.toNat < 0xD800 ∨ 0xDFFF < c.toNat ∧ c.toNat < 0x110000 := c.valid
  simp only [isHighSurrogate, isLowSurrogate, Bool.and_eq_false_iff, decide_eq_false_iff_not]
  omega

theorem joinUnits?_map_toNat (cs : List Char) : joinUnits? (cs.map Char.toNat) = some cs := by
  induction cs with
  | nil => rfl
  | cons c cs ih =>
    cases cs with
    | nil => simp [joinUnits?, not_isSurrogate]
    | cons d cs =>
      rw [List.map_cons] at ih
      simp [joinUnits?, not_isSurrogate, ih]

theorem foldl_step_stringText (before : List Token) (s : String) :
    (stringText s).foldl Lexer.step ⟨.blank, before⟩ = ⟨.blank, .string (some s) :: before⟩ := by
  have hopen : Lexer.step ⟨.blank, before⟩ '"' = ⟨.text [], before⟩ := rfl
  rw [stringText, List.cons_append, List.foldl_cons, hopen, List.foldl_append,
    foldl_step_flatMap_escaped, List.append_nil]
  simp [Lexer.step, emit, joinUnits?_map_toNat]

theorem spells_string (s : String) : Spells (stringText s) [.string (some s)] := by
  intro before
  rw [foldl_step_stringText]
  exact settled_blank _

end Strings

section Containers

variable {text : List Char} {ts : List Token}

theorem spells_null : Spells ['n', 'u', 'l', 'l'] [.null] :=
  fun _ => settled_blank _

theorem spells_separated {parts : List (List Char)} {tss : List (List Token)}
    (h : List.Forall₂ Spells parts tss) : Spells (commaSeparated parts) (separated tss) := by
  induction h with
  | nil => exact settled_blank
  | @cons part ts parts tss hpart hparts ih =>
    cases hparts with
    | nil => exact hpart
    | cons hnext hmore =>
      intro before
      have hcomma := (hpart before).step ',' (by simp)
      rw [commaSeparated, List.foldl_append, List.foldl_cons, hcomma]
      · simpa [separated, Lexer.start, emit] using ih (.comma :: (ts.reverse ++ before))
      · simp

theorem Spells.enclosed {left right : Char} {opening closing : Token} (h : Spells text ts)
    (hleft : ∀ l, Lexer.start l left = l.emit opening)
    (hright : ∀ l, Lexer.start l right = l.emit closing) (hmem : right ∈ [',', ']', '}']) :
    Spells (left :: text ++ [right]) (opening :: ts ++ [closing]) := by
  intro before
  have hopen : Lexer.step ⟨.blank, before⟩ left = ⟨.blank, opening :: before⟩ := hleft _
  have hclose := (h (opening :: before)).step right hmem
  rw [List.cons_append, List.foldl_cons, hopen, List.foldl_append, List.foldl_cons, hclose, hright]
  simpa [emit] using settled_blank _

theorem Spells.member (h : Spells text ts) (name : String) :
    Spells (stringText name ++ ':' :: text) (.string (some name) :: .colon :: ts) := by
  intro before
  have hcolon : Lexer.step ⟨.blank, .string (some name) :: before⟩ ':'
      = ⟨.blank, .colon :: .string (some name) :: before⟩ := rfl
  rw [List.foldl_append, foldl_step_stringText, List.foldl_cons, hcolon]
  simpa using h (.colon :: .string (some name) :: before)

end Containers

namespace Value

mutual
def tokens : Value → List Token
  | null => [.null]
  | number n => [.number (numeral n)]
  | string s => [.string (some s)]
  | array items => .openArray :: separated (itemTokens items) ++ [.closeArray]
  | object members => .openObject :: separated (memberTokens members) ++ [.closeObject]

def itemTokens : List Value → List (List Token)
  | [] => []
  | v :: vs => v.tokens :: itemTokens vs

def memberTokens : List (String × Value) → List (List Token)
  | [] => []
  | (name, v) :: ms => (.string (some name) :: .colon :: v.tokens) :: memberTokens ms
end

mutual
theorem spells_text : ∀ v : Value, Spells v.text v.tokens
  | null => spells_null
  | number n => spells_number n
  | string s => spells_string s
  | array items =>
    (spells_separated (spells_itemTexts items)).enclosed
      (fun _ => rfl) (fun _ => rfl) (by simp)
  | object members =>
    (spells_separated (spells_memberTexts members)).enclosed
      (fun _ => rfl) (fun _ => rfl) (by simp)

theorem spells_itemTexts : ∀ items, List.Forall₂ Spells (itemTexts items) (itemTokens items)
  | [] => .nil
  | v :: vs => .cons v.spells_text (spells_itemTexts vs)

theorem spells_memberTexts :
    ∀ members, List.Forall₂ Spells (memberTexts members) (memberTokens members)
  | [] => .nil
  | (name, v) :: ms => .cons (v.spells_text.member name) (spells_memberTexts ms)
end

theorem tokens_text (v : Value) : Json.tokens v.text = v.tokens := by
  simpa [Json.tokens] using (v.spells_text []).finish

end Value

end FatJar.Json
