import FatJar.Text.Emoji
import FatJar.Text.Marks
import FatJar.Text.Wide

namespace FatJar.Text

def charColumns (c : Char) : Nat :=
  if c.toNat ≤ 0xA0 then 1
  else if c = '\u17A4' then 2
  else if c = '\u17D8' then 3
  else if isMark c then 0
  else if isWide c then 2
  else 1

inductive Ligand where
  | alef
  | lamed
  | ya
  | vowelYa
  | tifinagh
  | tifinaghJoined
  | lisuTone
  | orkhonI
  | khmer
deriving DecidableEq, Repr

/-- What a text begins with, as far as it counts for a character in front of it. -/
inductive Opening where
  | plain
  | lineFeed
  | ligand (l : Ligand) (joined : Bool)
  | kiratE
  | kiratAi
  | modifier
  | regional
  | regionals
  | emoji
  | joinedEmoji
  | joinedKeycap
  | joinedRegional
  | joinedEvenRegionals
  | joinedOddRegionals
  /-- The end of a flag that is spelled in tags, with so many letters and digits before the end. -/
  | joinedTags (letters digits : Nat)
deriving DecidableEq, Repr

/-- How a variation selector asks for the character before it to be shown. -/
inductive Presentation where
  | text
  | emoji
deriving DecidableEq, Repr

/-- What has been measured: how it opens, behind a variation selector or none. -/
structure Tail where
  opening : Opening := .plain
  selector : Option Presentation := none
deriving DecidableEq, Repr

def alefLetters : List (Nat × Nat) :=
  [(0x622, 0x623), (0x625, 0x625), (0x627, 0x627), (0x671, 0x673), (0x675, 0x675),
    (0x773, 0x774), (0x870, 0x882)]

def lamLetters : List (Nat × Nat) :=
  [(0x644, 0x644), (0x6B5, 0x6B8), (0x76A, 0x76A), (0x8A6, 0x8A6), (0x8C7, 0x8C7)]

def khmerLetters : List (Nat × Nat) :=
  [(0x1780, 0x1782), (0x1784, 0x1787), (0x1789, 0x178C), (0x178E, 0x1793), (0x1795, 0x1798),
    (0x179B, 0x179D), (0x17A0, 0x17A0), (0x17A2, 0x17A2), (0x17A7, 0x17A7), (0x17AB, 0x17AC),
    (0x17AF, 0x17AF)]

def tifinaghConsonants : List (Nat × Nat) :=
  [(0x2D31, 0x2D65), (0x2D6F, 0x2D6F)]

def invisibleMarks : List (Nat × Nat) :=
  [(0x34F, 0x34F), (0x17B4, 0x17B5), (0x180B, 0x180D), (0x180F, 0x180F), (0xFE00, 0xFE0F),
    (0xE0100, 0xE01EF)]

def zeroWidthJoiner : Nat := 0x200D

def Opening.ofChar (c : Char) : Opening :=
  let n := c.toNat
  if n = 0x5DC then .ligand .lamed false
  else if inRanges alefLetters c then .ligand .alef false
  else if inRanges khmerLetters c then .ligand .khmer false
  else if n = 0x1A10 then .ligand .ya false
  else if inRanges tifinaghConsonants c then .ligand .tifinagh false
  else if n = 0xA4FC || n = 0xA4FD then .ligand .lisuTone false
  else if n = 0x10C03 then .ligand .orkhonI false
  else if n = 0x16D67 then .kiratE
  else if n = 0x16D68 then .kiratAi
  else if isRegional c then .regional
  else if isModifier c then .modifier
  else if isEmojiPicture c then .emoji
  else .plain

/-- How `c` is written in one with a letter behind it: the columns that it adds, and how the whole
opens. -/
def Ligand.join? (c : Char) (joined : Bool) : Ligand → Option (Int × Opening)
  | .alef =>
    if inRanges lamLetters c then some (0, .plain)
    else if isTransparentMark c then some (0, .ligand .alef false)
    else none
  | .lamed => if joined ∧ c.toNat = 0x5D0 then some (0, .plain) else none
  | .ya => if joined ∧ c.toNat = 0x1A17 then some (0, .ligand .vowelYa true) else none
  | .vowelYa => if c.toNat = 0x1A15 then some (0, .plain) else none
  | .tifinagh =>
    if c.toNat = 0x2D7F then some (1, .ligand .tifinaghJoined true)
    else if joined ∧ inRanges tifinaghConsonants c then some (0, .plain)
    else none
  | .tifinaghJoined => if inRanges tifinaghConsonants c then some (-1, .plain) else none
  | .lisuTone => if inRanges [(0xA4F8, 0xA4FB)] c then some (0, .plain) else none
  | .orkhonI => if joined ∧ c.toNat = 0x10C32 then some (0, .plain) else none
  | .khmer => if c.toNat = 0x17D2 then some (-1, .plain) else none

/-- What is not shown before a letter, a joiner among it, and leaves its ligatures as they are. An
alef has marks of its own for that. -/
def Ligand.pass? (c : Char) (joined : Bool) (l : Ligand) : Option (Int × Opening) :=
  if l = .alef then none
  else if c.toNat = zeroWidthJoiner then some (0, .ligand l true)
  else if inRanges invisibleMarks c then some (0, .ligand l joined)
  else none

/-- How `c` begins a longer flag in front of its tags. A flag has three digits or letters at least,
and no letters before digits. -/
def joinTags? (c : Char) (letters digits : Nat) : Option (Int × Opening) :=
  if inRanges [(0xE0061, 0xE007A)] c then
    if digits = 0 ∧ letters < 6 then some (0, .joinedTags (letters + 1) 0) else none
  else if inRanges [(0xE0030, 0xE0039)] c then
    if letters ≤ 4 ∧ digits < 3 then some (0, .joinedTags letters (digits + 1)) else none
  else if c.toNat = 0x1F3F4 then
    if digits = 3 ∨ (digits = 0 ∧ 3 ≤ letters) then some (0, .emoji) else none
  else none

def Opening.join? (c : Char) : Opening → Option (Int × Opening)
  | .plain | .lineFeed | .joinedKeycap => none
  | .ligand l joined => (l.pass? c joined).or (l.join? c joined)
  | .kiratE =>
    if c.toNat = 0x16D63 ∨ c.toNat = 0x16D69 then some (0, .plain)
    else if c.toNat = 0x16D67 then some (0, .kiratAi)
    else none
  | .kiratAi => if c.toNat = 0x16D63 then some (0, .plain) else none
  | .modifier =>
    if isModifierBase c then some (0, .emoji)
    else if c.toNat = zeroWidthJoiner then some (0, .joinedEmoji)
    else none
  | .regional => if isRegional c then some (1, .regionals) else none
  | .regionals =>
    if isRegional c then some (1, .regionals)
    else if c.toNat = zeroWidthJoiner then some (0, .joinedEmoji)
    else none
  | .emoji => if c.toNat = zeroWidthJoiner then some (0, .joinedEmoji) else none
  | .joinedEmoji =>
    if c.toNat = 0x20E3 then some (0, .joinedKeycap)
    else if isRegional c then some (1, .joinedRegional)
    else if isModifier c then some (0, .modifier)
    else if c.toNat = 0xE007F then some (0, .joinedTags 0 0)
    else if isEmojiPicture c then some (0, .emoji)
    else none
  | .joinedRegional => if isRegional c then some (-1, .joinedEvenRegionals) else none
  | .joinedEvenRegionals =>
    if isRegional c then some (3, .joinedOddRegionals)
    else if c.toNat = zeroWidthJoiner then some (0, .joinedEmoji)
    else none
  | .joinedOddRegionals =>
    if isRegional c then some (-1, .joinedEvenRegionals)
    else if c.toNat = zeroWidthJoiner then some (0, .joinedEmoji)
    else none
  | .joinedTags letters digits => joinTags? c letters digits

def Opening.isLigand : Opening → Bool
  | .ligand .. => true
  | _ => false

def Opening.isJoinedPicture (o : Opening) : Bool :=
  o == .joinedEmoji || o == .joinedKeycap

def Opening.keepIf (keep : Bool) (o : Opening) : Opening :=
  if keep then o else .plain

namespace Tail

/-- The columns that `c` adds in front of a text without a selector for it, and what the text is
then. -/
def add (t : Tail) (c : Char) : Int × Tail :=
  if c.toNat ≤ 0xA0 then
    if c = '\n' then (1, { opening := .lineFeed })
    else (if c = '\r' ∧ t.opening = .lineFeed then 0 else 1, {})
  else if c = '\uFE0F' then
    (0, ⟨t.opening.keepIf (t.opening.isLigand || t.opening.isJoinedPicture), some .emoji⟩)
  else if c = '\uFE0E' then (0, ⟨t.opening.keepIf t.opening.isLigand, some .text⟩)
  else if t.selector = some .text ∧ isTextBase c then (1, {})
  else
    match t.opening.join? c with
    | some (columns, opening) => (columns, { opening })
    | none => (charColumns c, { opening := .ofChar c })

def extend (t : Tail) (c : Char) : Int × Tail :=
  if t.selector = some .emoji then
    if isEmojiBase c then (if t.opening.isJoinedPicture then 0 else 2, { opening := .emoji })
    else add { opening := t.opening.keepIf t.opening.isLigand } c
  else t.add c

end Tail

def measureChar (c : Char) (p : Int × Tail) : Int × Tail :=
  ((p.2.extend c).1 + p.1, (p.2.extend c).2)

def columnsOf (cs : List Char) : Int :=
  (cs.foldr measureChar (0, {})).1

def columns (s : String) : Int :=
  columnsOf s.toList

theorem foldr_measureChar (n : Int) (t : Tail) (cs : List Char) :
    cs.foldr measureChar (n, t)
      = ((cs.foldr measureChar (0, t)).1 + n, (cs.foldr measureChar (0, t)).2) := by
  induction cs with
  | nil => simp
  | cons c cs ih => rw [List.foldr_cons, ih, List.foldr_cons]; simp [measureChar, Int.add_assoc]

theorem foldr_measureChar_spaces (n : Nat) :
    (List.replicate n ' ').foldr measureChar (0, {}) = ((n : Int), {}) := by
  induction n with
  | zero => rfl
  | succ n ih =>
    have space : Tail.extend {} ' ' = (1, {}) := rfl
    rw [List.replicate_succ, List.foldr_cons, ih, measureChar, space, Nat.add_comm]
    rfl

theorem columnsOf_append_spaces (cs : List Char) (n : Nat) :
    columnsOf (cs ++ List.replicate n ' ') = columnsOf cs + n := by
  rw [columnsOf, List.foldr_append, foldr_measureChar_spaces, foldr_measureChar]
  rfl

end FatJar.Text
