import FatJar.Json.Reading
import FatJar.Proofs.Json.Tokens

namespace FatJar.Json

namespace Value

mutual
def reading : Value → Reading
  | null => .null
  | number n => .number (numeral n)
  | string s => .string (some s)
  | array items => .array (itemReadings items) true
  | object members => .object (memberReadings members) true

def itemReadings : List Value → List Reading
  | [] => []
  | v :: vs => v.reading :: itemReadings vs

def memberReadings : List (String × Value) → List (Reading × Reading)
  | [] => []
  | (name, v) :: ms => (.string (some name), v.reading) :: memberReadings ms
end

end Value

open Reader

/-- Where a value may stand, the reader takes all of `ts` as the value `x`. -/
def Reads (ts : List Token) (x : Reading) : Prop :=
  ∀ frames value e, e = .value ∨ e = .valueOrEnd →
    ts.foldl Reader.step ⟨frames, e, value, false⟩ = Reader.put ⟨frames, e, value, false⟩ x

theorem reads_scalar {t : Token} {x : Reading} (hbegin : beginning? t = some x)
    (harray : t ≠ .openArray) (hobject : t ≠ .openObject) : Reads [t] x := by
  intro frames value e he
  have htake : ∀ r, Reader.takeValue r t = r.put x := by
    intro r
    unfold takeValue
    split
    · exact absurd rfl harray
    · exact absurd rfl hobject
    · rw [hbegin]
  have hend : t ≠ .closeArray := by
    rintro rfl
    cases hbegin
  obtain rfl | rfl := he <;> simp [Reader.step, htake, hend]

theorem Reader.put_expectation (frames : List Frame) (value : Option Reading)
    (e e' : Expectation) (x : Reading) :
    Reader.put ⟨frames, e, value, false⟩ x = Reader.put ⟨frames, e', value, false⟩ x := by
  cases frames <;> rfl

/-- A kind of containers with parts of the type `β`: its frame with the parts so far, the last one
first, its brackets, and what is expected in it at first and after a comma. -/
structure Container (β : Type) where
  frame : List β → Frame
  opening : Token
  closing : Token
  first : Expectation
  next : Expectation
  step_opening : ∀ frames value e, e = .value ∨ e = .valueOrEnd →
    Reader.step ⟨frames, e, value, false⟩ opening = ⟨frame [] :: frames, first, value, false⟩
  step_comma : ∀ done frames value,
    Reader.step ⟨frame done :: frames, .separator, value, false⟩ .comma
      = ⟨frame done :: frames, next, value, false⟩
  step_closing : ∀ done frames value e, e = .separator ∨ (e = first ∧ done = []) →
    Reader.step ⟨frame done :: frames, e, value, false⟩ closing
      = Reader.put ⟨frames, e, value, false⟩ ((frame done).leave true)

namespace Container

def arrays : Container Reading where
  frame := .array
  opening := .openArray
  closing := .closeArray
  first := .valueOrEnd
  next := .value
  step_opening := by rintro frames value e (rfl | rfl) <;> rfl
  step_comma _ _ _ := rfl
  step_closing := by rintro done frames value e (rfl | ⟨rfl, rfl⟩) <;> rfl

def objects : Container (Reading × Reading) where
  frame ms := .object ms none
  opening := .openObject
  closing := .closeObject
  first := .keyOrEnd
  next := .key
  step_opening := by rintro frames value e (rfl | rfl) <;> rfl
  step_comma _ _ _ := rfl
  step_closing := by rintro done frames value e (rfl | ⟨rfl, rfl⟩) <;> rfl

variable {β : Type} (c : Container β)

/-- Where a part may stand, the reader takes all of `ts` as the part `b`. -/
def Takes (ts : List Token) (b : β) : Prop :=
  ∀ done frames value e, e = c.first ∨ e = c.next →
    ts.foldl Reader.step ⟨c.frame done :: frames, e, value, false⟩
      = ⟨c.frame (b :: done) :: frames, .separator, value, false⟩

variable {c}

theorem foldl_step_separated {tss : List (List Token)} {bs : List β}
    (h : List.Forall₂ c.Takes tss bs) (hne : tss ≠ []) (done : List β) (frames : List Frame)
    (value : Option Reading) (e : Expectation) (he : e = c.first ∨ e = c.next) :
    (separated tss ++ [c.closing]).foldl Reader.step ⟨c.frame done :: frames, e, value, false⟩
      = Reader.put ⟨frames, .separator, value, false⟩ ((c.frame (bs.reverse ++ done)).leave true) := by
  induction h generalizing done e with
  | nil => exact absurd rfl hne
  | @cons ts b tss bs hb hbs ih =>
    have htake := hb done frames value e he
    cases hbs with
    | nil =>
      rw [separated, List.foldl_append, htake]
      exact c.step_closing (b :: done) frames value .separator (.inl rfl)
    | cons hb' hbs' =>
      rw [separated, List.append_assoc, List.foldl_append, htake, List.cons_append, List.foldl_cons,
        c.step_comma, ih (by simp) (b :: done) c.next (.inr rfl)]
      · simp
      · simp

theorem reads {tss : List (List Token)} {bs : List β} (h : List.Forall₂ c.Takes tss bs) :
    Reads (c.opening :: separated tss ++ [c.closing]) ((c.frame bs.reverse).leave true) := by
  intro frames value e he
  rw [List.cons_append, List.foldl_cons, c.step_opening frames value e he]
  cases h with
  | nil =>
    have hclose := c.step_closing [] frames value c.first (.inr ⟨rfl, rfl⟩)
    exact hclose.trans (put_expectation frames value _ _ _)
  | cons hb hbs =>
    rw [foldl_step_separated (.cons hb hbs) (by simp) [] frames value c.first (.inl rfl),
      List.append_nil]
    exact put_expectation frames value _ _ _

theorem takes_item {ts : List Token} {x : Reading} (h : Reads ts x) : arrays.Takes ts x :=
  fun done frames value e he => h (.array done :: frames) value e he.symm

theorem takes_member {ts : List Token} {x : Reading} (h : Reads ts x) (name : String) :
    objects.Takes (.string (some name) :: .colon :: ts) (.string (some name), x) := by
  intro done frames value e he
  have hcolon : Reader.step (Reader.step ⟨.object done none :: frames, e, value, false⟩
      (.string (some name))) .colon
      = ⟨.object done (some (.string (some name))) :: frames, .value, value, false⟩ := by
    obtain rfl | rfl := he <;> rfl
  rw [List.foldl_cons, List.foldl_cons, objects, hcolon, h _ value .value (.inl rfl)]
  rfl

end Container

namespace Value

mutual
theorem reads_tokens : ∀ v : Value, Reads v.tokens v.reading
  | null => reads_scalar rfl (by simp) (by simp)
  | number n => reads_scalar rfl (by simp) (by simp)
  | string s => reads_scalar rfl (by simp) (by simp)
  | array items => by
    have hreads := Container.reads (takes_itemTokens items)
    simpa [tokens, reading, Container.arrays, Frame.leave] using hreads
  | object members => by
    have hreads := Container.reads (takes_memberTokens members)
    simpa [tokens, reading, Container.objects, Frame.leave] using hreads

theorem takes_itemTokens :
    ∀ items, List.Forall₂ Container.arrays.Takes (itemTokens items) (itemReadings items)
  | [] => .nil
  | v :: vs => .cons (Container.takes_item v.reads_tokens) (takes_itemTokens vs)

theorem takes_memberTokens :
    ∀ members, List.Forall₂ Container.objects.Takes (memberTokens members) (memberReadings members)
  | [] => .nil
  | (name, v) :: ms => .cons (Container.takes_member v.reads_tokens name) (takes_memberTokens ms)
end

theorem read_render (v : Value) : Json.read v.render = ⟨v.reading, true⟩ := by
  have hread : v.tokens.foldl Reader.step {} = Reader.put {} v.reading :=
    v.reads_tokens [] none .value (.inl rfl)
  simp only [Json.read, render, String.toList_ofList, tokens_text, hread]
  rfl

end Value

end FatJar.Json
