import FatJar.Json.Decoder
import FatJar.Proofs.Json.Reading
import FatJar.Proofs.Lists

namespace FatJar.Json

section Numbers

theorem natOfDigits_append (ds : List Nat) (d : Nat) :
    natOfDigits (ds ++ [d]) = natOfDigits ds * 10 + d := by
  simp [natOfDigits]

theorem natOfDigits_decimalDigits (n : Nat) : natOfDigits (decimalDigits n) = n := by
  induction n using Nat.strong_induction_on with
  | _ n ih =>
    obtain hn | hn := Nat.lt_or_ge n 10
    · simp [decimalDigits_of_lt hn, natOfDigits]
    · rw [decimalDigits_of_le hn, natOfDigits_append, ih _ (by omega)]
      omega

theorem number_numeral {n : Nat} (hn : n ≤ maxWord) : (numeral n).number = .whole n := by
  simp [Numeral.number, numeral, natOfDigits_decimalDigits, Nat.not_lt.mpr hn]

end Numbers

namespace Value

variable {α : Type} (toJson : α → Value)

theorem itemReadings_map (as : List α) :
    itemReadings (as.map toJson) = as.map fun a => (toJson a).reading := by
  induction as with
  | nil => rfl
  | cons a as ih => rw [List.map_cons, itemReadings, ih, List.map_cons]

theorem memberReadings_map (ps : List (String × α)) :
    memberReadings (ps.map fun p => (p.1, toJson p.2))
      = ps.map fun p => (.string (some p.1), (toJson p.2).reading) := by
  induction ps with
  | nil => rfl
  | cons p ps ih => rw [List.map_cons, memberReadings, ih, List.map_cons]

theorem reading_string_ne_null (s : String) : (string s).reading ≠ .null := by
  simp [reading]

theorem reading_number_ne_null (n : Nat) : (number n).reading ≠ .null := by
  simp [reading]

end Value

namespace Decoder

variable {α : Type}

/-- What `toJson` writes, the decoder takes back. -/
def Inverts (d : Decoder α) (toJson : α → Value) : Prop :=
  ∀ a, d (toJson a).reading = .ok a

theorem text_inverts (expected : String) : (text expected).Inverts .string := by
  intro s
  rw [Value.reading, text]

theorem nat_reading {n max : Nat} (hmax : max ≤ maxWord) (hn : n ≤ max) (expected : String) :
    nat max expected (Value.number n).reading = .ok n := by
  simp [Value.reading, nat, number_numeral (hn.trans hmax), hn]

variable {d : Decoder α} {toJson : α → Value}

theorem Inverts.list (h : d.Inverts toJson) :
    d.list.Inverts fun as => .array (as.map toJson) := by
  intro as
  have hitems : (as.map fun a => (toJson a).reading).mapM d = .ok as := by
    rw [mapM_eq_ok_iff, List.map_map]
    exact List.map_congr_left fun a _ => h a
  rw [Value.reading, Value.itemReadings_map, Decoder.list, hitems]
  rfl

theorem Inverts.pairs (h : d.Inverts toJson) :
    d.pairs.Inverts fun ps => .object (ps.map fun p => (p.1, toJson p.2)) := by
  intro ps
  rw [Value.reading, Value.memberReadings_map, Decoder.pairs, mapM_eq_ok_iff.mpr]
  · rfl
  · rw [List.map_map]
    refine List.map_congr_left fun p _ => ?_
    simp [h p.2, Except.map]

theorem Inverts.optional (h : d.Inverts toJson) (hnull : ∀ a, (toJson a).reading ≠ .null) :
    d.optional.Inverts (Value.orNull toJson) := by
  intro a
  cases a with
  | none => simp [Value.orNull, Value.reading, Decoder.optional]
  | some a => simp [Value.orNull, Decoder.optional, hnull a, h a, Except.map]

end Decoder

namespace Fields

variable {αs : List Type}

/-- The members `ms`, in the order of the fields, give them the values `as`; fields with a fallback
may be left out. -/
inductive Written : {αs : List Type} → Fields αs → List (String × Value) → Values αs → Prop where
  | nil : Written .nil [] ()
  | member {α : Type} {αs : List Type} {f : Field α} {fs : Fields αs} {v : Value} {a : α}
      {ms : List (String × Value)} {as : Values αs} (h : f.decode v.reading = .ok a)
      (rest : Written fs ms as) : Written (.cons f fs) ((f.name, v) :: ms) (a, as)
  | omitted {α : Type} {αs : List Type} {f : Field α} {fs : Fields αs} {a : α}
      {ms : List (String × Value)} {as : Values αs} (h : f.fallback = some a)
      (rest : Written fs ms as) : Written (.cons f fs) ms (a, as)

theorem Written.names_sublist {fs : Fields αs} {ms : List (String × Value)} {as : Values αs}
    (h : fs.Written ms as) : (ms.map Prod.fst).Sublist fs.names := by
  induction h with
  | nil => exact .slnil
  | member _ _ ih => exact ih.cons_cons _
  | omitted _ _ ih => exact ih.cons _

theorem Written.always {α : Type} {f : Field α} {toJson : α → Value} {fs : Fields αs}
    {ms : List (String × Value)} {as : Values αs} (h : f.decode.Inverts toJson) (a : α)
    (rest : fs.Written ms as) : Written (.cons f fs) ((f.name, toJson a) :: ms) (a, as) :=
  .member (h a) rest

theorem Written.ofOption {α : Type} {d : Decoder α} {toJson : α → Value} {name : String}
    {fs : Fields αs} {ms : List (String × Value)} {as : Values αs} (h : d.Inverts toJson)
    (hnull : ∀ a, (toJson a).reading ≠ .null) (a : Option α) (rest : fs.Written ms as) :
    Written (.cons { name, decode := d.optional, fallback := some none } fs)
      (Value.member? name toJson a ++ ms) (a, as) := by
  cases a with
  | none => exact .omitted rfl rest
  | some a => exact .member (h.optional hnull (some a)) rest

def consSlot {α : Type} (slot : Option α) (slots : Slots αs) : Slots (α :: αs) :=
  (slot, slots)

section Decoding

variable {α : Type} {f : Field α} {fs : Fields αs} {strictness : Strictness} {slot : Option α}
  {slots slots' : Slots αs}

theorem put?_consSlot {name : String} (hne : f.name ≠ name) (r : Reading) :
    (Fields.cons f fs).put? name r (consSlot slot slots)
      = (fs.put? name r slots).map (·.map (consSlot slot)) := by
  rw [consSlot, put?, if_neg hne]
  rfl

theorem takeMember_cons {name : String} {r : Reading} (hne : f.name ≠ name)
    (h : fs.takeMember strictness slots (.string (some name), r) = .ok slots') :
    (Fields.cons f fs).takeMember strictness (consSlot slot slots) (.string (some name), r)
      = .ok (consSlot slot slots') := by
  simp only [takeMember, put?_consSlot hne] at h ⊢
  cases hput : fs.put? name r slots with
  | some result =>
    obtain rfl : result = .ok slots' := by rwa [hput] at h
    rfl
  | none =>
    rw [hput] at h
    cases strictness with
    | strict => cases h
    | lenient =>
      obtain rfl := Except.ok.inj h
      rfl

theorem foldlM_takeMember_cons {ms : List (String × Value)} (hne : f.name ∉ ms.map Prod.fst)
    (h : (Value.memberReadings ms).foldlM (fs.takeMember strictness) slots = .ok slots') :
    (Value.memberReadings ms).foldlM ((Fields.cons f fs).takeMember strictness) (consSlot slot slots)
      = .ok (consSlot slot slots') := by
  induction ms generalizing slots with
  | nil =>
    obtain rfl := Except.ok.inj h
    rfl
  | cons m ms ih =>
    obtain ⟨name, v⟩ := m
    rw [List.map_cons, List.mem_cons, not_or] at hne
    rw [Value.memberReadings, List.foldlM_cons] at h ⊢
    cases hm : fs.takeMember strictness slots (.string (some name), v.reading) with
    | error e =>
      rw [hm] at h
      cases h
    | ok slots₁ =>
      rw [hm] at h
      rw [takeMember_cons hne.1 hm]
      exact ih hne.2 h

theorem Written.exists_slots {ms : List (String × Value)} {as : Values αs} (h : fs.Written ms as)
    (hnames : fs.names.Nodup) (strictness : Strictness) :
    ∃ slots, (Value.memberReadings ms).foldlM (fs.takeMember strictness) fs.noSlots = .ok slots ∧
      fs.values slots = .ok as := by
  induction h with
  | nil => exact ⟨(), rfl, rfl⟩
  | @member α αs f fs v a ms as hdecode rest ih =>
    rw [names, List.nodup_cons] at hnames
    obtain ⟨slots, hfold, hvalues⟩ := ih hnames.2
    have hfresh : f.name ∉ ms.map Prod.fst := fun hmem => hnames.1 (rest.names_sublist.mem hmem)
    refine ⟨consSlot (some a) slots, ?_, ?_⟩
    · have hfirst : (Fields.cons f fs).takeMember strictness (Fields.cons f fs).noSlots
          (.string (some f.name), v.reading) = .ok (consSlot (some a) fs.noSlots) := by
        simp [takeMember, put?, noSlots, hdecode, Except.map, consSlot]
      rw [Value.memberReadings, List.foldlM_cons, hfirst]
      exact foldlM_takeMember_cons hfresh hfold
    · simp [values, consSlot, hvalues, Except.map]
  | @omitted α αs f fs a ms as hfallback rest ih =>
    rw [names, List.nodup_cons] at hnames
    obtain ⟨slots, hfold, hvalues⟩ := ih hnames.2
    have hfresh : f.name ∉ ms.map Prod.fst := fun hmem => hnames.1 (rest.names_sublist.mem hmem)
    exact ⟨consSlot none slots, foldlM_takeMember_cons hfresh hfold,
      by simp [values, consSlot, hvalues, hfallback, Except.map]⟩

theorem Written.decode_reading {ms : List (String × Value)} {as : Values αs} (h : fs.Written ms as)
    (hnames : fs.names.Nodup) (record : String) (strictness : Strictness) :
    fs.decode record strictness (Value.object ms).reading = .ok as := by
  obtain ⟨slots, hfold, hvalues⟩ := h.exists_slots hnames strictness
  simp [Value.reading, Fields.decode, Decoder.closing, hfold, hvalues, Except.bind]

end Decoding

end Fields

theorem decode_render {α : Type} {d : Decoder α} {toJson : α → Value} (h : d.Inverts toJson)
    (a : α) : decode d (toJson a).render = .ok a := by
  simp [decode, Value.read_render, Decoder.closing, h a, Except.bind]

end FatJar.Json
