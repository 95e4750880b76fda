import FatJar.ClassFile.ConstantPool
import FatJar.Proofs.ClassFile.PoolLayout

namespace FatJar.ClassFile

/-- The constant with what `f` gives for its value, if it has one and `f` gives anything. -/
def Constant.replace (f : Bytes → Option Bytes) : Constant → Constant
  | .utf8 value => .utf8 ((f value).getD value)
  | .fixed tag body => .fixed tag body

/-- What `f` gives for a value has a length that two bytes can announce. -/
def Fits (f : Bytes → Option Bytes) (value : Bytes) : Prop :=
  ∀ w ∈ f value, w.length ≤ maxUtf8Length

def replacingBoth (g f : Bytes → Option Bytes) (value : Bytes) : Option Bytes :=
  (g ((f value).getD value)).or (f value)

/-- The first constant of a pool for which `f` gives too long a value is at `index`, and the value is of
that length. -/
inductive FirstTooLong (f : Bytes → Option Bytes) : List Constant → (index length : Nat) → Prop
  | intro {before after : List Constant} {value w : Bytes}
      (fits : ∀ v ∈ before.filterMap Constant.utf8?, Fits f v)
      (h : f value = some w) (long : maxUtf8Length < w.length) :
      FirstTooLong f (before ++ .utf8 value :: after) (1 + slotsOf before) w.length

/-- A class file `out` that is `bs` with its Utf8 constants, which are `values`, replaced by what `f` gives
for them. -/
structure IsReplacement (f : Bytes → Option Bytes) (bs : Bytes) (values : List Bytes) (out : Bytes) :
    Prop where
  layout : ∃ header cs rest, IsLaidOut bs header cs rest ∧
    IsLaidOut out header (cs.map (Constant.replace f)) rest ∧
    slotsOf (cs.map (Constant.replace f)) = slotsOf cs
  read : utf8Constants out = .ok (values.map fun v => (f v).getD v)
  unchanged : (∀ v ∈ values, f v = none) → out = bs
  again : ∀ g, (∀ v ∈ values, Fits g ((f v).getD v)) →
    ∃ out' n m, replaceUtf8 g out = .ok ⟨out', n⟩ ∧ replaceUtf8 (replacingBoth g f) bs = .ok ⟨out', m⟩

/-- What a replacement of Utf8 constants by `f` comes to. -/
structure MapsUtf8 (f : Bytes → Option Bytes) (bs : Bytes) : Prop where
  fits : ∀ values, utf8Constants bs = .ok values → (∀ v ∈ values, Fits f v) →
    ∃ out, replaceUtf8 f bs = .ok ⟨out, values.countP fun v => (f v).isSome⟩ ∧
      IsReplacement f bs values out
  tooLong : ∀ values, utf8Constants bs = .ok values → (∃ v ∈ values, ¬ Fits f v) →
    ∃ header cs rest index length, IsLaidOut bs header cs rest ∧ FirstTooLong f cs index length ∧
      replaceUtf8 f bs = .error (.utf8TooLong index length)
  unreadable : ∀ e, utf8Constants bs = .error e → ∃ cs, BreaksOff bs cs e ∧
    ((∀ v ∈ cs.filterMap Constant.utf8?, Fits f v) ∧ replaceUtf8 f bs = .error (.pool e) ∨
      ∃ index length, FirstTooLong f cs index length ∧
        replaceUtf8 f bs = .error (.utf8TooLong index length))

variable {f g : Bytes → Option Bytes} {c : Constant} {cs ds acc : List Constant}
  {bs header rest : Bytes} {values : List Bytes} {index n length : Nat} {e : PoolError}

namespace Constant

@[simp]
theorem slots_replace (f : Bytes → Option Bytes) (c : Constant) : (c.replace f).slots = c.slots := by
  cases c <;> rfl

theorem replace_replace (g f : Bytes → Option Bytes) (c : Constant) :
    (c.replace f).replace g = c.replace (replacingBoth g f) := by
  cases c with
  | fixed tag body => rfl
  | utf8 value =>
    rw [replace, replace, replace, replacingBoth]
    cases f value <;> cases g _ <;> rfl

theorem sound_replace (h : c.Sound) (hfits : ∀ v ∈ c.utf8?, Fits f v) : (c.replace f).Sound := by
  cases c with
  | fixed tag body => exact h
  | utf8 value =>
    rw [replace]
    cases hf : f value with
    | none => exact h
    | some w => exact hfits value rfl w hf

end Constant

theorem slotsOf_map_replace (f : Bytes → Option Bytes) (cs : List Constant) :
    slotsOf (cs.map (Constant.replace f)) = slotsOf cs := by
  rw [slotsOf, slotsOf, List.foldr_map]
  simp only [Constant.slots_replace]

theorem Fills.map_replace (h : Fills n cs) (f : Bytes → Option Bytes) :
    Fills n (cs.map (Constant.replace f)) := by
  induction h with
  | nil => exact .nil
  | cons _ ih => exact .cons (by rwa [Constant.slots_replace])

theorem filterMap_map_replace (f : Bytes → Option Bytes) (cs : List Constant) :
    (cs.map (Constant.replace f)).filterMap Constant.utf8? =
      (cs.filterMap Constant.utf8?).map fun v => (f v).getD v := by
  rw [List.filterMap_map, List.map_filterMap]
  congr 1
  funext c
  cases c <;> rfl

theorem map_replace_of_none (h : ∀ v ∈ cs.filterMap Constant.utf8?, f v = none) :
    cs.map (Constant.replace f) = cs := by
  refine (List.map_congr_left fun c hc => ?_).trans (List.map_id cs)
  cases c with
  | fixed tag body => rfl
  | utf8 value =>
    have hnone : f value = none := h value (List.mem_filterMap.mpr ⟨_, hc, rfl⟩)
    rw [Constant.replace, hnone]
    rfl

theorem fits_replacingBoth {value : Bytes} (hf : Fits f value) (hg : Fits g ((f value).getD value)) :
    Fits (replacingBoth g f) value := by
  intro w hw
  obtain hg' | ⟨-, hf'⟩ := Option.or_eq_some_iff.mp hw
  · exact hg w hg'
  · exact hf w hf'

/-- A class file whose constants are replaced by such as fit is laid out by the same slots. -/
theorem IsLaidOut.map_replace (h : IsLaidOut bs header cs rest)
    (hfits : ∀ v ∈ cs.filterMap Constant.utf8?, Fits f v) :
    IsLaidOut (header ++ ((cs.map (Constant.replace f)).flatMap Constant.toBytes ++ rest)) header
      (cs.map (Constant.replace f)) rest := by
  obtain ⟨version, count, hheader, hversion, hcount, hfills⟩ := h.header
  refine ⟨rfl, ⟨version, count, hheader, hversion, hcount, hfills.map_replace f⟩, ?_⟩
  refine List.forall_mem_map.mpr fun c hc => Constant.sound_replace (h.sound c hc) fun v hv => ?_
  exact hfits v (List.mem_filterMap.mpr ⟨c, hc, hv⟩)

section ReplaceFrom

theorem replaceFrom_append (h : ∀ v ∈ cs.filterMap Constant.utf8?, Fits f v) :
    replaceFrom f index n acc (cs ++ ds) =
      replaceFrom f (index + slotsOf cs)
        (n + (cs.filterMap Constant.utf8?).countP fun v => (f v).isSome)
        ((cs.map (Constant.replace f)).reverse ++ acc) ds := by
  induction cs generalizing index n acc with
  | nil => rfl
  | cons c cs ih =>
    have hsum : slotsOf (c :: cs) = c.slots + slotsOf cs := rfl
    rw [hsum, ← Nat.add_assoc, List.map_cons, List.reverse_cons, List.append_assoc,
      List.singleton_append, List.cons_append, replaceFrom]
    cases c with
    | fixed tag body => exact ih h
    | utf8 value =>
      obtain ⟨hvalue, hcs⟩ := List.forall_mem_cons.mp h
      have hvalues : (Constant.utf8 value :: cs).filterMap Constant.utf8? =
          value :: cs.filterMap Constant.utf8? := rfl
      rw [hvalues, List.countP_cons]
      dsimp only [Constant.utf8?, Option.bind_some, Constant.replace]
      cases hf : f value with
      | none => exact ih hcs
      | some w =>
        dsimp only
        rw [if_pos (hvalue w hf), ih hcs]
        simp only [Option.isSome_some, if_true, Option.getD_some]
        congr 1
        omega

theorem replaceFrom_of_fits (h : ∀ v ∈ cs.filterMap Constant.utf8?, Fits f v) :
    replaceFrom f index 0 [] cs =
      .ok (cs.map (Constant.replace f),
        (cs.filterMap Constant.utf8?).countP fun v => (f v).isSome) := by
  have hall : replaceFrom f index 0 [] (cs ++ []) = _ := replaceFrom_append h
  rwa [List.append_nil, List.append_nil, Nat.zero_add, replaceFrom, List.reverse_reverse] at hall

theorem replaceFrom_of_firstTooLong (h : FirstTooLong f cs index length) :
    replaceFrom f 1 0 [] cs = .error (.utf8TooLong index length) := by
  obtain ⟨hfits, hf, hlong⟩ := h
  rw [replaceFrom_append hfits, replaceFrom]
  dsimp only [Constant.utf8?, Option.bind_some]
  rw [hf]
  exact if_neg (Nat.not_le.mpr hlong)

theorem FirstTooLong.append (h : FirstTooLong f cs index length) (ds : List Constant) :
    FirstTooLong f (cs ++ ds) index length := by
  obtain ⟨hfits, hf, hlong⟩ := h
  rw [List.append_assoc, List.cons_append]
  exact .intro hfits hf hlong

theorem fits_or_firstTooLong (f : Bytes → Option Bytes) (cs : List Constant) :
    (∀ v ∈ cs.filterMap Constant.utf8?, Fits f v) ∨ ∃ index length, FirstTooLong f cs index length := by
  induction cs using List.reverseRecOn with
  | nil => exact .inl (by simp)
  | append_singleton cs c ih =>
    obtain hfits | ⟨index, length, htooLong⟩ := ih
    · cases c with
      | fixed tag body =>
        have hvalues : (cs ++ [Constant.fixed tag body]).filterMap Constant.utf8? =
            cs.filterMap Constant.utf8? ++ [] := List.filterMap_append
        rw [hvalues, List.append_nil]
        exact .inl hfits
      | utf8 value =>
        by_cases hvalue : Fits f value
        · have hvalues : (cs ++ [Constant.utf8 value]).filterMap Constant.utf8? =
              cs.filterMap Constant.utf8? ++ [value] := List.filterMap_append
          rw [hvalues]
          exact .inl (List.forall_mem_append.mpr ⟨hfits, List.forall_mem_singleton.mpr hvalue⟩)
        · obtain ⟨w, hf, hlong⟩ : ∃ w, f value = some w ∧ maxUtf8Length < w.length := by
            simpa [Fits] using hvalue
          exact .inr ⟨_, _, .intro hfits hf hlong⟩
    · exact .inr ⟨index, length, htooLong.append [c]⟩

end ReplaceFrom

theorem utf8Constants_of_isLaidOut (h : IsLaidOut bs header cs rest) :
    utf8Constants bs = .ok (cs.filterMap Constant.utf8?) := by
  rw [utf8Constants, Pool.isLaidOut_iff.mp h]
  rfl

theorem exists_isLaidOut (h : utf8Constants bs = .ok values) :
    ∃ header cs rest, IsLaidOut bs header cs rest ∧ cs.filterMap Constant.utf8? = values := by
  obtain ⟨header, cs, rest, hlaid, -⟩ | ⟨header, cs, e, -, hpool⟩ := Pool.ofBytes_cases bs
  · exact ⟨header, cs, rest, hlaid, Except.ok.inj ((utf8Constants_of_isLaidOut hlaid).symm.trans h)⟩
  · rw [utf8Constants, hpool] at h
    cases h

theorem exists_breaksOff (h : utf8Constants bs = .error e) :
    ∃ header cs, BreaksOff bs cs e ∧ Pool.ofBytes bs = ⟨header, cs, .error e⟩ := by
  obtain ⟨header, cs, rest, hlaid, -⟩ | ⟨header, cs, e', hbreaks, hpool⟩ := Pool.ofBytes_cases bs
  · rw [utf8Constants_of_isLaidOut hlaid] at h
    cases h
  · rw [utf8Constants, hpool] at h
    cases h
    exact ⟨header, cs, hbreaks, hpool⟩

theorem replaceUtf8_of_fits (h : IsLaidOut bs header cs rest)
    (hfits : ∀ v ∈ cs.filterMap Constant.utf8?, Fits f v) :
    replaceUtf8 f bs =
      .ok ⟨header ++ ((cs.map (Constant.replace f)).flatMap Constant.toBytes ++ rest),
        (cs.filterMap Constant.utf8?).countP fun v => (f v).isSome⟩ := by
  rw [replaceUtf8, Pool.isLaidOut_iff.mp h]
  dsimp only
  rw [replaceFrom_of_fits hfits, ← List.append_assoc]
  rfl

theorem replaceUtf8_of_broken (h : Pool.ofBytes bs = ⟨header, cs, .error e⟩)
    (hfits : ∀ v ∈ cs.filterMap Constant.utf8?, Fits f v) : replaceUtf8 f bs = .error (.pool e) := by
  rw [replaceUtf8, h]
  dsimp only
  rw [replaceFrom_of_fits hfits]

theorem replaceUtf8_of_firstTooLong (h : FirstTooLong f (Pool.ofBytes bs).constants index length) :
    replaceUtf8 f bs = .error (.utf8TooLong index length) := by
  rw [replaceUtf8, replaceFrom_of_firstTooLong h]

theorem isReplacement (h : IsLaidOut bs header cs rest)
    (hfits : ∀ v ∈ cs.filterMap Constant.utf8?, Fits f v) :
    IsReplacement f bs (cs.filterMap Constant.utf8?)
      (header ++ ((cs.map (Constant.replace f)).flatMap Constant.toBytes ++ rest)) := by
  have hout := h.map_replace hfits
  refine ⟨⟨header, cs, rest, h, hout, slotsOf_map_replace f cs⟩, ?_, fun hnone => ?_, fun g hg => ?_⟩
  · rw [utf8Constants_of_isLaidOut hout, filterMap_map_replace]
  · rw [map_replace_of_none hnone, ← h.bytes]
  · have hagain : ∀ v ∈ (cs.map (Constant.replace f)).filterMap Constant.utf8?, Fits g v := by
      rw [filterMap_map_replace]
      exact List.forall_mem_map.mpr hg
    have hboth : ∀ v ∈ cs.filterMap Constant.utf8?, Fits (replacingBoth g f) v := fun v hv =>
      fits_replacingBoth (hfits v hv) (hg v hv)
    have hmap : (cs.map (Constant.replace f)).map (Constant.replace g) =
        cs.map (Constant.replace (replacingBoth g f)) := by
      rw [List.map_map]
      exact List.map_congr_left fun c _ => c.replace_replace g f
    have hsecond := replaceUtf8_of_fits hout hagain
    rw [hmap] at hsecond
    exact ⟨_, _, _, hsecond, replaceUtf8_of_fits h hboth⟩

/-- Replacing Utf8 constants maps them, whatever the class file and whatever is given for them. -/
theorem mapsUtf8 (f : Bytes → Option Bytes) (bs : Bytes) : MapsUtf8 f bs := by
  refine ⟨fun values hvalues hfits => ?_, fun values hvalues htooLong => ?_, fun e he => ?_⟩
  · obtain ⟨header, cs, rest, hlaid, rfl⟩ := exists_isLaidOut hvalues
    exact ⟨_, replaceUtf8_of_fits hlaid hfits, isReplacement hlaid hfits⟩
  · obtain ⟨header, cs, rest, hlaid, rfl⟩ := exists_isLaidOut hvalues
    obtain hfits | ⟨index, length, hfirst⟩ := fits_or_firstTooLong f cs
    · obtain ⟨v, hv, hlong⟩ := htooLong
      exact absurd (hfits v hv) hlong
    · refine ⟨header, cs, rest, index, length, hlaid, hfirst, replaceUtf8_of_firstTooLong ?_⟩
      rwa [Pool.isLaidOut_iff.mp hlaid]
  · obtain ⟨header, cs, hbreaks, hpool⟩ := exists_breaksOff he
    refine ⟨cs, hbreaks, ?_⟩
    obtain hfits | ⟨index, length, hfirst⟩ := fits_or_firstTooLong f cs
    · exact .inl ⟨hfits, replaceUtf8_of_broken hpool hfits⟩
    · refine .inr ⟨index, length, hfirst, replaceUtf8_of_firstTooLong ?_⟩
      rwa [hpool]

/-- A class file whose pool is a name, a constant of two slots and a name. -/
def wideClass : Bytes :=
  Pool.magic ++ [0, 0, 0, 52] ++ [0, 5] ++ [1, 0, 1, 97] ++ [5, 0, 0, 0, 0, 0, 0, 0, 42] ++ [1, 0, 1, 98] ++
    [0, 33]

theorem mapsUtf8_wideClass :
    ∃ out, replaceUtf8 (fun v => if v = [97] then some [99, 99] else none) wideClass = .ok ⟨out, 1⟩ ∧
      IsReplacement (fun v => if v = [97] then some [99, 99] else none) wideClass [[97], [98]] out :=
  (mapsUtf8 _ wideClass).fits [[97], [98]] (by decide) (by simp [Fits, maxUtf8Length])

end FatJar.ClassFile
