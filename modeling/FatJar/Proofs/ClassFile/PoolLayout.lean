import FatJar.ClassFile.ConstantPool
import FatJar.Proofs.Bytes

namespace FatJar.ClassFile

/-- A length that its two bytes can announce, or a body as wide as the tag says. -/
def Constant.Sound : Constant → Prop
  | .utf8 value => value.length ≤ maxUtf8Length
  | .fixed tag body => fixedWidth? tag = some body.length

instance (c : Constant) : Decidable c.Sound :=
  match c with
  | .utf8 value => inferInstanceAs (Decidable (value.length ≤ maxUtf8Length))
  | .fixed tag body => inferInstanceAs (Decidable (fixedWidth? tag = some body.length))

/-- Constants that fill so many slots. One that takes two slots may begin in the last. -/
inductive Fills : (slots : Nat) → List Constant → Prop
  | nil : Fills 0 []
  | cons {n : Nat} {c : Constant} {cs : List Constant} (h : Fills (n + 1 - c.slots) cs) :
      Fills (n + 1) (c :: cs)

def slotsOf (cs : List Constant) : Nat :=
  cs.foldr (fun c n => c.slots + n) 0

/-- A class file cut into its header, the constants that fill its pool, and the rest. -/
structure IsLaidOut (bs header : Bytes) (cs : List Constant) (rest : Bytes) : Prop where
  bytes : bs = header ++ (cs.flatMap Constant.toBytes ++ rest)
  header : ∃ version count, header = Pool.magic ++ version ++ count ∧ version.length = 4 ∧
    count.length = 2 ∧ Fills (Bytes.bigEndian count - 1) cs
  sound : ∀ c ∈ cs, c.Sound

/-- A class file that cannot be read behind the constants `cs`, and why. -/
inductive BreaksOff (bs : Bytes) : (cs : List Constant) → PoolError → Prop
  | short (h : bs.length < 4) : BreaksOff bs [] .truncated
  | badMagic (hlength : 4 ≤ bs.length) (h : ¬ Pool.magic <+: bs) : BreaksOff bs [] .badMagic
  | header (h : Pool.magic <+: bs) (hlength : bs.length < 10) : BreaksOff bs [] .truncated
  | constant {version count tail : Bytes} {cs : List Constant} {e : PoolError}
      (bytes : bs = Pool.magic ++ version ++ count ++ (cs.flatMap Constant.toBytes ++ tail))
      (hversion : version.length = 4) (hcount : count.length = 2)
      (sound : ∀ c ∈ cs, c.Sound) (left : slotsOf cs < Bytes.bigEndian count - 1)
      (h : Constant.read (1 + slotsOf cs) tail = .error e) : BreaksOff bs cs e

variable {c : Constant} {cs : List Constant} {bs header rest : Bytes} {index n : Nat} {e : PoolError}

namespace Constant

theorem read_utf8 {value : Bytes} (h : value.length ≤ maxUtf8Length) (rest : Bytes) :
    read index ((utf8 value).toBytes ++ rest) = .ok (utf8 value, rest) := by
  have hlength : Bytes.bigEndian (Bytes.toBigEndian 2 value.length) = value.length :=
    Bytes.bigEndian_toBigEndian (Nat.lt_succ_of_le h)
  simp only [toBytes, List.cons_append, List.append_assoc, read, if_true,
    Bytes.cut?_append (Bytes.length_toBigEndian 2 value.length), Bytes.cut?_append hlength.symm]

theorem read_fixed {tag : UInt8} {body : Bytes} (h : fixedWidth? tag = some body.length) (rest : Bytes) :
    read index ((fixed tag body).toBytes ++ rest) = .ok (fixed tag body, rest) := by
  have htag : tag ≠ 1 := by
    rintro rfl
    cases h
  simp only [toBytes, List.cons_append, read, if_neg htag, h, Bytes.cut?_append rfl]

theorem read_toBytes (h : c.Sound) (index : Nat) (rest : Bytes) :
    read index (c.toBytes ++ rest) = .ok (c, rest) := by
  cases c with
  | utf8 value => exact read_utf8 h rest
  | fixed tag body => exact read_fixed h rest

theorem of_read (h : read index bs = .ok (c, rest)) : c.Sound ∧ bs = c.toBytes ++ rest := by
  cases bs with
  | nil => cases h
  | cons tag bs =>
    rw [read] at h
    split at h
    · next htag =>
      subst htag
      split at h
      · cases h
      · next len after hlen =>
        obtain ⟨rfl, hwidth⟩ := Bytes.cut?_eq_some_iff.mp hlen
        split at h
        · cases h
        · next value rest' hvalue =>
          obtain ⟨rfl, hlength⟩ := Bytes.cut?_eq_some_iff.mp hvalue
          obtain ⟨rfl, rfl⟩ := Prod.mk.inj (Except.ok.inj h)
          have hlt := Bytes.bigEndian_lt len
          have hdigits := Bytes.toBigEndian_bigEndian len
          rw [hwidth, ← hlength] at hlt hdigits
          refine ⟨Nat.le_of_lt_succ hlt, ?_⟩
          rw [toBytes, hdigits, List.cons_append, List.append_assoc]
    · split at h
      · cases h
      · next width hwidth =>
        split at h
        · cases h
        · next body rest' hbody =>
          obtain ⟨rfl, hlength⟩ := Bytes.cut?_eq_some_iff.mp hbody
          obtain ⟨rfl, rfl⟩ := Prod.mk.inj (Except.ok.inj h)
          subst hlength
          exact ⟨hwidth, rfl⟩

theorem slots_cases (c : Constant) : c.slots = 1 ∨ c.slots = 2 := by
  rw [slots.eq_def]
  split
  · exact .inr rfl
  · exact .inr rfl
  · exact .inl rfl

end Constant

namespace Pool

section Reading

variable {acc : List Constant}

theorem readFrom_of_error (h : Constant.read index bs = .error e) :
    readFrom header (n + 1) index acc bs = ⟨header, acc.reverse, .error e⟩ := by
  rw [readFrom, h]

theorem readFrom_of_ok (h : Constant.read index bs = .ok (c, rest)) :
    readFrom header (n + 1) index acc bs =
      readFrom header (n + 1 - c.slots) (index + c.slots) (c :: acc) rest := by
  rw [readFrom, h]
  dsimp only
  obtain hslots | hslots := c.slots_cases
  · rw [hslots, if_neg (by decide), Nat.add_sub_cancel]
  · rw [hslots, if_pos rfl]
    cases n <;> rfl

theorem readFrom_of_fills (hfills : Fills n cs) (hsound : ∀ c ∈ cs, c.Sound) (acc : List Constant)
    (index : Nat) (rest : Bytes) :
    readFrom header n index acc (cs.flatMap Constant.toBytes ++ rest) =
      ⟨header, acc.reverse ++ cs, .ok rest⟩ := by
  induction hfills generalizing acc index with
  | nil => rw [List.flatMap_nil, List.nil_append, readFrom, List.append_nil]
  | @cons n c cs _ ih =>
    obtain ⟨hc, hcs⟩ := List.forall_mem_cons.mp hsound
    rw [List.flatMap_cons, List.append_assoc, readFrom_of_ok (Constant.read_toBytes hc index _),
      ih hcs, List.reverse_cons, List.append_assoc, List.singleton_append]

theorem exists_readFrom (header : Bytes) (n index : Nat) (acc : List Constant) (bs : Bytes) :
    ∃ cs tail, bs = cs.flatMap Constant.toBytes ++ tail ∧ (∀ c ∈ cs, c.Sound) ∧
      (Fills n cs ∧ readFrom header n index acc bs = ⟨header, acc.reverse ++ cs, .ok tail⟩ ∨
        ∃ e, slotsOf cs < n ∧ Constant.read (index + slotsOf cs) tail = .error e ∧
          readFrom header n index acc bs = ⟨header, acc.reverse ++ cs, .error e⟩) := by
  -- By the slots that are left, of which a constant takes one or two.
  induction n using Nat.strongRecOn generalizing index acc bs with
  | _ n ih =>
    cases n with
    | zero =>
      refine ⟨[], bs, rfl, by simp, .inl ⟨.nil, ?_⟩⟩
      rw [readFrom, List.append_nil]
    | succ n =>
      cases hread : Constant.read index bs with
      | error e =>
        refine ⟨[], bs, rfl, by simp, .inr ⟨e, Nat.succ_pos n, hread, ?_⟩⟩
        rw [readFrom_of_error hread, List.append_nil]
      | ok p =>
        obtain ⟨c, rest⟩ := p
        obtain ⟨hc, rfl⟩ := Constant.of_read hread
        have hslots := c.slots_cases
        obtain ⟨cs, tail, rfl, hcs, hend⟩ :=
          ih (n + 1 - c.slots) (by omega) (index + c.slots) (c :: acc) rest
        rw [List.reverse_cons, List.append_assoc, List.singleton_append] at hend
        have hsum : slotsOf (c :: cs) = c.slots + slotsOf cs := rfl
        refine ⟨c :: cs, tail, ?_, List.forall_mem_cons.mpr ⟨hc, hcs⟩, ?_⟩
        · rw [List.flatMap_cons, List.append_assoc]
        · rw [readFrom_of_ok hread, hsum, ← Nat.add_assoc]
          obtain ⟨hfills, hall⟩ | ⟨e, hleft, herror, hall⟩ := hend
          · exact .inl ⟨.cons hfills, hall⟩
          · exact .inr ⟨e, by omega, herror, hall⟩

end Reading

theorem ofBytes_of_isLaidOut (h : IsLaidOut bs header cs rest) : ofBytes bs = ⟨header, cs, .ok rest⟩ := by
  obtain ⟨version, count, rfl, hversion, hcount, hfills⟩ := h.header
  have hmagic : magic.length = 4 := rfl
  have hbytes := h.bytes
  simp only [List.append_assoc] at hbytes
  rw [ofBytes, hbytes]
  simp only [Bytes.cut?_append hmagic, Bytes.cut?_append hversion, Bytes.cut?_append hcount, ne_eq,
    not_true_eq_false, if_false]
  rw [readFrom_of_fills hfills h.sound, List.reverse_nil, List.nil_append]

theorem ofBytes_cases (bs : Bytes) :
    (∃ header cs rest, IsLaidOut bs header cs rest ∧ ofBytes bs = ⟨header, cs, .ok rest⟩) ∨
      ∃ header cs e, BreaksOff bs cs e ∧ ofBytes bs = ⟨header, cs, .error e⟩ := by
  rw [ofBytes]
  split
  · next hm => exact .inr ⟨_, _, _, .short (Bytes.cut?_eq_none_iff.mp hm), rfl⟩
  · next m afterMagic hm =>
    obtain ⟨rfl, hlength⟩ := Bytes.cut?_eq_some_iff.mp hm
    split
    · next hne =>
      refine .inr ⟨_, _, _, .badMagic (by simp [hlength]) fun hprefix => hne ?_, rfl⟩
      have hm : m <+: m ++ afterMagic := List.prefix_append m afterMagic
      have hle : magic.length ≤ m.length := Nat.le_of_eq hlength.symm
      exact ((List.prefix_of_prefix_length_le hprefix hm hle).eq_of_length hlength.symm).symm
    · next heq =>
      obtain rfl := not_not.mp heq
      have hmagic : magic <+: magic ++ afterMagic := List.prefix_append magic afterMagic
      split
      · next hv =>
        have hshort := Bytes.cut?_eq_none_iff.mp hv
        refine .inr ⟨_, _, _, .header hmagic ?_, rfl⟩
        rw [List.length_append]
        omega
      · next version afterVersion hv =>
        obtain ⟨rfl, hversion⟩ := Bytes.cut?_eq_some_iff.mp hv
        split
        · next hc =>
          have hshort := Bytes.cut?_eq_none_iff.mp hc
          refine .inr ⟨_, _, _, .header hmagic ?_, rfl⟩
          rw [List.length_append, List.length_append]
          omega
        · next count body hc =>
          obtain ⟨rfl, hcount⟩ := Bytes.cut?_eq_some_iff.mp hc
          obtain ⟨cs, tail, rfl, hsound, ⟨hfills, hread⟩ | ⟨e, hleft, herror, hread⟩⟩ :=
            exists_readFrom (magic ++ version ++ count) (Bytes.bigEndian count - 1) 1 [] body
          · refine .inl ⟨_, cs, tail, ⟨?_, ?_, hsound⟩, hread⟩
            · simp only [List.append_assoc]
            · exact ⟨version, count, rfl, hversion, hcount, hfills⟩
          · refine .inr ⟨_, cs, e, ?_, hread⟩
            refine .constant ?_ hversion hcount hsound hleft herror
            simp only [List.append_assoc]

theorem isLaidOut_iff : IsLaidOut bs header cs rest ↔ ofBytes bs = ⟨header, cs, .ok rest⟩ := by
  refine ⟨ofBytes_of_isLaidOut, fun h => ?_⟩
  obtain ⟨header', cs', rest', hlaid, hpool⟩ | ⟨header', cs', e, -, hpool⟩ := ofBytes_cases bs
  · cases hpool.symm.trans h
    exact hlaid
  · cases hpool.symm.trans h

end Pool

end FatJar.ClassFile
