import FatJar.Proofs.ClassFile.ConstantPool
import FatJar.Proofs.Relocation.References
import FatJar.Relocation.Relocator

namespace FatJar.Relocation

/-- A member at another path and with another payload, as far as these are given. -/
def alter (m : Member) (path : Option String) (payload : Option Bytes) (constants : Nat) : Relocated :=
  { moveTo path (setPayload payload { member := m }) with constants }

section Alterations

variable (m : Member) (path : Option String) (payload : Option Bytes) (constants : Nat)

theorem alter_kind : (alter m path payload constants).member.kind = m.kind := by
  cases path <;> cases payload <;> rfl

theorem alter_payload : (alter m path payload constants).member.payload = payload.getD m.payload := by
  cases path <;> cases payload <;> rfl

theorem alter_path : (alter m path payload constants).member.path = path.getD m.path := by
  cases path <;> cases payload <;> rfl

theorem alter_moved : (alter m path payload constants).moved = path.isSome := by
  cases path <;> cases payload <;> rfl

theorem moveTo_setPayload :
    moveTo path (setPayload payload { member := m }) = alter m path payload 0 := by
  cases path <;> cases payload <;> rfl

theorem setPayload_moveTo :
    setPayload payload (moveTo path { member := m }) = alter m path payload 0 := by
  cases path <;> cases payload <;> rfl

theorem alter_none : (alter m none none constants).member = m :=
  rfl

end Alterations

variable {accepts : Bytes → Bool} {rs : RuleSet} {m : Member} {r : Relocated}

/-- Whether a member refers to a source namespace, a class by its constants as far as these can be
read. -/
def RuleSet.mentions (rs : RuleSet) (m : Member) : Bool :=
  match m.kind, ClassFile.utf8Constants m.payload with
  | .classFile, .ok values => values.any fun v => (rs.find v).isSome
  | _, _ => (rs.find m.payload).isSome

/-- Whether a class can be read as far as its constants and refers to no source namespace there. -/
def Clean (rs : RuleSet) (payload : Bytes) : Prop :=
  ∃ values, ClassFile.utf8Constants payload = .ok values ∧ ∀ v ∈ values, rs.find v = none

/-- The ways in which a class can be done with: there is nothing to replace in it, it cannot be read
and need not be, or its new bytes are free of references. -/
theorem replaceInClass_eq_ok_iff {moving : Bool} {out : Option (Bytes × Nat)} :
    replaceInClass accepts rs m moving = .ok out ↔
      (out = none ∧ ∃ bytes, ClassFile.replaceUtf8 rs.replace m.payload = .ok ⟨bytes, 0⟩) ∨
        (out = none ∧ moving = false ∧ rs.find m.payload = none ∧
          ∃ e, ClassFile.replaceUtf8 rs.replace m.payload = .error (.pool e)) ∨
        ∃ bytes n, out = some (bytes, n) ∧ n ≠ 0 ∧
          ClassFile.replaceUtf8 rs.replace m.payload = .ok ⟨bytes, n⟩ ∧ Clean rs bytes ∧
          accepts bytes = true := by
  unfold replaceInClass
  constructor
  · intro h
    split at h
    · simp at h
    · next e hreplace =>
      right
      left
      split at h
      · simp at h
      · next hfind =>
        cases moving with
        | true => simp at h
        | false => exact ⟨(Except.ok.inj h).symm, rfl, hfind, e, hreplace⟩
    · next bytes n hreplace =>
      split at h
      · next hzero =>
        subst hzero
        exact .inl ⟨(Except.ok.inj h).symm, bytes, hreplace⟩
      · next hzero =>
        right
        right
        split at h
        · simp at h
        · next values hvalues =>
          split at h
          · simp at h
          · next hfind =>
            split at h
            · next haccepts =>
              exact ⟨bytes, n, (Except.ok.inj h).symm, hzero, hreplace,
                ⟨values, hvalues, List.findSome?_eq_none_iff.mp hfind⟩, haccepts⟩
            · simp at h
  · rintro (⟨rfl, bytes, hreplace⟩ | ⟨rfl, rfl, hfind, e, hreplace⟩ |
      ⟨bytes, n, rfl, hzero, hreplace, ⟨values, hvalues, hnone⟩, haccepts⟩)
    · rw [hreplace]
      rfl
    · rw [hreplace, hfind]
      rfl
    · have hfind : values.findSome? rs.find = none := List.findSome?_eq_none_iff.mpr hnone
      simp only [hreplace, if_neg hzero, hvalues, hfind, if_pos haccepts]

theorem relocateClass_eq_ok_iff :
    relocateClass accepts rs m = .ok r ↔
      ∃ out, replaceInClass accepts rs m (rs.relocatePath m.path).isSome = .ok out ∧
        r = alter m (rs.relocatePath m.path) (out.map Prod.fst) (out.elim 0 Prod.snd) := by
  unfold relocateClass
  dsimp only
  cases replaceInClass accepts rs m (rs.relocatePath m.path).isSome with
  | error f => simp
  | ok out =>
    cases out with
    | none =>
      simp only [Except.ok.injEq, exists_eq_left']
      cases rs.relocatePath m.path <;> exact eq_comm
    | some out =>
      simp only [Except.ok.injEq, exists_eq_left']
      cases rs.relocatePath m.path <;> exact eq_comm

theorem replaceInClass_of_unmentioned (hk : m.kind = .classFile) (hn : rs.mentions m = false)
    {moving : Bool} {out : Option (Bytes × Nat)}
    (h : replaceInClass accepts rs m moving = .ok out) : out = none := by
  rcases replaceInClass_eq_ok_iff.mp h with
    ⟨rfl, -⟩ | ⟨rfl, -⟩ | ⟨bytes, n, rfl, hzero, hreplace, -, -⟩
  · rfl
  · rfl
  · obtain ⟨values, hvalues, hcount⟩ := ClassFile.utf8Constants_of_replaced hreplace
    rw [RuleSet.mentions, hk, hvalues] at hn
    refine absurd (hcount.trans (List.countP_eq_zero.mpr fun v hv => ?_)) hzero
    have hfind := List.any_eq_false.mp hn v hv
    have hnone : rs.replace v = none := by
      rw [rs.replace_eq_none_iff]
      simpa using hfind
    simp [hnone]

theorem replace_of_unmentioned (hk : m.kind ≠ .classFile) (hn : rs.mentions m = false) :
    rs.replace m.payload = none := by
  rw [rs.replace_eq_none_iff]
  unfold RuleSet.mentions at hn
  split at hn
  · next hkind _ => exact absurd hkind hk
  · simpa using hn

theorem relocateMember_eq_ok (h : relocateMember accepts rs m = .ok r) :
    ∃ path payload constants, r = alter m path payload constants ∧
      (rs.mentions m = false → payload = none) := by
  unfold relocateMember at h
  cases hk : m.kind with
  | classFile =>
    rw [hk] at h
    obtain ⟨out, hout, rfl⟩ := relocateClass_eq_ok_iff.mp h
    refine ⟨_, _, _, rfl, fun hn => ?_⟩
    rw [replaceInClass_of_unmentioned hk hn hout]
    rfl
  | serviceFile =>
    rw [hk] at h
    obtain rfl := Except.ok.inj h
    refine ⟨_, _, 0, setPayload_moveTo _ _ _, fun hn => ?_⟩
    rw [replace_of_unmentioned (by rw [hk]; decide) hn]
    rfl
  | resource =>
    rw [hk] at h
    unfold relocateResource at h
    dsimp only at h
    split at h
    · obtain rfl := Except.ok.inj h
      refine ⟨_, _, 0, moveTo_setPayload _ _ _, fun hn => ?_⟩
      exact replace_of_unmentioned (by rw [hk]; decide) hn
    · split at h
      · simp at h
      · obtain rfl := Except.ok.inj h
        exact ⟨_, none, 0, moveTo_setPayload m _ none, fun _ => rfl⟩
  | directory | signature | manifest =>
    rw [hk] at h
    obtain rfl := Except.ok.inj h
    exact ⟨none, none, 0, rfl, fun _ => rfl⟩

theorem kind_of_relocateMember (h : relocateMember accepts rs m = .ok r) :
    r.member.kind = m.kind := by
  obtain ⟨path, payload, constants, rfl, -⟩ := relocateMember_eq_ok h
  exact alter_kind m path payload constants

theorem path_of_unmoved (h : relocateMember accepts rs m = .ok r) (hm : r.moved = false) :
    r.member.path = m.path := by
  obtain ⟨path, payload, constants, rfl, -⟩ := relocateMember_eq_ok h
  rw [alter_moved, Option.isSome_eq_false_iff, Option.isNone_iff_eq_none] at hm
  rw [alter_path, hm, Option.getD_none]

theorem eq_of_unmentioned (h : relocateMember accepts rs m = .ok r) (hm : r.moved = false)
    (hn : rs.mentions m = false) : r.member = m := by
  obtain ⟨path, payload, constants, rfl, hpayload⟩ := relocateMember_eq_ok h
  rw [alter_moved, Option.isSome_eq_false_iff, Option.isNone_iff_eq_none] at hm
  rw [hm, hpayload hn, alter_none]

end FatJar.Relocation
