import FatJar.Proofs.Relocation.Members

namespace FatJar.Relocation

variable {accepts : Bytes → Bool} {rs : RuleSet} {m : Member} {r : Relocated}

/-- Where a member moves to: classes and resources move by their paths, service files by the names of
their services. -/
def newPath? (rs : RuleSet) (m : Member) : Option String :=
  match m.kind with
  | .classFile | .resource => rs.relocatePath m.path
  | .serviceFile =>
    (serviceName? m.path).bind fun name => (rs.relocateName name).map (servicesDir ++ ·)
  | .directory | .signature | .manifest => none

/-- What a member can come to hold in place of its payload. -/
inductive NewPayload (rs : RuleSet) (m : Member) : Bytes → Prop
  | clean {bytes : Bytes} (hk : m.kind = .classFile) (h : Clean rs bytes) : NewPayload rs m bytes
  | replaced {bytes : Bytes} (hk : m.kind = .resource) (h : rs.replace m.payload = some bytes) :
      NewPayload rs m bytes
  | providers {content : Bytes} (hk : m.kind = .serviceFile)
      (h : rs.replace m.payload = some content) :
      NewPayload rs m (Registrations.merge [content])

theorem relocateClass_inv (hk : m.kind = .classFile) (h : relocateClass accepts rs m = .ok r) :
    ∃ payload constants, r = alter m (rs.relocatePath m.path) payload constants ∧
      ∀ bytes, payload = some bytes → NewPayload rs m bytes := by
  obtain ⟨out, hout, rfl⟩ := relocateClass_eq_ok_iff.mp h
  refine ⟨_, _, rfl, fun bytes hbytes => ?_⟩
  rcases replaceInClass_eq_ok_iff.mp hout with
    ⟨rfl, -⟩ | ⟨rfl, -⟩ | ⟨out, n, rfl, -, -, hclean, -⟩
  · simp at hbytes
  · simp at hbytes
  · obtain rfl := Option.some.inj hbytes
    exact .clean hk hclean

theorem relocateResource_inv (hk : m.kind = .resource) (h : relocateResource rs m = .ok r) :
    ∃ payload, r = alter m (rs.relocatePath m.path) payload 0 ∧
      ∀ bytes, payload = some bytes → NewPayload rs m bytes := by
  unfold relocateResource at h
  dsimp only at h
  split at h
  · obtain rfl := Except.ok.inj h
    exact ⟨_, moveTo_setPayload _ _ _, fun bytes hbytes => .replaced hk hbytes⟩
  · split at h
    · simp at h
    · obtain rfl := Except.ok.inj h
      exact ⟨none, moveTo_setPayload m _ none, by simp⟩

theorem relocateMember_inv (h : relocateMember accepts rs m = .ok r) :
    ∃ payload constants, r = alter m (newPath? rs m) payload constants ∧
      ∀ bytes, payload = some bytes → NewPayload rs m bytes := by
  unfold relocateMember at h
  cases hk : m.kind with
  | classFile =>
    rw [hk] at h
    simpa only [newPath?, hk] using relocateClass_inv hk h
  | resource =>
    rw [hk] at h
    obtain ⟨payload, hr, hpayload⟩ := relocateResource_inv hk h
    exact ⟨payload, 0, by simpa only [newPath?, hk] using hr, hpayload⟩
  | serviceFile =>
    rw [hk] at h
    obtain rfl := Except.ok.inj h
    have hpath : newPath? rs m =
        (serviceName? m.path).bind fun name => (rs.relocateName name).map (servicesDir ++ ·) := by
      simp only [newPath?, hk]
    refine ⟨_, 0, by rw [hpath]; exact setPayload_moveTo _ _ _, fun bytes hbytes => ?_⟩
    obtain ⟨content, hreplace, rfl⟩ := Option.map_eq_some_iff.mp hbytes
    exact .providers hk hreplace
  | directory | signature | manifest =>
    rw [hk] at h
    obtain rfl := Except.ok.inj h
    exact ⟨none, 0, by simp only [newPath?, hk]; rfl, by simp⟩

theorem path_of_relocateMember (h : relocateMember accepts rs m = .ok r) :
    r.member.path = m.path ∨
      ((m.kind = .classFile ∨ m.kind = .resource) ∧
        rs.relocatePath m.path = some r.member.path) ∨
      (m.kind = .serviceFile ∧ ∃ name name', serviceName? m.path = some name ∧
        rs.relocateName name = some name' ∧ r.member.path = servicesDir ++ name') := by
  obtain ⟨payload, constants, rfl, -⟩ := relocateMember_inv h
  rw [alter_path]
  cases hpath : newPath? rs m with
  | none => exact .inl rfl
  | some path =>
    rw [Option.getD_some]
    unfold newPath? at hpath
    split at hpath
    · next hk => exact .inr (.inl ⟨.inl hk, hpath⟩)
    · next hk => exact .inr (.inl ⟨.inr hk, hpath⟩)
    · next hk =>
      obtain ⟨name, hname, hmoved⟩ := Option.bind_eq_some_iff.mp hpath
      obtain ⟨name', hname', hpath⟩ := Option.map_eq_some_iff.mp hmoved
      exact .inr (.inr ⟨hk, name, name', hname, hname', hpath.symm⟩)
    all_goals simp at hpath

/-- A new payload is a class free of references, a text with its references replaced, or the providers
on such a text. -/
theorem payload_of_relocateMember (h : relocateMember accepts rs m = .ok r) :
    r.member.payload = m.payload ∨ NewPayload rs m r.member.payload := by
  obtain ⟨payload, constants, rfl, hpayload⟩ := relocateMember_inv h
  rw [alter_payload]
  cases payload with
  | none => exact .inl rfl
  | some bytes => exact .inr (hpayload bytes rfl)

end FatJar.Relocation
