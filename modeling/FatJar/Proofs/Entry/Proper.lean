import FatJar.Entry.Basic
import FatJar.Proofs.Entry.Kind
import FatJar.Proofs.Entry.Registrations

namespace FatJar

/-- A member whose kind is the one of its path and which has something to say. -/
structure Member.Proper (m : Member) : Prop where
  kind : m.kind = .ofPath m.path
  content : m.kind.isContent = true
  nonempty : m.payload ≠ []
  registers : m.kind = .serviceFile → Registrations.Registers m.payload

theorem Member.Proper.join {m : Member} (h : m.Proper) (hk : m.kind = .serviceFile) (more : Bytes) :
    Proper { m with payload := Registrations.merge [m.payload, more] } := by
  have hfirst : m.payload ∈ [m.payload, more] := List.mem_cons_self
  have hne := Registrations.merge_ne_nil hfirst (h.registers hk)
  exact ⟨h.kind, h.content, hne, fun _ => Registrations.registers_merge hne⟩

end FatJar
