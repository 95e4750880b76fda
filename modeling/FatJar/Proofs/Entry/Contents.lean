import FatJar.Entry.Contents
import FatJar.Proofs.Text.Utf8
import Mathlib.Data.List.Perm.Basic

namespace FatJar

theorem Member.path_of_key {m n : Member} (h : m.key = n.key) : m.path = n.path :=
  utf8_injective h

theorem insertMember?_eq_none_iff {m : Member} {ms : List Member} (hs : InOrder ms) :
    insertMember? m ms = none ↔ ∃ x ∈ ms, x.key = m.key := by
  induction ms with
  | nil => simp [insertMember?]
  | cons y ys ih =>
    obtain ⟨hy, hys⟩ := List.pairwise_cons.mp hs
    simp only [insertMember?]
    split
    · next hlt =>
      -- All that follows is larger, so the key is not among them.
      have hne : ∀ x ∈ y :: ys, x.key ≠ m.key := by
        intro x hx he
        obtain rfl | hx := List.mem_cons.mp hx
        · exact List.lt_irrefl _ (he ▸ hlt)
        · exact List.lt_irrefl _ (List.lt_trans hlt (he ▸ hy x hx))
      simpa using hne
    · split
      · next he => simp [he]
      · next he =>
        have hm : y.key ≠ m.key := fun h => he h.symm
        simp [ih hys, hm]

theorem perm_of_insertMember? {m : Member} {ms ns : List Member}
    (h : insertMember? m ms = some ns) : ns.Perm (m :: ms) := by
  induction ms generalizing ns with
  | nil =>
    simp only [insertMember?, Option.some.injEq] at h
    subst h
    exact List.Perm.refl _
  | cons y ys ih =>
    simp only [insertMember?] at h
    split at h
    · simp only [Option.some.injEq] at h
      subst h
      exact List.Perm.refl _
    · split at h
      · simp at h
      · obtain ⟨zs, hz, rfl⟩ := Option.map_eq_some_iff.mp h
        exact ((ih hz).cons y).trans (List.Perm.swap m y ys)

theorem InOrder.nodup {ms : List Member} (h : InOrder ms) : ms.Nodup := by
  refine List.Pairwise.imp ?_ h
  rintro a b hab rfl
  exact List.lt_irrefl _ hab

theorem InOrder.eq_of_mem_iff {ms ns : List Member} (hm : InOrder ms) (hn : InOrder ns)
    (h : ∀ x, x ∈ ms ↔ x ∈ ns) : ms = ns := by
  have hp : ms.Perm ns := (List.perm_ext_iff_of_nodup hm.nodup hn.nodup).mpr h
  refine hp.eq_of_pairwise ?_ hm hn
  intro a b _ _ hab hba
  exact absurd (List.lt_trans hab hba) (List.lt_irrefl _)

namespace Contents

variable {c d : Contents} {m n : Member} {path : String}

theorem eq_of_mem_iff (h : ∀ x, x ∈ c.members ↔ x ∈ d.members) : c = d := by
  have hmembers := c.inOrder.eq_of_mem_iff d.inOrder h
  cases c
  cases d
  cases hmembers
  rfl

theorem eq_of_path (hm : m ∈ c.members) (hn : n ∈ c.members) (h : m.path = n.path) : m = n := by
  have hk : m.key = n.key := congrArg utf8 h
  have hp := List.pairwise_iff_getElem.mp c.inOrder
  by_contra hne
  obtain ⟨i, hi, rfl⟩ := List.getElem_of_mem hm
  obtain ⟨j, hj, rfl⟩ := List.getElem_of_mem hn
  obtain hij | rfl | hij := Nat.lt_trichotomy i j
  · exact List.lt_irrefl _ (hk ▸ hp i j hi hj hij)
  · exact hne rfl
  · exact List.lt_irrefl _ (hk ▸ hp j i hj hi hij)

theorem get?_eq_some_iff : c.get? path = some m ↔ m ∈ c.members ∧ m.path = path := by
  constructor
  · intro h
    exact ⟨List.mem_of_find?_eq_some h, by simpa using List.find?_some h⟩
  · rintro ⟨hm, rfl⟩
    cases hg : c.get? m.path with
    | none =>
      have hno := List.find?_eq_none.mp hg m hm
      simp at hno
    | some n =>
      have hn : n.path = m.path := by simpa using List.find?_some hg
      rw [eq_of_path (List.mem_of_find?_eq_some hg) hm hn]

@[simp]
theorem members_empty : empty.members = [] :=
  rfl

@[simp]
theorem get?_empty (path : String) : empty.get? path = none :=
  rfl

theorem insert?_eq_none_iff : c.insert? m = none ↔ ∃ x, c.get? m.path = some x := by
  have hkey : (∃ x ∈ c.members, x.key = m.key) ↔ ∃ x, c.get? m.path = some x := by
    constructor
    · rintro ⟨x, hx, hk⟩
      exact ⟨x, get?_eq_some_iff.mpr ⟨hx, Member.path_of_key hk⟩⟩
    · rintro ⟨x, hx⟩
      obtain ⟨hx, hp⟩ := get?_eq_some_iff.mp hx
      exact ⟨x, hx, congrArg utf8 hp⟩
  rw [← hkey, ← insertMember?_eq_none_iff c.inOrder]
  unfold insert?
  split
  · next h => simp [h]
  · next h => simp [h]

theorem perm_of_insert? (h : c.insert? m = some d) : d.members.Perm (m :: c.members) := by
  unfold insert? at h
  split at h
  · simp at h
  · next hm =>
    simp only [Option.some.injEq] at h
    subst h
    exact perm_of_insertMember? hm

theorem mem_of_insert? (h : c.insert? m = some d) : n ∈ d.members ↔ n = m ∨ n ∈ c.members := by
  rw [(perm_of_insert? h).mem_iff, List.mem_cons]

theorem length_of_insert? (h : c.insert? m = some d) :
    d.members.length = c.members.length + 1 := by
  simpa using (perm_of_insert? h).length_eq

theorem get?_of_insert? (h : c.insert? m = some d) (path : String) :
    d.get? path = if m.path = path then some m else c.get? path := by
  split
  · next hp => exact get?_eq_some_iff.mpr ⟨(mem_of_insert? h).mpr (.inl rfl), hp⟩
  · next hp =>
    apply Option.ext
    intro x
    rw [get?_eq_some_iff, get?_eq_some_iff, mem_of_insert? h]
    constructor
    · rintro ⟨rfl | hx, hpx⟩
      · exact absurd hpx hp
      · exact ⟨hx, hpx⟩
    · rintro ⟨hx, hpx⟩
      exact ⟨.inr hx, hpx⟩

theorem withPayload_path (path : String) (payload : Bytes) (m : Member) :
    (withPayload path payload m).path = m.path := by
  unfold withPayload
  split <;> rfl

@[simp]
theorem length_setPayload (c : Contents) (path : String) (payload : Bytes) :
    (c.setPayload path payload).members.length = c.members.length := by
  simp [setPayload]

theorem mem_of_mem_setPayload {payload : Bytes} (h : m ∈ (c.setPayload path payload).members) :
    m ∈ c.members ∨ ∃ x ∈ c.members, x.path = path ∧ m = { x with payload } := by
  obtain ⟨x, hx, rfl⟩ := List.mem_map.mp h
  unfold withPayload
  split
  · next hp => exact .inr ⟨x, hx, hp, rfl⟩
  · exact .inl hx

theorem get?_setPayload (c : Contents) (path : String) (payload : Bytes) (p : String) :
    (c.setPayload path payload).get? p =
      (c.get? p).map fun m => if p = path then { m with payload } else m := by
  unfold get? setPayload
  rw [List.find?_map]
  have hf : ((fun m : Member => m.path == p) ∘ withPayload path payload) =
      fun m => m.path == p := by
    funext m
    simp [withPayload_path]
  rw [hf]
  cases hg : c.members.find? (fun m => m.path == p) with
  | none => rfl
  | some m =>
    have hm : m.path = p := by simpa using List.find?_some hg
    simp [withPayload, hm]

end Contents

end FatJar
