import FatJar.Entry.Basic

namespace FatJar

def insertMember? (m : Member) : List Member → Option (List Member)
  | [] => some [m]
  | x :: xs =>
    if m.key < x.key then some (m :: x :: xs)
    else if m.key = x.key then none
    else (insertMember? m xs).map (x :: ·)

theorem mem_of_insertMember? {m x : Member} {ms ns : List Member}
    (h : insertMember? m ms = some ns) (hx : x ∈ ns) : x = m ∨ x ∈ ms := by
  induction ms generalizing ns with
  | nil =>
    simp only [insertMember?, Option.some.injEq] at h
    subst h
    simpa using hx
  | cons y ys ih =>
    simp only [insertMember?] at h
    split at h
    · simp only [Option.some.injEq] at h
      subst h
      simpa using hx
    · split at h
      · simp at h
      · obtain ⟨zs, hz, rfl⟩ := Option.map_eq_some_iff.mp h
        obtain rfl | hx := List.mem_cons.mp hx
        · simp
        · obtain rfl | hx := ih hz hx
          · simp
          · simp [hx]

def InOrder (ms : List Member) : Prop :=
  ms.Pairwise fun a b => a.key < b.key

theorem InOrder.insertMember? {m : Member} {ms ns : List Member} (hs : InOrder ms)
    (h : insertMember? m ms = some ns) : InOrder ns := by
  induction ms generalizing ns with
  | nil =>
    simp only [FatJar.insertMember?, Option.some.injEq] at h
    subst h
    simp [InOrder]
  | cons y ys ih =>
    obtain ⟨hy, hys⟩ := List.pairwise_cons.mp hs
    simp only [FatJar.insertMember?] at h
    split at h
    · next hlt =>
      simp only [Option.some.injEq] at h
      subst h
      refine List.pairwise_cons.mpr ⟨?_, hs⟩
      intro x hx
      obtain rfl | hx := List.mem_cons.mp hx
      · exact hlt
      · exact List.lt_trans hlt (hy x hx)
    · next hlt =>
      split at h
      · simp at h
      · next hne =>
        obtain ⟨zs, hz, rfl⟩ := Option.map_eq_some_iff.mp h
        refine List.pairwise_cons.mpr ⟨?_, ih hys hz⟩
        intro x hx
        obtain rfl | hx := mem_of_insertMember? hz hx
        · exact Std.lt_of_le_of_ne (List.not_lt.mp hlt) (fun e => hne e.symm)
        · exact hy x hx

structure Contents where
  members : List Member
  inOrder : InOrder members

namespace Contents

def empty : Contents :=
  ⟨[], List.Pairwise.nil⟩

def insert? (c : Contents) (m : Member) : Option Contents :=
  match h : insertMember? m c.members with
  | none => none
  | some ms => some ⟨ms, c.inOrder.insertMember? h⟩

def get? (c : Contents) (path : String) : Option Member :=
  c.members.find? (·.path == path)

def contains (c : Contents) (path : String) : Bool :=
  (c.get? path).isSome

def paths (c : Contents) : List String :=
  c.members.map (·.path)

def withPayload (path : String) (payload : Bytes) (m : Member) : Member :=
  if m.path = path then { m with payload } else m

theorem key_withPayload (path : String) (payload : Bytes) (m : Member) :
    (withPayload path payload m).key = m.key := by
  unfold withPayload
  split <;> rfl

def setPayload (c : Contents) (path : String) (payload : Bytes) : Contents :=
  ⟨c.members.map (withPayload path payload), by
    have h := c.inOrder
    simp only [InOrder, List.pairwise_map, key_withPayload] at h ⊢
    exact h⟩

end Contents

end FatJar
