import FatJar.Proofs.Entry.Contents
import FatJar.Proofs.Lists

namespace FatJar.Contents

inductive Access where
  | insert (m : Member)
  | get (path : String)
  | contains (path : String)
  | setPayload (path : String) (payload : Bytes)
deriving DecidableEq, Repr

inductive Answer where
  | accepted
  | refused (m : Member)
  | found (m : Option Member)
  | present (b : Bool)
deriving DecidableEq, Repr

/-- The contents after an access, and what the access answers. A member that is looked for to give it a
payload is found as it was before. -/
def access (c : Contents) : Access → Contents × Answer
  | .insert m =>
    match c.insert? m with
    | some d => (d, .accepted)
    | none => (c, .refused m)
  | .get path => (c, .found (c.get? path))
  | .contains path => (c, .present (c.contains path))
  | .setPayload path payload =>
    if c.contains path then (c.setPayload path payload, .found (c.get? path)) else (c, .found none)

def after (as : List Access) : Contents :=
  as.foldl (fun c a => (c.access a).1) empty

namespace Access

/-- The member that is offered for `path`. -/
def offer? (path : String) : Access → Option Member
  | insert m => if m.path = path then some m else none
  | get _ | contains _ | setPayload _ _ => none

def payloadFor? (path : String) : Access → Option Bytes
  | setPayload p payload => if p = path then some payload else none
  | insert _ | get _ | contains _ => none

end Access

def offeredPaths (as : List Access) : List String :=
  as.filterMap fun
    | .insert m => some m.path
    | .get _ | .contains _ | .setPayload _ _ => none

/-- The member first offered for `path`, with the last payload given to it from then on. -/
def held? (path : String) : List Access → Option Member
  | [] => none
  | a :: as =>
    match a.offer? path with
    | some m => some { m with payload := (as.filterMap (·.payloadFor? path)).getLast?.getD m.payload }
    | none => held? path as

/-- The answer to an access that follows a history. -/
def reply (as : List Access) : Access → Answer
  | .insert m => if (held? m.path as).isSome then .refused m else .accepted
  | .get path => .found (held? path as)
  | .contains path => .present (held? path as).isSome
  | .setPayload path _ => .found (held? path as)

variable {c : Contents} {as : List Access} {a : Access} {path : String}

theorem held?_concat (as : List Access) (a : Access) (path : String) :
    held? path (as ++ [a]) =
      match held? path as with
      | some m => some { m with payload := (a.payloadFor? path).getD m.payload }
      | none => a.offer? path := by
  induction as with
  | nil =>
    simp only [List.nil_append, held?]
    cases a.offer? path <;> rfl
  | cons b as ih =>
    rw [List.cons_append, held?, held?]
    cases b.offer? path with
    | none => exact ih
    | some m =>
      rw [List.filterMap_append]
      cases hp : a.payloadFor? path <;> simp [hp]

theorem isSome_held?_iff : (held? path as).isSome = true ↔ path ∈ offeredPaths as := by
  induction as with
  | nil => simp [held?, offeredPaths]
  | cons a as ih =>
    rw [held?]
    cases a with
    | insert m =>
      by_cases hp : m.path = path
      · simp [Access.offer?, offeredPaths, hp]
      · have hp' : ¬ path = m.path := fun h => hp h.symm
        simpa [Access.offer?, offeredPaths, hp, hp'] using ih
    | get p | contains p | setPayload p payload => simpa [Access.offer?, offeredPaths] using ih

section Steps

theorem isSome_get? (c : Contents) (path : String) : (c.get? path).isSome = c.contains path :=
  rfl

theorem get?_access (c : Contents) (a : Access) (path : String) :
    (c.access a).1.get? path =
      match c.get? path with
      | some m => some { m with payload := (a.payloadFor? path).getD m.payload }
      | none => a.offer? path := by
  cases a with
  | insert m =>
    cases hi : c.insert? m with
    | none =>
      obtain ⟨x, hx⟩ := insert?_eq_none_iff.mp hi
      have hoffer : c.get? path = none → (Access.insert m).offer? path = none := by
        intro hnone
        refine if_neg fun hp => ?_
        rw [← hp, hx] at hnone
        cases hnone
      simp only [access, hi, Access.payloadFor?, Option.getD_none]
      cases hg : c.get? path with
      | none => exact (hoffer hg).symm
      | some y => rfl
    | some d =>
      simp only [access, hi, get?_of_insert? hi, Access.payloadFor?, Option.getD_none]
      cases hg : c.get? path with
      | none => rfl
      | some y =>
        refine if_neg fun hp => ?_
        rw [insert?_eq_none_iff.mpr ⟨y, hp ▸ hg⟩] at hi
        cases hi
  | get p | contains p =>
    rw [access]
    cases c.get? path <;> rfl
  | setPayload p payload =>
    by_cases hc : c.contains p = true
    · simp only [access, if_pos hc, get?_setPayload, Access.payloadFor?, Access.offer?]
      cases c.get? path with
      | none => rfl
      | some m =>
        by_cases hp : path = p
        · simp [hp]
        · have hp' : ¬ p = path := fun h => hp h.symm
          simp [hp, hp']
    · have hnone : c.get? p = none := by
        rw [← isSome_get?] at hc
        simpa using hc
      simp only [access, if_neg hc, Access.payloadFor?, Access.offer?]
      cases hg : c.get? path with
      | none => rfl
      | some m =>
        have hp : ¬ p = path := by
          rintro rfl
          rw [hnone] at hg
          cases hg
        simp [hp]

theorem access_insert (c : Contents) (m : Member) :
    c.access (.insert m) =
      if (c.get? m.path).isSome then (c, .refused m) else ((c.access (.insert m)).1, .accepted) := by
  cases hi : c.insert? m with
  | none =>
    obtain ⟨x, hx⟩ := insert?_eq_none_iff.mp hi
    simp [access, hi, hx]
  | some d =>
    have hnone : c.get? m.path = none := by
      refine Option.eq_none_iff_forall_ne_some.mpr fun x hx => ?_
      rw [insert?_eq_none_iff.mpr ⟨x, hx⟩] at hi
      cases hi
    simp [access, hi, hnone]

end Steps

section Histories

theorem after_concat (as : List Access) (a : Access) : after (as ++ [a]) = ((after as).access a).1 :=
  List.foldl_append

theorem get?_after (as : List Access) (path : String) : (after as).get? path = held? path as := by
  induction as using List.reverseRecOn with
  | nil => rfl
  | append_singleton as a ih => rw [after_concat, get?_access, ih, held?_concat]

theorem answer_after (as : List Access) (a : Access) : ((after as).access a).2 = reply as a := by
  cases a with
  | insert m =>
    rw [access_insert, get?_after, reply]
    split <;> rfl
  | get path => rw [access, reply, get?_after]
  | contains path => rw [access, reply, ← isSome_get?, get?_after]
  | setPayload path payload =>
    rw [access, reply, ← isSome_get?, get?_after]
    cases held? path as <;> rfl

theorem paths_inByteOrder (c : Contents) : c.paths.Pairwise fun p q => utf8 p < utf8 q :=
  List.pairwise_map.mpr c.inOrder

theorem nodup_paths (c : Contents) : c.paths.Nodup := by
  refine c.paths_inByteOrder.imp ?_
  rintro p q hlt rfl
  exact List.lt_irrefl _ hlt

theorem mem_paths_iff : path ∈ c.paths ↔ (c.get? path).isSome = true := by
  rw [Option.isSome_iff_exists, paths, List.mem_map]
  exact exists_congr fun m => get?_eq_some_iff.symm

theorem map_get?_paths (c : Contents) : c.paths.map c.get? = c.members.map some := by
  rw [paths, List.map_map]
  exact List.map_congr_left fun m hm => get?_eq_some_iff.mpr ⟨hm, rfl⟩

theorem paths_after_perm (as : List Access) : (after as).paths.Perm (offeredPaths as).eraseDups := by
  refine (List.perm_ext_iff_of_nodup (nodup_paths _) (nodup_eraseDups _)).mpr fun path => ?_
  rw [mem_paths_iff, get?_after, isSome_held?_iff, List.mem_eraseDups]

/-- After any history each path holds the member first put there with the payload last given to it, each
access is answered from the history, a refused member changes nothing, and the members are listed in the
order of the bytes of their paths, one for each path that a member was put at. -/
theorem first_insert_wins (as : List Access) :
    (∀ path, (after as).get? path = held? path as) ∧
      (∀ a, ((after as).access a).2 = reply as a) ∧
      (∀ m, (after as).access (.insert m) =
        if (held? m.path as).isSome then (after as, .refused m)
        else (after (as ++ [.insert m]), .accepted)) ∧
      (∀ path m, (after as).get? path = some m ↔ m ∈ (after as).members ∧ m.path = path) ∧
      (after as).paths.Pairwise (fun p q => utf8 p < utf8 q) ∧
      (after as).members.map some = (after as).paths.map (held? · as) ∧
      (after as).paths.Perm (offeredPaths as).eraseDups ∧
      (after as).members.length = (offeredPaths as).eraseDups.length := by
  refine ⟨get?_after as, answer_after as, fun m => ?_, fun path m => get?_eq_some_iff,
    paths_inByteOrder _, ?_, paths_after_perm as, ?_⟩
  · rw [access_insert, get?_after, after_concat]
  · rw [← map_get?_paths]
    exact List.map_congr_left fun path _ => get?_after as path
  · rw [← (paths_after_perm as).length_eq, paths, List.length_map]

end Histories

end FatJar.Contents
