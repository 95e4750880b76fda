import FatJar.Proofs.Entry.Contents
import FatJar.Relocation.Relocator
import Mathlib.Data.List.Pairwise

namespace FatJar.Relocation

def joinAll : List Member → Option Member
  | [] => none
  | m :: ms =>
    some { m with
      payload := ms.foldl (fun payload n => Registrations.merge [payload, n.payload]) m.payload }

@[simp]
theorem joinAll_eq_none_iff {ms : List Member} : joinAll ms = none ↔ ms = [] := by
  cases ms <;> simp [joinAll]

theorem joinAll_append_singleton {ms : List Member} {x : Member} (h : joinAll ms = some x)
    (n : Member) :
    joinAll (ms ++ [n]) = some { x with payload := Registrations.merge [x.payload, n.payload] } := by
  cases ms with
  | nil => simp [joinAll] at h
  | cons m ms =>
    obtain rfl := Option.some.inj h
    simp [joinAll]

def comeTo (done : List Relocated) (path : String) : List Member :=
  (done.map (·.member)).filter (·.path == path)

theorem mem_comeTo {done : List Relocated} {path : String} {m : Member} :
    m ∈ comeTo done path ↔ (∃ r ∈ done, r.member = m) ∧ m.path = path := by
  simp [comeTo]

/-- Two members can be put into the output together: service files even at one path. -/
def Compatible (a b : Relocated) : Prop :=
  a.member.path = b.member.path → a.member.kind = .serviceFile ∧ b.member.kind = .serviceFile

instance : Std.Symm Compatible :=
  ⟨fun _ _ h hp => (h hp.symm).symm⟩

/-- What an outcome has to be after the relocated members `done`. -/
structure Outcome.Holds (done : List Relocated) (o : Outcome) : Prop where
  joined : ∀ path, o.contents.get? path = joinAll (comeTo done path)
  count : o.contents.members.length + o.stats.servicesMerged = done.length
  compatible : done.Pairwise Compatible

theorem Stats.servicesMerged_count (s : Stats) (r : Relocated) :
    (s.count r).servicesMerged = s.servicesMerged := by
  unfold Stats.count
  split <;> rfl

namespace Outcome

variable {done : List Relocated} {o : Outcome} {r : Relocated} {x : Member}

theorem holds_nil : Holds [] {} where
  joined := by simp [comeTo, joinAll]
  count := rfl
  compatible := List.Pairwise.nil

theorem comeTo_append_self : comeTo (done ++ [r]) r.member.path =
    comeTo done r.member.path ++ [r.member] := by
  simp [comeTo]

theorem comeTo_append_of_ne {path : String} (h : r.member.path ≠ path) :
    comeTo (done ++ [r]) path = comeTo done path := by
  simp [comeTo, h]

theorem pairwise_append_singleton (h : done.Pairwise Compatible) (hr : ∀ a ∈ done, Compatible a r) :
    (done ++ [r]).Pairwise Compatible := by
  refine List.pairwise_append.mpr ⟨h, List.pairwise_singleton _ _, ?_⟩
  intro a ha b hb
  rw [List.mem_singleton.mp hb]
  exact hr a ha

theorem Holds.exists_first (h : Holds done o) {path : String} (hx : o.contents.get? path = some x) :
    ∃ a ∈ done, a.member.path = path ∧ a.member.kind = x.kind := by
  rw [h.joined] at hx
  cases hc : comeTo done path with
  | nil => simp [hc, joinAll] at hx
  | cons m ms =>
    rw [hc] at hx
    obtain rfl := Option.some.inj hx
    have hm : m ∈ comeTo done path := hc ▸ List.mem_cons_self
    obtain ⟨⟨a, ha, rfl⟩, hp⟩ := mem_comeTo.mp hm
    exact ⟨a, ha, hp, rfl⟩

theorem Holds.services (h : Holds done o) {a b : Relocated} (ha : a ∈ done) (hb : b ∈ done)
    (hp : a.member.path = b.member.path) (hk : a.member.kind = .serviceFile) :
    b.member.kind = .serviceFile := by
  by_cases hab : a = b
  · exact hab ▸ hk
  · exact (h.compatible.forall ha hb hab hp).2

theorem Holds.insert (h : Holds done o) {contents : Contents}
    (hi : o.contents.insert? r.member = some contents) {stats : Stats}
    (hs : stats.servicesMerged = o.stats.servicesMerged) :
    Holds (done ++ [r]) ⟨contents, stats⟩ := by
  have hfree : comeTo done r.member.path = [] := by
    rw [← joinAll_eq_none_iff, ← h.joined, Option.eq_none_iff_forall_ne_some]
    intro x hx
    rw [Contents.insert?_eq_none_iff.mpr ⟨x, hx⟩] at hi
    simp at hi
  constructor
  · intro path
    rw [Contents.get?_of_insert? hi]
    split
    · next hp =>
      subst hp
      rw [comeTo_append_self, hfree]
      rfl
    · next hp => rw [comeTo_append_of_ne hp, h.joined]
  · have hlength := Contents.length_of_insert? hi
    have hcount := h.count
    simp only [hs, List.length_append, List.length_singleton]
    omega
  · refine pairwise_append_singleton h.compatible fun a ha hp => ?_
    have hm : a.member ∈ comeTo done r.member.path := mem_comeTo.mpr ⟨⟨a, ha, rfl⟩, hp⟩
    simp [hfree] at hm

theorem Holds.join (h : Holds done o) (hx : o.contents.get? r.member.path = some x)
    (hxk : x.kind = .serviceFile) (hrk : r.member.kind = .serviceFile) {stats : Stats}
    (hs : stats.servicesMerged = o.stats.servicesMerged + 1) :
    Holds (done ++ [r])
      ⟨o.contents.setPayload r.member.path (Registrations.merge [x.payload, r.member.payload]),
        stats⟩ := by
  constructor
  · intro path
    rw [Contents.get?_setPayload]
    by_cases hp : r.member.path = path
    · subst hp
      rw [hx, comeTo_append_self, joinAll_append_singleton (h.joined _ ▸ hx)]
      simp
    · rw [comeTo_append_of_ne hp, ← h.joined]
      simp [Ne.symm hp]
  · have hcount := h.count
    simp only [hs, Contents.length_setPayload, List.length_append, List.length_singleton]
    omega
  · refine pairwise_append_singleton h.compatible fun a ha hp => ⟨?_, hrk⟩
    obtain ⟨b, hb, hbp, hbk⟩ := h.exists_first hx
    exact h.services hb ha (hbp.trans hp.symm) (hbk.trans hxk)

/-- One more member is taken in unless it cannot share its path with one of those before. -/
theorem Holds.add (h : Holds done o) (rs : RuleSet) (r : Relocated) :
    (∃ o', o.add rs r = .ok o' ∧ Holds (done ++ [r]) o') ∨
      ∃ f, o.add rs r = .error f ∧ f.obstacle = .collision r.member.origin ∧
        ∃ a ∈ done, ¬ Compatible a r := by
  have hs := Stats.servicesMerged_count o.stats r
  unfold Outcome.add
  cases hi : o.contents.insert? r.member with
  | some contents => exact .inl ⟨_, rfl, h.insert hi hs⟩
  | none =>
    obtain ⟨x, hx⟩ := Contents.insert?_eq_none_iff.mp hi
    rw [hx]
    by_cases hk : x.kind = .serviceFile ∧ r.member.kind = .serviceFile
    · left
      refine ⟨_, by simp only [hk, decide_true, Bool.and_self, if_true]; rfl, ?_⟩
      exact h.join hx hk.1 hk.2 (by simp [hs])
    · right
      obtain ⟨a, ha, hp, hak⟩ := h.exists_first hx
      refine ⟨_, if_neg (by simpa using hk), rfl, a, ha, fun hc => hk ?_⟩
      rw [← hak]
      exact hc hp

theorem Holds.addAll (h : Holds done o) (rs : RuleSet) (todo : List Relocated) :
    (∃ o', todo.foldlM (Outcome.add rs) o = .ok o' ∧ Holds (done ++ todo) o') ∨
      ∃ f origin, todo.foldlM (Outcome.add rs) o = .error f ∧ f.obstacle = .collision origin ∧
        ¬ (done ++ todo).Pairwise Compatible := by
  induction todo generalizing done o with
  | nil => exact .inl ⟨o, rfl, by simpa using h⟩
  | cons r todo ih =>
    have hassoc : done ++ r :: todo = (done ++ [r]) ++ todo := by simp
    rw [List.foldlM_cons, hassoc]
    obtain ⟨o', ho, hholds⟩ | ⟨f, hf, hobstacle, a, ha, hbad⟩ := h.add rs r
    · rw [ho]
      exact ih hholds
    · right
      rw [hf]
      refine ⟨f, _, rfl, hobstacle, fun hp => hbad ?_⟩
      have hfirst := (List.pairwise_append.mp hp).1
      exact (List.pairwise_append.mp hfirst).2.2 a ha r (by simp)

end Outcome

end FatJar.Relocation
