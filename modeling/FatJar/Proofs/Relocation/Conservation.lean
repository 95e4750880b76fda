import FatJar.Error
import FatJar.Proofs.Lists
import FatJar.Proofs.Relocation.Members
import FatJar.Proofs.Relocation.Pass

namespace FatJar.Relocation

/-- The member that a result brings to a path, either moving it there or not. -/
def broughtTo? (moved : Bool) (path : String) : Except Failure Relocated → Option Member
  | .error _ => none
  | .ok r => if r.moved = moved ∧ r.member.path = path then some r.member else none

/-- Two results that can be put into the output together. -/
def Meet (x y : Except Failure Relocated) : Prop :=
  ∀ r r', x = .ok r → y = .ok r' → Compatible r r'

instance : Std.Symm Meet :=
  ⟨fun _ _ h r r' hr hr' => Std.Symm.symm _ _ (h r' r hr' hr)⟩

variable (accepts : Bytes → Bool) (rs : RuleSet)

/-- What comes to lie at a path in the relocation of `c`, either moved there or not, in the order of
the old paths. -/
def arriving (c : Contents) (moved : Bool) (path : String) : List Member :=
  c.members.filterMap fun e => broughtTo? moved path (relocateMember accepts rs e)

def MeetWell (e e' : Member) : Prop :=
  Meet (relocateMember accepts rs e) (relocateMember accepts rs e')

instance : Std.Symm (MeetWell accepts rs) :=
  ⟨fun e e' h => Std.Symm.symm (r := Meet) (relocateMember accepts rs e)
    (relocateMember accepts rs e') h⟩

variable {accepts rs} {c : Contents} {o : Outcome} {e : Member} {r : Relocated}
  {all : List Relocated}

def stayedFirst (all : List Relocated) : List Relocated :=
  all.filter (!·.moved) ++ all.filter (·.moved)

theorem stayedFirst_perm (all : List Relocated) : (stayedFirst all).Perm all := by
  have h := List.filter_append_perm (fun r : Relocated => !r.moved) all
  simpa [stayedFirst] using h

theorem filterMap_broughtTo? (moved : Bool) (path : String) (all : List Relocated) :
    (all.map .ok).filterMap (broughtTo? moved path) = comeTo (all.filter (·.moved == moved)) path := by
  induction all with
  | nil => rfl
  | cons r all ih =>
    rw [List.map_cons, List.filterMap_cons, ih]
    by_cases hm : r.moved = moved <;> by_cases hp : r.member.path = path <;>
      simp [broughtTo?, comeTo, hm, hp]

theorem arriving_eq (h : c.members.map (relocateMember accepts rs) = all.map .ok) (moved : Bool)
    (path : String) :
    arriving accepts rs c moved path = comeTo (all.filter (·.moved == moved)) path := by
  rw [← filterMap_broughtTo?, ← h, List.filterMap_map]
  rfl

theorem comeTo_stayedFirst (h : c.members.map (relocateMember accepts rs) = all.map .ok)
    (path : String) :
    comeTo (stayedFirst all) path =
      arriving accepts rs c false path ++ arriving accepts rs c true path := by
  rw [arriving_eq h, arriving_eq h]
  simp [comeTo, stayedFirst]

theorem meetWell_of_pairwise (h : c.members.map (relocateMember accepts rs) = all.map .ok)
    (hc : (stayedFirst all).Pairwise Compatible) {e' : Member} (he : e ∈ c.members)
    (he' : e' ∈ c.members) (hne : e ≠ e') : MeetWell accepts rs e e' := by
  have hall : all.Pairwise Compatible :=
    ((stayedFirst_perm all).pairwise_iff (Std.Symm.symm _ _)).mp hc
  have hmeet : (all.map Except.ok).Pairwise Meet := by
    refine List.pairwise_map.mpr (hall.imp ?_)
    intro a b hab r r' hr hr'
    rw [← Except.ok.inj hr, ← Except.ok.inj hr']
    exact hab
  rw [← h] at hmeet
  have hmembers : c.members.Pairwise (MeetWell accepts rs) := by
    apply List.Pairwise.imp _ (List.pairwise_map.mp hmeet)
    exact id
  exact hmembers.forall he he' hne

theorem arriving_of_sole (he : e ∈ c.members) (hr : relocateMember accepts rs e = .ok r)
    (hsole : ∀ x ∈ c.members, x ≠ e → ∀ r', relocateMember accepts rs x = .ok r' →
      r'.member.path ≠ r.member.path) :
    arriving accepts rs c false r.member.path ++ arriving accepts rs c true r.member.path =
      [r.member] := by
  have harrive : ∀ moved, arriving accepts rs c moved r.member.path =
      if r.moved = moved then [r.member] else [] := by
    intro moved
    unfold arriving
    rw [filterMap_of_sole c.inOrder.nodup he]
    · by_cases hm : r.moved = moved <;> simp [hr, hm, broughtTo?]
    · intro x hx hne
      cases hr' : relocateMember accepts rs x with
      | error f => rfl
      | ok r' => exact if_neg fun h => hsole x hx hne r' hr' h.2
  rw [harrive, harrive]
  cases r.moved <;> rfl

theorem length_arriving_false (path : String) : (arriving accepts rs c false path).length ≤ 1 := by
  have hstay : ∀ x r, relocateMember accepts rs x = .ok r → r.moved = false ∧ r.member.path = path →
      x.path = path := fun x r hr h => (path_of_unmoved hr h.1).symm.trans h.2
  by_cases hold : ∃ e ∈ c.members, e.path = path
  · obtain ⟨e, he, hep⟩ := hold
    unfold arriving
    rw [filterMap_of_sole c.inOrder.nodup he]
    · exact Option.length_toList_le
    · intro x hx hne
      cases hr : relocateMember accepts rs x with
      | error f => rfl
      | ok r =>
        refine if_neg fun h => hne ?_
        exact Contents.eq_of_path hx he ((hstay x r hr h).trans hep.symm)
  · have hnil : arriving accepts rs c false path = [] := by
      refine List.filterMap_eq_nil_iff.mpr fun x hx => ?_
      cases hr : relocateMember accepts rs x with
      | error f => rfl
      | ok r => exact if_neg fun h => hold ⟨x, hx, hstay x r hr h⟩
    simp [hnil]

/-- What relocation makes of contents as a whole. -/
structure Conserves (accepts : Bytes → Bool) (rs : RuleSet) (c : Contents) (o : Outcome) : Prop where
  kept : ∀ e ∈ c.members, ∃ r, relocateMember accepts rs e = .ok r ∧
    (e.kind ≠ .serviceFile → o.contents.get? r.member.path = some r.member)
  nothingElse : ∀ m ∈ o.contents.members, ∃ e ∈ c.members, ∃ r,
    relocateMember accepts rs e = .ok r ∧ r.member.path = m.path ∧ e.kind = m.kind
  count : o.contents.members.length + o.stats.servicesMerged = c.members.length
  meeting : ∀ e ∈ c.members, ∀ e' ∈ c.members, e ≠ e' → ∀ r r',
    relocateMember accepts rs e = .ok r → relocateMember accepts rs e' = .ok r' →
      r.member.path = r'.member.path → e.kind = .serviceFile ∧ e'.kind = .serviceFile
  joined : ∀ path, o.contents.get? path =
    joinAll (arriving accepts rs c false path ++ arriving accepts rs c true path)
  stayed : ∀ path, (arriving accepts rs c false path).length ≤ 1
  untouched : ∀ e ∈ c.members, ∀ r, relocateMember accepts rs e = .ok r → r.moved = false →
    rs.mentions e = false →
    (∀ e' ∈ c.members, ∀ r', relocateMember accepts rs e' = .ok r' → r'.member.path = e.path →
      e' = e) →
    o.contents.get? e.path = some e

theorem MeetWell.kinds {e' : Member} {r' : Relocated} (h : MeetWell accepts rs e e')
    (hr : relocateMember accepts rs e = .ok r) (hr' : relocateMember accepts rs e' = .ok r')
    (hp : r.member.path = r'.member.path) : e.kind = .serviceFile ∧ e'.kind = .serviceFile := by
  rw [← kind_of_relocateMember hr, ← kind_of_relocateMember hr']
  exact h r r' hr hr' hp

theorem Outcome.Holds.conserves (hall : c.members.map (relocateMember accepts rs) = all.map .ok)
    (h : Outcome.Holds (stayedFirst all) o) : Conserves accepts rs c o := by
  have hget : ∀ path, o.contents.get? path =
      joinAll (arriving accepts rs c false path ++ arriving accepts rs c true path) := by
    intro path
    rw [← comeTo_stayedFirst hall, h.joined]
  have hresult : ∀ e ∈ c.members, ∃ r, relocateMember accepts rs e = .ok r := by
    intro e he
    have hmem : relocateMember accepts rs e ∈ all.map Except.ok := hall ▸ List.mem_map_of_mem he
    obtain ⟨r, -, hr⟩ := List.mem_map.mp hmem
    exact ⟨r, hr.symm⟩
  have hmeeting : ∀ e ∈ c.members, ∀ e' ∈ c.members, e ≠ e' → MeetWell accepts rs e e' :=
    fun e he e' he' hne => meetWell_of_pairwise hall h.compatible he he' hne
  constructor
  · intro e he
    obtain ⟨r, hr⟩ := hresult e he
    refine ⟨r, hr, fun hk => ?_⟩
    rw [hget, arriving_of_sole he hr]
    · rfl
    · intro x hx hne r' hr' hp
      exact hk ((hmeeting x hx e he hne).kinds hr' hr hp).2
  · intro m hm
    obtain ⟨a, ha, hp, hk⟩ := h.exists_first (Contents.get?_eq_some_iff.mpr ⟨hm, rfl⟩)
    have hmem : Except.ok a ∈ c.members.map (relocateMember accepts rs) :=
      hall ▸ List.mem_map_of_mem ((stayedFirst_perm all).mem_iff.mp ha)
    obtain ⟨e, he, hr⟩ := List.mem_map.mp hmem
    exact ⟨e, he, a, hr, hp, (kind_of_relocateMember hr).symm.trans hk⟩
  · have hlength := congrArg List.length hall
    rw [List.length_map, List.length_map] at hlength
    rw [h.count, (stayedFirst_perm all).length_eq, hlength]
  · intro e he e' he' hne r r' hr hr' hp
    exact (hmeeting e he e' he' hne).kinds hr hr' hp
  · exact hget
  · exact length_arriving_false
  · intro e he r hr hm hn halone
    have hre : r.member = e := eq_of_unmentioned hr hm hn
    have hsole := arriving_of_sole he hr fun x hx hne r' hr' hp =>
      hne (halone x hx r' hr' (hp.trans (congrArg Member.path hre)))
    rw [hre] at hsole
    rw [hget, hsole]
    rfl

theorem relocateWith_eq (hall : c.members.map (relocateMember accepts rs) = all.map .ok) :
    relocateWith accepts rs c = (stayedFirst all).foldlM (Outcome.add rs) {} := by
  unfold relocateWith
  rw [mapM_eq_ok_iff.mpr hall]
  rfl

theorem relocateWith_eq_ok (h : relocateWith accepts rs c = .ok o) :
    ∃ all, c.members.map (relocateMember accepts rs) = all.map .ok ∧
      (stayedFirst all).foldlM (Outcome.add rs) {} = .ok o := by
  cases hall : c.members.mapM (relocateMember accepts rs) with
  | error f =>
    unfold relocateWith at h
    rw [hall] at h
    simp [bind, Except.bind] at h
  | ok all =>
    have hmap := mapM_eq_ok_iff.mp hall
    exact ⟨all, hmap, (relocateWith_eq hmap).symm.trans h⟩

theorem conserves_of_relocateWith (h : relocateWith accepts rs c = .ok o) :
    Conserves accepts rs c o := by
  obtain ⟨all, hall, hpass⟩ := relocateWith_eq_ok h
  rcases Outcome.holds_nil.addAll rs (stayedFirst all) with
    ⟨o', ho, hholds⟩ | ⟨f, origin, hf, -, -⟩
  · obtain rfl := Except.ok.inj (ho.symm.trans hpass)
    exact hholds.conserves hall
  · simp [hf] at hpass

/-- Relocation conserves its contents; but where members meet that are not all service files, it is a
failure that tells so. -/
theorem relocation_conserves (accepts : Bytes → Bool) (rs : RuleSet) (c : Contents) :
    (∀ o, relocateWith accepts rs c = .ok o → Conserves accepts rs c o) ∧
      ((∀ e ∈ c.members, ∃ r, relocateMember accepts rs e = .ok r) →
        ∀ e ∈ c.members, ∀ e' ∈ c.members, e ≠ e' → ∀ r r',
          relocateMember accepts rs e = .ok r → relocateMember accepts rs e' = .ok r' →
          r.member.path = r'.member.path → (e.kind ≠ .serviceFile ∨ e'.kind ≠ .serviceFile) →
          ∃ f origin, relocateWith accepts rs c = .error f ∧ f.obstacle = .collision origin ∧
            (AssemblyError.relocation f).kind = .inconsistentRelocation) := by
  refine ⟨fun o => conserves_of_relocateWith, ?_⟩
  intro hresult e he e' he' hne r r' hr hr' hp hk
  obtain ⟨all, hall⟩ := exists_map_eq_ok hresult
  rcases Outcome.holds_nil.addAll rs (stayedFirst all) with
    ⟨o, ho, hholds⟩ | ⟨f, origin, hf, hobstacle, -⟩
  · have hservices := (meetWell_of_pairwise hall hholds.compatible he he' hne).kinds hr hr' hp
    obtain hk | hk := hk
    · exact absurd hservices.1 hk
    · exact absurd hservices.2 hk
  · exact ⟨f, origin, (relocateWith_eq hall).trans hf, hobstacle, rfl⟩

def shading : RuleSet :=
  ⟨[⟨"lib", "shaded"⟩], by decide⟩

def vendoredCodec : Member :=
  ⟨"META-INF/services/lib.Codec", .serviceFile, utf8 "lib.B\n", { name := "lib" }⟩

def shadedCodec : Member :=
  ⟨"META-INF/services/shaded.Codec", .serviceFile, utf8 "app.A\n", { name := "app" }⟩

def codecs : Contents :=
  ⟨[vendoredCodec, shadedCodec], by unfold InOrder; decide⟩

def vendoredText : Member :=
  ⟨"lib/a.txt", .resource, [], { name := "lib" }⟩

def shadedText : Member :=
  ⟨"shaded/a.txt", .resource, [], { name := "app" }⟩

def texts : Contents :=
  ⟨[vendoredText, shadedText], by unfold InOrder; decide⟩

theorem codecs_joined_texts_refused :
    (∃ o, relocateWith (fun _ => true) shading codecs = .ok o ∧
        Conserves (fun _ => true) shading codecs o ∧
        o.contents.members = [{ shadedCodec with payload := utf8 "app.A\nshaded.B\n" }]) ∧
      ∃ f origin, relocateWith (fun _ => true) shading texts = .error f ∧
        f.obstacle = .collision origin ∧
        (AssemblyError.relocation f).kind = .inconsistentRelocation := by
  constructor
  · have hrun : (relocateWith (fun _ => true) shading codecs).toOption.map (·.contents.members) =
        some [{ shadedCodec with payload := utf8 "app.A\nshaded.B\n" }] := by decide +kernel
    cases ho : relocateWith (fun _ => true) shading codecs with
    | error f => simp [ho, Except.toOption] at hrun
    | ok o =>
      rw [ho] at hrun
      exact ⟨o, rfl, (relocation_conserves _ _ _).1 o ho, Option.some.inj hrun⟩
  · have hmoved : relocateMember (fun _ => true) shading vendoredText =
        .ok { member := { vendoredText with path := "shaded/a.txt" }, moved := true } := by
      decide +kernel
    have hstayed : relocateMember (fun _ => true) shading shadedText =
        .ok { member := shadedText } := by
      decide +kernel
    refine (relocation_conserves _ _ texts).2 ?_ vendoredText (by decide) shadedText (by decide)
      (by decide) _ _ hmoved hstayed rfl (by decide)
    intro e he
    obtain rfl | rfl := List.mem_pair.mp he
    · exact ⟨_, hmoved⟩
    · exact ⟨_, hstayed⟩

end FatJar.Relocation
