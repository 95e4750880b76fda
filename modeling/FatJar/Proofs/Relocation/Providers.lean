import FatJar.Proofs.Entry.Kind
import FatJar.Proofs.Entry.Providers
import FatJar.Proofs.Relocation.Conservation
import FatJar.Proofs.Relocation.DottedNames
import FatJar.Proofs.Text.Lines

namespace FatJar.Relocation

open Registrations (Readable providers render)

structure IsProvider (name : List Char) : Prop where
  ne_nil : name ≠ []
  dotted : IsDotted name
  trimmed : trim name = name

theorem isProvider_iff {name : List Char} :
    IsProvider name ↔ name ≠ [] ∧ IsDotted name ∧ trim name = name :=
  ⟨fun h => ⟨h.ne_nil, h.dotted, h.trimmed⟩, fun h => ⟨h.1, h.2.1, h.2.2⟩⟩

instance (name : List Char) : Decidable (IsProvider name) :=
  decidable_of_iff _ isProvider_iff.symm

/-- A file for a service in which each provider has a line. -/
structure ListsProviders (m : Member) : Prop where
  service : (serviceName? m.path).isSome
  listed : ∃ names, m.payload = render names ∧ names.Nodup ∧ ∀ name ∈ names, IsProvider name

/-- The service files that come to be for a service, either moved or not, in the order of the old
paths. -/
def comingTo (rs : RuleSet) (c : Contents) (moved : Bool) (service : String) : List Member :=
  c.members.filter fun e => e.kind == .serviceFile && (serviceName? e.path).any fun old =>
    (rs.relocateName old).isSome == moved && rs.newName old == service

/-- All files for a service: the one that stays before those that are moved. -/
def filesFor (rs : RuleSet) (c : Contents) (service : String) : List Member :=
  comingTo rs c false service ++ comingTo rs c true service

def newProviders (rs : RuleSet) (e : Member) : List (List Char) :=
  (providers e.payload).map (renamed rs)

def providersFor (rs : RuleSet) (c : Contents) (service : String) : List (List Char) :=
  (filesFor rs c service).flatMap (newProviders rs)

section Names

variable {rs : RuleSet} {name : List Char} {c : Char}

theorem IsDotted.notMem (h : IsDotted name) (hdot : c ≠ '.') (hc : isClassNameChar c = false) :
    c ∉ name := by
  intro hmem
  rw [(h c hmem).resolve_left hdot] at hc
  cases hc

theorem IsProvider.readable (h : IsProvider name) : Readable name where
  ne_nil := h.ne_nil
  noComment := h.dotted.notMem (by decide) (by decide)
  noFeed := h.dotted.notMem (by decide) (by decide)
  trimmed := h.trimmed

theorem not_isBlank_of_isSegmentChar (h : isSegmentChar c = true) : isBlank c = false :=
  of_isSegmentChar (p := fun c => isBlank c = false) (by decide) h

theorem not_isBlank_of_isNamespace {target : String} (h : isNamespace target = true)
    (hc : c ∈ target.toList) : isBlank c = false := by
  obtain rfl | hc := (isNamespace_iff.mp h).of_mem hc
  · decide
  · exact not_isBlank_of_isSegmentChar hc

/-- A new name begins as the target of a rule does, and it ends as the old name or as the target. -/
theorem trim_relocateName {name' : String} (h : rs.relocateName (String.ofList name) = some name')
    (htrimmed : trim name = name) : trim name'.toList = name'.toList := by
  obtain ⟨r, hr, tail, htail, hname'⟩ := RuleSet.relocateName_eq_some_iff.mp h
  have hname := (Rule.tail?_eq_some_iff.mp htail).1
  rw [String.toList_ofList] at hname
  apply trim_eq_self_of_ends
  · obtain ⟨first, cs, hcs, hfirst⟩ := RuleSet.exists_cons_of_relocateName h
    rw [hcs]
    rintro c hc
    obtain rfl : first = c := Option.some.inj hc
    exact not_isBlank_of_isSegmentChar hfirst
  · intro c hc
    rw [hname', List.getLast?_append, Option.mem_def, Option.or_eq_some_iff] at hc
    obtain hc | ⟨-, hc⟩ := hc
    · have hlast : c ∈ (trim name).getLast? := by
        rw [htrimmed, hname, List.getLast?_append, hc, Option.some_or]
        exact rfl
      exact isBlank_getLast?_trim hlast
    · exact not_isBlank_of_isNamespace (rs.isNamespace_target hr) (List.mem_of_getLast? hc)

theorem IsProvider.readable_renamed (h : IsProvider name) (rs : RuleSet) :
    Readable (renamed rs name) := by
  rw [renamed, RuleSet.newName]
  cases hmoved : rs.relocateName (String.ofList name) with
  | none =>
    rw [Option.getD_none, String.toList_ofList]
    exact h.readable
  | some name' =>
    have hclean : ∀ c, c ≠ '.' → isSegmentChar c = false → c ∉ name → c ∉ name'.toList :=
      fun c hdot hc hname =>
        RuleSet.notMem_of_relocateName hmoved hdot hc (by rwa [String.toList_ofList])
    constructor
    · obtain ⟨first, cs, hcs, -⟩ := RuleSet.exists_cons_of_relocateName hmoved
      rw [Option.getD_some, hcs]
      exact List.cons_ne_nil first cs
    · exact hclean '#' (by decide) (by decide) h.readable.noComment
    · exact hclean '\n' (by decide) (by decide) h.readable.noFeed
    · exact trim_relocateName hmoved h.trimmed

end Names

section Files

variable {accepts : Bytes → Bool} {rs : RuleSet} {c : Contents} {o : Outcome} {e m : Member}
  {service old : String} {moved : Bool}

theorem ListsProviders.of_providers (h : ListsProviders e) :
    e.payload = render (providers e.payload) ∧ (providers e.payload).Nodup ∧
      ∀ name ∈ providers e.payload, IsProvider name := by
  obtain ⟨names, hpayload, hnodup, hnames⟩ := h.listed
  have hread : providers e.payload = names := by
    rw [hpayload, Registrations.providers_render fun name hname => (hnames name hname).readable]
  rw [hread]
  exact ⟨hpayload, hnodup, hnames⟩

theorem ListsProviders.readable_newProviders (h : ListsProviders e) (rs : RuleSet) :
    ∀ name ∈ newProviders rs e, Readable name := by
  obtain ⟨-, -, hnames⟩ := h.of_providers
  exact List.forall_mem_map.mpr fun name hname => (hnames name hname).readable_renamed rs

theorem relocateServiceFile_eq (hold : serviceName? e.path = some old) :
    relocateServiceFile rs e =
      alter e ((rs.relocateName old).map (servicesDir ++ ·))
        ((rs.replace e.payload).map fun content => Registrations.merge [content]) 0 := by
  rw [relocateServiceFile, hold]
  exact setPayload_moveTo _ _ _

theorem payload_relocateServiceFile (h : ListsProviders e) :
    (relocateServiceFile rs e).member.payload = render (newProviders rs e).eraseDups := by
  obtain ⟨old, hold⟩ := Option.isSome_iff_exists.mp h.service
  obtain ⟨hpayload, hnodup, hnames⟩ := h.of_providers
  have hreadable := h.readable_newProviders rs
  have hreplace := replace_render rs fun name hname => (hnames name hname).dotted
  rw [← hpayload, ← newProviders] at hreplace
  rw [relocateServiceFile_eq hold, alter_payload]
  cases hout : rs.replace e.payload with
  | none =>
    -- The text is kept, so that the new names are the old ones.
    rw [hout, Option.getD_none] at hreplace
    have hsame : newProviders rs e = providers e.payload :=
      (Registrations.providers_render hreadable).symm.trans (congrArg providers hreplace.symm)
    rw [Option.map_none, Option.getD_none, hsame, eraseDups_of_nodup hnodup]
    exact hpayload
  | some content =>
    rw [hout, Option.getD_some] at hreplace
    rw [Option.map_some, Option.getD_some, hreplace]
    exact Registrations.merge_singleton_render hreadable

theorem path_relocateServiceFile (hold : serviceName? e.path = some old) :
    (relocateServiceFile rs e).member.path = servicesDir ++ rs.newName old := by
  rw [relocateServiceFile_eq hold, alter_path, (serviceName?_eq_some_iff.mp hold).1, RuleSet.newName]
  cases rs.relocateName old <;> rfl

theorem moved_relocateServiceFile (hold : serviceName? e.path = some old) :
    (relocateServiceFile rs e).moved = (rs.relocateName old).isSome := by
  rw [relocateServiceFile_eq hold, alter_moved, Option.isSome_map]

theorem relocateMember_service (hk : e.kind = .serviceFile) :
    relocateMember accepts rs e = .ok (relocateServiceFile rs e) := by
  rw [relocateMember, hk]

theorem Conserves.services (h : Conserves accepts rs c o) (he : e ∈ c.members)
    (hk : e.kind = .serviceFile) (hold : serviceName? e.path = some old) {x : Member}
    (hx : x ∈ c.members) {r : Relocated} (hr : relocateMember accepts rs x = .ok r)
    (hp : r.member.path = servicesDir ++ rs.newName old) : x.kind = .serviceFile := by
  by_cases hsame : x = e
  · exact hsame ▸ hk
  · have hpath := hp.trans (path_relocateServiceFile hold).symm
    exact (h.meeting x hx e he hsame r _ hr (relocateMember_service hk) hpath).1

theorem broughtTo?_service (hold : serviceName? e.path = some old) :
    broughtTo? moved (servicesDir ++ service) (.ok (relocateServiceFile rs e)) =
      if (rs.relocateName old).isSome = moved ∧ rs.newName old = service then
        some (relocateServiceFile rs e).member
      else none := by
  have hpath : servicesDir ++ rs.newName old = servicesDir ++ service ↔ rs.newName old = service := by
    rw [← String.toList_inj, String.toList_append, String.toList_append, List.append_cancel_left_eq,
      String.toList_inj]
  simp only [broughtTo?, moved_relocateServiceFile hold, path_relocateServiceFile hold, hpath]

theorem arriving_service (hlists : ∀ e ∈ c.members, e.kind = .serviceFile → ListsProviders e)
    (honly : ∀ x ∈ c.members, ∀ r, relocateMember accepts rs x = .ok r →
      r.member.path = servicesDir ++ service → x.kind = .serviceFile) (moved : Bool) :
    arriving accepts rs c moved (servicesDir ++ service) =
      (comingTo rs c moved service).map fun e => (relocateServiceFile rs e).member := by
  rw [arriving, comingTo, ← List.filterMap_eq_map, List.filterMap_filter]
  refine List.filterMap_congr fun e he => ?_
  by_cases hk : e.kind = .serviceFile
  · obtain ⟨old, hold⟩ := Option.isSome_iff_exists.mp (hlists e he hk).service
    rw [relocateMember_service hk, broughtTo?_service hold, hk, hold]
    simp
  · have hno : (e.kind == .serviceFile) = false := by simpa using hk
    rw [hno, Bool.false_and, if_neg Bool.false_ne_true]
    cases hr : relocateMember accepts rs e with
    | error f => rfl
    | ok r => exact if_neg fun h => hk (honly e he r hr h.2)

theorem payload_joinAll {ms : List Member} {lists : List (List (List Char))}
    (hpayloads : ms.map (·.payload) = lists.map fun names => render names.eraseDups)
    (hlists : ∀ names ∈ lists, ∀ name ∈ names, Readable name) (hm : joinAll ms = some m) :
    m.payload = render lists.flatten.eraseDups := by
  cases ms with
  | nil => cases hm
  | cons first ms =>
    cases lists with
    | nil => cases hpayloads
    | cons names lists =>
      rw [List.map_cons, List.map_cons, List.cons.injEq] at hpayloads
      obtain ⟨hfirst, hms⟩ := hpayloads
      obtain ⟨hnames, hlists⟩ := List.forall_mem_cons.mp hlists
      have hrest : ∀ more ∈ lists.map List.eraseDups, ∀ name ∈ more, Readable name :=
        List.forall_mem_map.mpr fun more hmore name hname =>
          hlists more hmore name (List.mem_eraseDups.mp hname)
      obtain rfl := Option.some.inj hm
      calc ms.foldl (fun payload n => Registrations.merge [payload, n.payload]) first.payload
          = (ms.map (·.payload)).foldl (fun payload more => Registrations.merge [payload, more])
              first.payload := by rw [List.foldl_map]
        _ = (lists.map List.eraseDups).foldl
              (fun payload more => Registrations.merge [payload, render more])
              (render names.eraseDups) := by rw [hms, hfirst, List.foldl_map, List.foldl_map]
        _ = render (names.eraseDups ++ (lists.map List.eraseDups).flatten).eraseDups :=
            Registrations.foldl_merge_render (nodup_eraseDups names)
              (fun name hname => hnames name (List.mem_eraseDups.mp hname)) hrest
        _ = render (names :: lists).flatten.eraseDups := by
            rw [← List.flatten_cons, ← List.map_cons, eraseDups_flatten]

theorem joinAll_relocated {files : List Member} (hlists : ∀ e ∈ files, ListsProviders e)
    (hm : joinAll (files.map fun e => (relocateServiceFile rs e).member) = some m) :
    m.payload = render (files.flatMap (newProviders rs)).eraseDups := by
  rw [List.flatMap_def]
  refine payload_joinAll ?_ ?_ hm
  · rw [List.map_map, List.map_map]
    exact List.map_congr_left fun e he => payload_relocateServiceFile (hlists e he)
  · exact List.forall_mem_map.mpr fun e he => (hlists e he).readable_newProviders rs

theorem mem_comingTo : e ∈ comingTo rs c moved service ↔
    e ∈ c.members ∧ e.kind = .serviceFile ∧
      ∃ old, serviceName? e.path = some old ∧ (rs.relocateName old).isSome = moved ∧
        rs.newName old = service := by
  simp [comingTo, Option.any_eq_true]

theorem mem_filesFor : e ∈ filesFor rs c service ↔
    e ∈ c.members ∧ e.kind = .serviceFile ∧
      ∃ old, serviceName? e.path = some old ∧ rs.newName old = service := by
  rw [filesFor, List.mem_append, mem_comingTo, mem_comingTo]
  constructor
  · rintro (⟨he, hk, old, hold, -, hnew⟩ | ⟨he, hk, old, hold, -, hnew⟩)
    all_goals exact ⟨he, hk, old, hold, hnew⟩
  · rintro ⟨he, hk, old, hold, hnew⟩
    cases hmoved : (rs.relocateName old).isSome with
    | false => exact .inl ⟨he, hk, old, hold, hmoved, hnew⟩
    | true => exact .inr ⟨he, hk, old, hold, hmoved, hnew⟩

variable (hlists : ∀ e ∈ c.members, e.kind = .serviceFile → ListsProviders e)

include hlists

theorem readable_providersFor : ∀ name ∈ providersFor rs c service, Readable name := by
  intro name hname
  obtain ⟨e, hfile, hmem⟩ := List.mem_flatMap.mp hname
  obtain ⟨he, hk, -⟩ := mem_filesFor.mp hfile
  exact (hlists e he hk).readable_newProviders rs name hmem

theorem Conserves.get?_service (h : Conserves accepts rs c o) (he : e ∈ c.members)
    (hk : e.kind = .serviceFile) (hold : serviceName? e.path = some old) :
    ∃ m, o.contents.get? (servicesDir ++ rs.newName old) = some m ∧ m.kind = .serviceFile ∧
      m.payload = render (providersFor rs c (rs.newName old)).eraseDups := by
  have honly : ∀ x ∈ c.members, ∀ r, relocateMember accepts rs x = .ok r →
      r.member.path = servicesDir ++ rs.newName old → x.kind = .serviceFile :=
    fun x hx r hr hp => h.services he hk hold hx hr hp
  have hjoined := h.joined (servicesDir ++ rs.newName old)
  rw [arriving_service hlists honly, arriving_service hlists honly, ← List.map_append] at hjoined
  cases hget : o.contents.get? (servicesDir ++ rs.newName old) with
  | none =>
    have hnone := joinAll_eq_none_iff.mp (hjoined.symm.trans hget)
    have hfile : e ∈ filesFor rs c (rs.newName old) := mem_filesFor.mpr ⟨he, hk, old, hold, rfl⟩
    exact absurd (List.map_eq_nil_iff.mp hnone) (List.ne_nil_of_mem hfile)
  | some m =>
    obtain ⟨hm, hp⟩ := Contents.get?_eq_some_iff.mp hget
    obtain ⟨x, hx, r, hr, hxp, hxk⟩ := h.nothingElse m hm
    refine ⟨m, rfl, hxk ▸ honly x hx r hr (hxp.trans hp), ?_⟩
    refine joinAll_relocated (fun x hx => ?_) (hjoined.symm.trans hget)
    obtain ⟨hmem, hkind, -⟩ := mem_filesFor.mp hx
    exact hlists x hmem hkind

end Files

theorem serviceName?_newName {rs : RuleSet} {path old : String} (h : serviceName? path = some old) :
    serviceName? (servicesDir ++ rs.newName old) = some (rs.newName old) := by
  obtain ⟨-, hne, hslash⟩ := serviceName?_eq_some_iff.mp h
  rw [serviceName?_eq_some_iff, RuleSet.newName]
  cases hmoved : rs.relocateName old with
  | none => exact ⟨rfl, hne, hslash⟩
  | some name' =>
    refine ⟨rfl, ?_, RuleSet.notMem_of_relocateName hmoved (by decide) (by decide) hslash⟩
    obtain ⟨first, cs, hcs, -⟩ := RuleSet.exists_cons_of_relocateName hmoved
    rintro rfl
    cases hcs

structure ProvidersSurvive (rs : RuleSet) (c : Contents) (o : Outcome) : Prop where
  listed : ∀ m ∈ o.contents.members, m.kind = .serviceFile → ∃ service,
    serviceName? m.path = some service ∧
      m.payload = render (providersFor rs c service).eraseDups ∧
      providers m.payload = (providersFor rs c service).eraseDups
  distinct : ∀ m ∈ o.contents.members, m.kind = .serviceFile → (providers m.payload).Nodup
  kept : ∀ e ∈ c.members, e.kind = .serviceFile → ∀ old, serviceName? e.path = some old →
    ∃ m, o.contents.get? (servicesDir ++ rs.newName old) = some m ∧ m.kind = .serviceFile ∧
      ∀ name ∈ providers e.payload, renamed rs name ∈ providers m.payload

/-- Where relocation succeeds, each service of the output lists the new names of what was registered
for it, each once and those that stay before those that are moved. -/
theorem providers_survive {accepts : Bytes → Bool} {rs : RuleSet} {c : Contents} {o : Outcome}
    (hlists : ∀ e ∈ c.members, e.kind = .serviceFile → ListsProviders e)
    (h : relocateWith accepts rs c = .ok o) : ProvidersSurvive rs c o := by
  have hconserves := conserves_of_relocateWith h
  have hread : ∀ service, providers (render (providersFor rs c service).eraseDups) =
      (providersFor rs c service).eraseDups := fun service =>
    Registrations.providers_render fun name hname =>
      readable_providersFor hlists name (List.mem_eraseDups.mp hname)
  have hlisted : ∀ m ∈ o.contents.members, m.kind = .serviceFile → ∃ service,
      serviceName? m.path = some service ∧
        m.payload = render (providersFor rs c service).eraseDups := by
    intro m hm hk
    obtain ⟨e, he, r, hr, hp, hek⟩ := hconserves.nothingElse m hm
    rw [hk] at hek
    obtain ⟨old, hold⟩ := Option.isSome_iff_exists.mp (hlists e he hek).service
    obtain rfl := Except.ok.inj ((relocateMember_service hek).symm.trans hr)
    rw [path_relocateServiceFile hold] at hp
    obtain ⟨n, hget, -, hpayload⟩ := hconserves.get?_service hlists he hek hold
    obtain rfl : m = n :=
      Option.some.inj ((Contents.get?_eq_some_iff.mpr ⟨hm, hp.symm⟩).symm.trans hget)
    exact ⟨rs.newName old, hp ▸ serviceName?_newName hold, hpayload⟩
  constructor
  · intro m hm hk
    obtain ⟨service, hservice, hpayload⟩ := hlisted m hm hk
    exact ⟨service, hservice, hpayload, hpayload ▸ hread service⟩
  · intro m hm hk
    obtain ⟨service, -, hpayload⟩ := hlisted m hm hk
    rw [hpayload, hread]
    exact nodup_eraseDups _
  · intro e he hk old hold
    obtain ⟨m, hget, hmk, hpayload⟩ := hconserves.get?_service hlists he hk hold
    refine ⟨m, hget, hmk, fun name hname => ?_⟩
    rw [hpayload, hread, List.mem_eraseDups]
    have hfile : e ∈ filesFor rs c (rs.newName old) := mem_filesFor.mpr ⟨he, hk, old, hold, rfl⟩
    exact List.mem_flatMap.mpr ⟨e, hfile, List.mem_map_of_mem hname⟩

def libraryCodecs : Member :=
  ⟨"META-INF/services/lib.Codec", .serviceFile, render ["lib.B".toList, "app.C".toList],
    { name := "lib" }⟩

def applicationCodecs : Member :=
  ⟨"META-INF/services/shaded.Codec", .serviceFile, render ["app.A".toList, "shaded.B".toList],
    { name := "app" }⟩

def registeredCodecs : Contents :=
  ⟨[libraryCodecs, applicationCodecs], by unfold InOrder; decide⟩

theorem codecs_survive :
    ∃ o, relocate shading registeredCodecs = .ok o ∧
      ProvidersSurvive shading registeredCodecs o ∧
      o.contents.members = [{ applicationCodecs with
        payload := render ["app.A".toList, "shaded.B".toList, "app.C".toList] }] := by
  have hlists : ∀ e ∈ registeredCodecs.members, e.kind = .serviceFile → ListsProviders e := by
    intro e he _
    obtain rfl | rfl := List.mem_pair.mp he
    · exact ⟨by decide, _, rfl, by decide, by decide⟩
    · exact ⟨by decide, _, rfl, by decide, by decide⟩
  have hrun : (relocate shading registeredCodecs).toOption.map (·.contents.members) =
      some [{ applicationCodecs with
        payload := render ["app.A".toList, "shaded.B".toList, "app.C".toList] }] := by
    decide +kernel
  cases ho : relocate shading registeredCodecs with
  | error f =>
    rw [ho] at hrun
    cases hrun
  | ok o =>
    rw [ho] at hrun
    exact ⟨o, rfl, providers_survive hlists ho, Option.some.inj hrun⟩

end FatJar.Relocation
