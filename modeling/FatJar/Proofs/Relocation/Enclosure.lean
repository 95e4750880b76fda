import FatJar.Proofs.Entry.Enclosed
import FatJar.Proofs.Entry.Kind
import FatJar.Proofs.Relocation.Conservation
import FatJar.Proofs.Relocation.Moves
import FatJar.Proofs.Relocation.Paths

namespace FatJar.Relocation

open Zip (depthAfter?)

def depth (name : String) : Nat :=
  (name.toList.splitOn '.').length

section Namespaces

variable {name : String}

theorem dot_notMem_part {part : List Char} (h : isNamespace name = true)
    (hpart : part ∈ name.toList.splitOn '.') : '.' ∉ part := by
  intro hdot
  exact ne_dot_of_isSegmentChar ((isNamespace_iff.mp h part hpart).2 _ hdot) rfl

theorem pathNames_slashed (h : isNamespace name = true) :
    pathNames (slashed name).toList = name.toList.splitOn '.' := by
  unfold pathNames
  rw [toList_slashed, splitOn_map_ite (slash_notMem_of_isNamespace h), List.filter_eq_self]
  intro part hpart
  have hne := (isNamespace_iff.mp h part hpart).1
  have hdot : part ≠ ['.'] := fun he => dot_notMem_part h hpart (by simp [he])
  simp [hne, hdot]

theorem depthAfter?_slashed (h : isNamespace name = true) (d : Nat) :
    depthAfter? d (pathNames (slashed name).toList) = some (d + depth name) := by
  rw [pathNames_slashed h, depthAfter?_of_notMem]
  · rfl
  · exact fun hmem => dot_notMem_part h hmem (by simp [parentName])

theorem head?_slashed (h : isNamespace name = true) : (slashed name).toList.head? ≠ some '/' := by
  obtain ⟨c, cs, hc, hsegment⟩ := exists_cons_of_isNamespace h
  rw [toList_slashed, hc, List.map_cons, List.head?_cons, Ne, Option.some.injEq]
  split
  · next hdot => exact absurd (hdot ▸ hsegment) (by decide)
  · rintro rfl
    exact absurd hsegment (by decide)

theorem nul_notMem_slashed (h : isNamespace name = true) : '\x00' ∉ (slashed name).toList :=
  notMem_slashed h (by decide) (by decide)

end Namespaces

theorem pathNames_mark_append {mark : List Char} (h : mark = [] ∨ IsVersionMark mark)
    (cs : List Char) : pathNames (mark ++ cs) = pathNames mark ++ pathNames cs := by
  obtain rfl | ⟨version, -, -, rfl⟩ := h
  · rfl
  · have hsplit : ∀ ds, versionsDir.toList ++ version ++ ['/'] ++ ds =
        (versionsDir.toList ++ version) ++ '/' :: ds := by simp
    have hmark := pathNames_append (versionsDir.toList ++ version) []
    rw [hsplit, pathNames_append, hmark, pathNames_nil, List.append_nil]

/-- The depth that a path leads to, part by part: its mark, its namespace, and what lies below. -/
theorem depthAfter?_below {mark : List Char} (hmark : mark = [] ∨ IsVersionMark mark)
    {name : String} (h : isNamespace name = true) (rest : List Char) :
    depthAfter? 0 (pathNames (mark ++ ((slashed name).toList ++ '/' :: rest))) =
      (depthAfter? 0 (pathNames mark)).bind fun d =>
        depthAfter? (d + depth name) (pathNames rest) := by
  rw [pathNames_mark_append hmark, pathNames_append, depthAfter?_append]
  refine congrArg (Option.bind _) (funext fun d => ?_)
  rw [depthAfter?_append, depthAfter?_slashed h, Option.bind_some]

variable {rs : RuleSet} {path path' name name' : String}

theorem enclosed_relocatePath (hdepth : ∀ r ∈ rs.rules, depth r.source ≤ depth r.target)
    (h : rs.relocatePath path = some path') (he : Enclosed path) : Enclosed path' := by
  obtain ⟨r, hr, mark, rest, hsplit, hpath'⟩ := RuleSet.relocatePath_eq_some_iff.mp h
  obtain ⟨hmark, hpath⟩ := mark_of_splitVersioned hsplit
  have hsource := rs.isNamespace_source hr
  have htarget := rs.isNamespace_target hr
  obtain ⟨hnul, hrel, hin⟩ := enclosed_iff.mp he
  rw [hpath] at hnul hrel hin
  rw [enclosed_iff, hpath']
  refine ⟨?_, ?_, ?_⟩
  · have htnul := nul_notMem_slashed htarget
    simp only [List.mem_append, not_or] at hnul ⊢
    exact ⟨⟨hnul.1, htnul⟩, hnul.2.2⟩
  · cases mark with
    | nil =>
      have hne : r.slashedTarget.toList ≠ [] := by
        obtain ⟨c, cs, hc, -⟩ := exists_cons_of_isNamespace htarget
        simp [Rule.slashedTarget, toList_slashed, hc]
      rw [List.nil_append, List.head?_append_of_ne_nil _ hne]
      exact head?_slashed htarget
    | cons c mark => simpa using hrel
  · rw [Rule.slashedSource, depthAfter?_below hmark hsource] at hin
    rw [List.append_assoc, Rule.slashedTarget, depthAfter?_below hmark htarget]
    obtain ⟨d, hd⟩ := Option.isSome_iff_exists.mp (Option.isSome_of_isSome_bind hin)
    rw [hd, Option.bind_some] at hin ⊢
    exact depthAfter?_mono hin (Nat.add_le_add_left (hdepth r hr) d)

/-- The file of a service lies in its directory unless the name is that of another directory. -/
theorem enclosed_service {c : Char} {cs : List Char} (hname : name.toList = c :: cs) (hdot : c ≠ '.')
    (hslash : '/' ∉ name.toList) (hnul : '\x00' ∉ name.toList) : Enclosed (servicesDir ++ name) := by
  have hpath : (servicesDir ++ name).toList =
      "META-INF".toList ++ '/' :: ("services".toList ++ '/' :: name.toList) := by
    simp [servicesDir]
  have hlast : pathNames name.toList = [name.toList] := by
    apply pathNames_name hslash <;> simp [hname, hdot]
  have hdirs : pathNames "META-INF".toList = ["META-INF".toList] ∧
      pathNames "services".toList = ["services".toList] := by decide
  refine enclosed_iff.mpr ⟨?_, by simp [servicesDir], ?_⟩
  · rw [String.toList_append, List.mem_append, not_or]
    exact ⟨by decide, hnul⟩
  · rw [hpath, pathNames_append, pathNames_append, hlast, hdirs.1, hdirs.2, depthAfter?_of_notMem]
    · rfl
    · simp [parentName, hname, Ne.symm hdot]

theorem enclosed_relocateName (h : rs.relocateName name = some name') (hslash : '/' ∉ name.toList)
    (he : Enclosed (servicesDir ++ name)) : Enclosed (servicesDir ++ name') := by
  obtain ⟨c, cs, hname', hsegment⟩ := RuleSet.exists_cons_of_relocateName h
  have hnul : '\x00' ∉ name.toList := by
    have hpath := he.noNul
    rw [String.toList_append, List.mem_append, not_or] at hpath
    exact hpath.2
  exact enclosed_service hname' (ne_dot_of_isSegmentChar hsegment)
    (RuleSet.notMem_of_relocateName h (by decide) (by decide) hslash)
    (RuleSet.notMem_of_relocateName h (by decide) (by decide) hnul)

section Members

variable {accepts : Bytes → Bool} {m : Member} {r : Relocated} {c : Contents} {o : Outcome}

theorem enclosed_relocateMember (hdepth : ∀ r ∈ rs.rules, depth r.source ≤ depth r.target)
    (h : relocateMember accepts rs m = .ok r) (he : Enclosed m.path) : Enclosed r.member.path := by
  obtain hpath | ⟨-, hpath⟩ | ⟨-, name, name', hname, hname', hpath⟩ := path_of_relocateMember h
  · exact hpath ▸ he
  · exact enclosed_relocatePath hdepth hpath he
  · obtain ⟨hold, -, hslash⟩ := serviceName?_eq_some_iff.mp hname
    rw [hold] at he
    exact hpath ▸ enclosed_relocateName hname' hslash he

theorem enclosed_relocateWith (hdepth : ∀ r ∈ rs.rules, depth r.source ≤ depth r.target)
    (h : relocateWith accepts rs c = .ok o) (he : ∀ m ∈ c.members, Enclosed m.path) :
    ∀ m ∈ o.contents.members, Enclosed m.path := by
  intro m hm
  obtain ⟨e, hmem, r, hr, hpath, -⟩ := (conserves_of_relocateWith h).nothingElse m hm
  exact hpath ▸ enclosed_relocateMember hdepth hr (he e hmem)

end Members

def stepsBack (n : Nat) : List Char :=
  (List.replicate n "/..".toList).flatten

theorem stepsBack_succ (n : Nat) : stepsBack (n + 1) = '/' :: (parentName ++ stepsBack n) := by
  unfold stepsBack
  rw [List.replicate_succ, List.flatten_cons]
  rfl

theorem pathNames_append_stepsBack (cs : List Char) (n : Nat) :
    pathNames (cs ++ stepsBack n) = pathNames cs ++ List.replicate n parentName := by
  induction n generalizing cs with
  | zero => simp [stepsBack]
  | succ n ih =>
    have hparent : pathNames parentName = [parentName] := by decide
    rw [stepsBack_succ, pathNames_append, ih, hparent, List.replicate_succ]
    rfl

theorem nul_notMem_stepsBack (n : Nat) : '\x00' ∉ stepsBack n := by
  simp [stepsBack]

theorem depth_pos (name : String) : 0 < depth name :=
  List.length_pos_of_ne_nil (List.splitOn_ne_nil _ _)

def pathBack (name : String) (n : Nat) : String :=
  String.ofList ((slashed name).toList ++ stepsBack n)

theorem enclosed_pathBack_iff (h : isNamespace name = true) {n : Nat} :
    Enclosed (pathBack name n) ↔ n ≤ depth name := by
  have hne : (slashed name).toList ≠ [] := by
    obtain ⟨c, cs, hc, -⟩ := exists_cons_of_isNamespace h
    simp [toList_slashed, hc]
  rw [enclosed_iff, pathBack, String.toList_ofList, List.head?_append_of_ne_nil _ hne,
    pathNames_append_stepsBack, depthAfter?_append, depthAfter?_slashed h, Option.bind_some,
    depthAfter?_parents]
  simp [nul_notMem_slashed h, nul_notMem_stepsBack, head?_slashed h]

theorem relocatePath_pathBack {r : Rule} (hr : r ∈ rs.rules) (n : Nat) :
    rs.relocatePath (pathBack r.source (n + 1)) = some (pathBack r.target (n + 1)) := by
  unfold pathBack
  rw [stepsBack_succ]
  exact RuleSet.relocatePath_below hr _

def emptyText (path : String) : Contents where
  members := [⟨path, .resource, [], { name := "app" }⟩]
  inOrder := List.pairwise_singleton _ _

theorem relocate_emptyText (h : rs.relocatePath path = some path') :
    ∃ o, relocate rs (emptyText path) = .ok o ∧ ∃ m ∈ o.contents.members, m.path = path' := by
  have hmember : relocateMember ClassFile.isWellFormed rs ⟨path, .resource, [], { name := "app" }⟩ =
      .ok (alter ⟨path, .resource, [], { name := "app" }⟩ (some path') none 0) := by
    have hvalid : (isTextResource path || Utf8.isValid []) = true := Bool.or_true _
    simp only [relocateMember, relocateResource, if_pos hvalid, h]
    rfl
  have hall : (emptyText path).members.map (relocateMember ClassFile.isWellFormed rs) =
      [alter ⟨path, .resource, [], { name := "app" }⟩ (some path') none 0].map .ok := by
    simp [emptyText, hmember]
  obtain ⟨o, ho, -⟩ | ⟨f, origin, -, -, hbad⟩ := Outcome.holds_nil.addAll rs (stayedFirst _)
  · have hrun := (relocateWith_eq hall).trans ho
    obtain ⟨r, hr, hget⟩ := (conserves_of_relocateWith hrun).kept _ List.mem_cons_self
    obtain rfl := Except.ok.inj (hmember.symm.trans hr)
    exact ⟨o, hrun, _, (Contents.get?_eq_some_iff.mp (hget (by simp))).1, rfl⟩
  · exact absurd (by simp [stayedFirst, alter, moveTo, setPayload]) hbad

/-- Relocation keeps all paths inside the archive, whatever they are, exactly when no rule moves a
namespace to one of fewer parts. -/
theorem relocate_encloses_iff :
    (∀ c o, (∀ m ∈ c.members, Enclosed m.path) → relocate rs c = .ok o →
        ∀ m ∈ o.contents.members, Enclosed m.path) ↔
      ∀ r ∈ rs.rules, depth r.source ≤ depth r.target := by
  constructor
  · intro h r hr
    -- A path that leads back from the source as often as it has parts is inside, so its new one is.
    obtain ⟨n, hn⟩ := Nat.exists_eq_add_one_of_ne_zero (depth_pos r.source).ne'
    obtain ⟨o, ho, m, hm, hpath⟩ := relocate_emptyText (relocatePath_pathBack hr n)
    have hback : Enclosed (pathBack r.source (n + 1)) :=
      (enclosed_pathBack_iff (rs.isNamespace_source hr)).mpr hn.ge
    have hmoved : Enclosed m.path := by
      refine h _ o (fun e he => ?_) ho m hm
      rw [List.mem_singleton.mp he]
      exact hback
    rw [hpath, enclosed_pathBack_iff (rs.isNamespace_target hr)] at hmoved
    omega
  · intro h c o hc ho
    exact enclosed_relocateWith h ho hc

def shortening : RuleSet :=
  ⟨[⟨"a.b.c", "x"⟩], by decide⟩

/-- A path that leads out of a namespace of three parts, but not out of its archive. -/
def detour : String :=
  "a/b/c/../../evil.txt"

theorem detour_escapes :
    (∀ m ∈ (emptyText detour).members, Enclosed m.path) ∧
      ∃ o, relocate shortening (emptyText detour) = .ok o ∧
        ∃ m ∈ o.contents.members, m.path = "x/../../evil.txt" ∧ ¬ Enclosed m.path := by
  have hmoved : shortening.relocatePath detour = some "x/../../evil.txt" := by decide +kernel
  obtain ⟨o, ho, m, hm, hpath⟩ := relocate_emptyText hmoved
  refine ⟨fun e he => ?_, o, ho, m, hm, hpath, ?_⟩
  · rw [List.mem_singleton.mp he]
    exact enclosed_iff.mpr (by decide +kernel)
  · rw [hpath, enclosed_iff]
    decide +kernel

end FatJar.Relocation
