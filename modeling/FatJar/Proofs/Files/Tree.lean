import FatJar.Files.Tree

namespace FatJar.FileTree

variable {t u v : FileTree} {p q : Place} {n : Node} {path : String}

theorem ne_nil_of_lookup (h : t.lookup p ≠ some .directory) : p ≠ [] := by
  rintro rfl
  exact h (if_pos rfl)

theorem ne_nil_of_missing (h : t.lookup p = none) : p ≠ [] :=
  ne_nil_of_lookup (t := t) (by simp [h])

theorem lookup_set (t : FileTree) (n : Node) (hp : p ≠ []) (q : Place) :
    (t.set p n).lookup q = if q = p then some n else t.lookup q := by
  unfold lookup set
  by_cases hq : q = p
  · subst hq
    simp [hp, find?_putPair]
  · simp [hq, find?_putPair_of_ne n t.nodes hq]

theorem set_set (t : FileTree) (p : Place) (n m : Node) : (t.set p n).set p m = t.set p m := by
  simp only [set, putPair_putPair]

theorem unlink_set (t : FileTree) (p : Place) (n : Node) : (t.set p n).unlink p = t.unlink p := by
  have hput : ∀ nodes : List (Place × Node),
      (putPair p n nodes).filter (·.1 ≠ p) = nodes.filter (·.1 ≠ p) := by
    intro nodes
    induction nodes with
    | nil => simp [putPair]
    | cons x nodes ih => by_cases hx : x.1 = p <;> simp_all [putPair]
  simp only [unlink, set, hput]

theorem unlink_eq_self (h : t.lookup p = none) : t.unlink p = t := by
  have hp : p ≠ [] := ne_nil_of_missing h
  have hmiss : ∀ x ∈ t.nodes, x.1 ≠ p := by
    simpa [lookup, hp, List.find?_eq_none] using h
  have hfilter : t.nodes.filter (·.1 ≠ p) = t.nodes := by simpa using hmiss
  unfold unlink
  rw [hfilter]

theorem isDirectory_iff : t.isDirectory p = true ↔ t.lookup p = some .directory := by
  unfold isDirectory
  split
  · next h => simp [h]
  · next h => simpa using h

theorem enter_eq_ok_iff {part : String} :
    t.enter p part = .ok q ↔ t.lookup p = some .directory ∧ beside p part = .ok q := by
  unfold enter
  split
  · next h => simp [h]
  · next h => simp [h]
  · next h => simp [h]

theorem find_eq_ok_iff : t.find path = .ok n ↔ ∃ p, t.locate path = .ok p ∧ t.lookup p = some n := by
  unfold find
  cases t.locate path with
  | error fault => simp [bind, Except.bind]
  | ok p =>
    cases h : t.lookup p <;>
      simp [bind, Except.bind, h, throw, throwThe, MonadExceptOf.throw, pure, Except.pure]

theorem filePlace?_eq_some (h : t.filePlace? path = some p) :
    t.locate path = .ok p ∧ t.lookup p ≠ some .directory := by
  unfold filePlace? at h
  split at h
  · next name q hname hq =>
    split at h
    · simp at h
    · next hdir =>
      obtain rfl := Option.some.inj h
      refine ⟨hq, fun hd => hdir ?_⟩
      simp [isDirectory_iff.mpr hd]
  · simp at h

theorem along_of_directories (hd : ∀ p, t.lookup p = some .directory → u.lookup p = some .directory)
    {parts : List String} (h : t.along p parts = .ok q) : u.along p parts = .ok q := by
  induction parts generalizing p with
  | nil => exact h
  | cons part parts ih =>
    unfold along at h ih ⊢
    rw [List.foldlM_cons] at h ⊢
    cases hp : t.enter p part with
    | error fault => simp [hp, bind, Except.bind] at h
    | ok p' =>
      obtain ⟨hdir, hbeside⟩ := enter_eq_ok_iff.mp hp
      rw [enter_eq_ok_iff.mpr ⟨hd p hdir, hbeside⟩]
      rw [hp] at h
      exact ih h

theorem start_congr (h : u.workingPlace = t.workingPlace) (path : String) :
    u.start path = t.start path := by
  rw [start, start, h]

theorem locate_of_directories (hw : u.workingPlace = t.workingPlace)
    (hd : ∀ p, t.lookup p = some .directory → u.lookup p = some .directory)
    (h : t.locate path = .ok p) : u.locate path = .ok p := by
  unfold locate at h ⊢
  split at h
  · simp at h
  · rw [start_congr hw]
    exact along_of_directories hd h

/-- Whether the same places are directories in `t` and `u`, so that paths lead to the same places. -/
structure SameDirectories (t u : FileTree) : Prop where
  workingPlace : u.workingPlace = t.workingPlace
  lookup_iff : ∀ p, u.lookup p = some .directory ↔ t.lookup p = some .directory

namespace SameDirectories

theorem set_file (h : t.lookup p ≠ some .directory) (content : Bytes) :
    SameDirectories t (t.set p (.file content)) := by
  refine ⟨rfl, fun q => ?_⟩
  rw [lookup_set t _ (ne_nil_of_lookup h)]
  split
  · next hq => simp [hq, h]
  · rfl

theorem along_iff (h : SameDirectories t u) {parts : List String} :
    u.along p parts = .ok q ↔ t.along p parts = .ok q :=
  ⟨along_of_directories fun p => (h.lookup_iff p).mp, along_of_directories fun p => (h.lookup_iff p).mpr⟩

theorem locate_iff (h : SameDirectories t u) : u.locate path = .ok p ↔ t.locate path = .ok p :=
  ⟨locate_of_directories h.workingPlace.symm fun p => (h.lookup_iff p).mp,
    locate_of_directories h.workingPlace fun p => (h.lookup_iff p).mpr⟩

theorem filePlace?_eq (h : SameDirectories t u) (path : String) : u.filePlace? path = t.filePlace? path := by
  have hdirectory : ∀ p, u.isDirectory p = t.isDirectory p := by
    intro p
    rw [Bool.eq_iff_iff, isDirectory_iff, isDirectory_iff]
    exact h.lookup_iff p
  unfold filePlace?
  cases (Path.parts path).getLast? with
  | none => rfl
  | some name =>
    cases ht : t.locate path with
    | ok p =>
      rw [h.locate_iff.mpr ht]
      simp only [hdirectory]
    | error fault =>
      cases hu : u.locate path with
      | ok p =>
        rw [h.locate_iff.mp hu] at ht
        cases ht
      | error fault' => rfl

end SameDirectories

theorem rename_set (h : t.lookup p = none) (content : Bytes) (q : Place) :
    (t.set p (.file content)).rename p q = t.set q (.file content) := by
  have hfile : (t.set p (.file content)).lookup p = some (.file content) := by
    rw [lookup_set t _ (ne_nil_of_missing h), if_pos rfl]
  rw [rename, hfile]
  dsimp only
  rw [unlink_set, unlink_eq_self h]

theorem find_set_file (h : t.filePlace? path = some p) (content : Bytes) :
    (t.set p (.file content)).find path = .ok (.file content) := by
  obtain ⟨hlocate, hnodir⟩ := filePlace?_eq_some h
  refine find_eq_ok_iff.mpr ⟨p, (SameDirectories.set_file hnodir content).locate_iff.mpr hlocate, ?_⟩
  rw [lookup_set t _ (ne_nil_of_lookup hnodir), if_pos rfl]

/-- Whether all that is in `t` is in `u` as well. -/
structure Keeps (t u : FileTree) : Prop where
  workingPlace : u.workingPlace = t.workingPlace
  lookup : ∀ p n, t.lookup p = some n → u.lookup p = some n

namespace Keeps

theorem refl (t : FileTree) : Keeps t t :=
  ⟨rfl, fun _ _ h => h⟩

theorem trans (h : Keeps t u) (h' : Keeps u v) : Keeps t v :=
  ⟨h'.workingPlace.trans h.workingPlace, fun p n hn => h'.lookup p n (h.lookup p n hn)⟩

theorem set (n : Node) (h : t.lookup p = none) : Keeps t (t.set p n) := by
  refine ⟨rfl, fun q m hm => ?_⟩
  have hq : q ≠ p := by
    rintro rfl
    simp [h] at hm
  rw [lookup_set t n (ne_nil_of_missing h), if_neg hq, hm]

theorem find (h : Keeps t u) (hf : t.find path = .ok n) : u.find path = .ok n := by
  obtain ⟨p, hp, hn⟩ := find_eq_ok_iff.mp hf
  have hl := locate_of_directories h.workingPlace (fun p => h.lookup p .directory) hp
  exact find_eq_ok_iff.mpr ⟨p, hl, h.lookup p n hn⟩

end Keeps

def GoesAlong (t : FileTree) (path : String) (p : Place) : Prop :=
  ∃ k, t.along (t.start path) ((Path.parts path).take k) = .ok p

/-- Whether `u` is `t` but for directories along a path. -/
structure MadeWay (path : String) (t u : FileTree) : Prop extends Keeps t u where
  added : ∀ p n, t.lookup p = none → u.lookup p = some n → n = .directory ∧ u.GoesAlong path p

theorem MadeWay.refl (path : String) (t : FileTree) : MadeWay path t t where
  toKeeps := Keeps.refl t
  added p n h hn := by simp [h] at hn

section Making

variable {refused : Place → Bool} {part : String}

theorem makeStep_eq_ok (h : t.makeStep refused p part = .ok (u, q)) :
    t.enter p part = .ok q ∧ (u = t ∨ t.lookup q = none ∧ u = t.set q .directory) := by
  unfold makeStep at h
  split at h
  · simp at h
  · next q' hq =>
    split at h
    · simp only [Except.ok.injEq, Prod.mk.injEq] at h
      obtain ⟨rfl, rfl⟩ := h
      exact ⟨hq, .inl rfl⟩
    · next hmiss =>
      split at h
      · simp at h
      · simp only [Except.ok.injEq, Prod.mk.injEq] at h
        obtain ⟨rfl, rfl⟩ := h
        exact ⟨hq, .inr ⟨hmiss, rfl⟩⟩

theorem keeps_makeStep (h : t.makeStep refused p part = .ok (u, q)) : Keeps t u := by
  obtain rfl | ⟨hmiss, rfl⟩ := (makeStep_eq_ok h).2
  · exact Keeps.refl _
  · exact Keeps.set _ hmiss

theorem keeps_makeAlong (refused : Place → Bool) (t : FileTree) (p : Place) (parts : List String) :
    Keeps t (t.makeAlong refused p parts).1 := by
  induction parts generalizing t p with
  | nil => exact Keeps.refl t
  | cons part parts ih =>
    unfold makeAlong
    split
    · exact Keeps.refl t
    · next u q h => exact (keeps_makeStep h).trans (ih u q)

theorem along_cons {parts : List String} {p' : Place} (h : t.enter p part = .ok p') :
    t.along p (part :: parts) = t.along p' parts := by
  rw [along, List.foldlM_cons, h]
  rfl

theorem along_of_makeAlong {parts : List String} (h : t.makeAlong refused p parts = (u, none)) :
    ∃ q, u.along p parts = .ok q ∧ u.lookup q = some .directory := by
  induction parts generalizing t p with
  | nil =>
    simp only [makeAlong, Prod.mk.injEq, ite_eq_left_iff, reduceCtorEq, imp_false, Bool.not_eq_true,
      Bool.not_eq_false] at h
    obtain ⟨rfl, hdir⟩ := h
    exact ⟨p, rfl, isDirectory_iff.mp hdir⟩
  | cons part parts ih =>
    unfold makeAlong at h
    split at h
    · simp at h
    · next t' p' hstep =>
      obtain ⟨q, hq, hdir⟩ := ih h
      refine ⟨q, ?_, hdir⟩
      have hkeeps : Keeps t u := by
        have hlater := keeps_makeAlong refused t' p' parts
        rw [h] at hlater
        exact (keeps_makeStep hstep).trans hlater
      obtain ⟨hhere, hbeside⟩ := enter_eq_ok_iff.mp (makeStep_eq_ok hstep).1
      rw [along_cons (enter_eq_ok_iff.mpr ⟨hkeeps.lookup _ _ hhere, hbeside⟩)]
      exact hq

theorem makeAlong_of_along {parts : List String} (h : t.along p parts = .ok q)
    (hq : t.lookup q = some .directory) : t.makeAlong refused p parts = (t, none) := by
  induction parts generalizing p with
  | nil =>
    obtain rfl : p = q := Except.ok.inj h
    rw [makeAlong, if_pos (isDirectory_iff.mpr hq)]
  | cons part parts ih =>
    cases hp : t.enter p part with
    | error fault =>
      rw [along, List.foldlM_cons, hp] at h
      cases h
    | ok p' =>
      rw [along_cons hp] at h
      have hdir : t.lookup p' = some .directory := by
        cases parts with
        | nil => rwa [Except.ok.inj h]
        | cons part' parts =>
          cases hp' : t.enter p' part' with
          | error fault =>
            rw [along, List.foldlM_cons, hp'] at h
            cases h
          | ok p'' => exact (enter_eq_ok_iff.mp hp').1
      have hstep : t.makeStep refused p part = .ok (t, p') := by
        simp only [makeStep, hp, hdir]
      rw [makeAlong, hstep]
      exact ih h

theorem makeDirectory_again (h : t.makeDirectory path refused = (u, none)) (hs : SameDirectories u v)
    (refused' : Place → Bool) : v.makeDirectory path refused' = (v, none) := by
  unfold makeDirectory at h ⊢
  split at h
  · simp at h
  · obtain ⟨q, hq, hdir⟩ := along_of_makeAlong h
    have hkeeps := keeps_makeAlong refused t (t.start path) (Path.parts path)
    rw [h] at hkeeps
    have hstart : v.start path = t.start path :=
      (start_congr hs.workingPlace path).trans (start_congr hkeeps.workingPlace path)
    rw [hstart]
    exact makeAlong_of_along (hs.along_iff.mpr hq) ((hs.lookup_iff q).mpr hdir)

theorem makeAlong_unrefused {parts : List String} (h : t.makeAlong refused p parts = (u, none)) :
    t.makeAlong (fun _ => false) p parts = (u, none) := by
  induction parts generalizing t p with
  | nil => exact h
  | cons part parts ih =>
    unfold makeAlong at h ⊢
    split at h
    · simp at h
    · next t' p' hstep =>
      have hsame : t.makeStep (fun _ => false) p part = .ok (t', p') := by
        unfold makeStep at hstep ⊢
        split at hstep
        · cases hstep
        · split at hstep
          · exact hstep
          · split at hstep
            · cases hstep
            · exact hstep
      rw [hsame]
      exact ih h

theorem makeDirectory_unrefused (h : t.makeDirectory path refused = (u, none)) :
    t.makeDirectory path = (u, none) := by
  unfold makeDirectory at h ⊢
  split at h
  · simp at h
  · exact makeAlong_unrefused h

theorem added_makeAlong {parts : List String} (hmiss : t.lookup q = none)
    (hnew : (t.makeAlong refused p parts).1.lookup q = some n) :
    n = .directory ∧ ∃ k, (t.makeAlong refused p parts).1.along p (parts.take k) = .ok q := by
  induction parts generalizing t p with
  | nil => simp [makeAlong, hmiss] at hnew
  | cons part parts ih =>
    unfold makeAlong at hnew ⊢
    split at hnew
    · simp [hmiss] at hnew
    · next u p' h =>
      have hkeeps := keeps_makeAlong refused u p' parts
      obtain ⟨henter, hu⟩ := makeStep_eq_ok h
      have hstep : (u.makeAlong refused p' parts).1.enter p part = .ok p' := by
        obtain ⟨hdir, hbeside⟩ := enter_eq_ok_iff.mp henter
        exact enter_eq_ok_iff.mpr ⟨((keeps_makeStep h).trans hkeeps).lookup p _ hdir, hbeside⟩
      have hcons : ∀ k, (u.makeAlong refused p' parts).1.along p ((part :: parts).take (k + 1)) =
          (u.makeAlong refused p' parts).1.along p' (parts.take k) := by
        intro k
        rw [List.take_succ_cons, along_cons hstep]
      by_cases hq : u.lookup q = none
      · obtain ⟨hn, k, hk⟩ := ih hq hnew
        exact ⟨hn, k + 1, (hcons k).trans hk⟩
      · -- The step itself made the directory.
        obtain rfl | ⟨hfree, rfl⟩ := hu
        · exact absurd hmiss hq
        · rw [lookup_set t .directory (ne_nil_of_missing hfree)] at hq
          split at hq
          · next hqp =>
            subst hqp
            have hmade : (t.set q .directory).lookup q = some .directory := by
              rw [lookup_set t .directory (ne_nil_of_missing hfree), if_pos rfl]
            rw [hkeeps.lookup q _ hmade] at hnew
            exact ⟨(Option.some.inj hnew).symm, 1, hcons 0⟩
          · exact absurd hmiss hq

theorem madeWay_makeDirectory (t : FileTree) (path : String) (refused : Place → Bool) :
    MadeWay path t (t.makeDirectory path refused).1 := by
  unfold makeDirectory
  split
  · exact MadeWay.refl path t
  · have hkeeps := keeps_makeAlong refused t (t.start path) (Path.parts path)
    refine ⟨hkeeps, fun p n hmiss hnew => ?_⟩
    rw [GoesAlong, start_congr hkeeps.workingPlace]
    exact added_makeAlong hmiss hnew

end Making

/-- Whether `u` is `t` but for a file, which a path leads to, and directories on the way to it. -/
structure MadeFile (path : String) (q : Place) (t u : FileTree) : Prop where
  workingPlace : u.workingPlace = t.workingPlace
  located : u.locate path = .ok q
  file : ∃ content, u.lookup q = some (.file content)
  noDirectory : t.lookup q ≠ some .directory
  others : ∀ p, p ≠ q → u.lookup p = t.lookup p ∨
    t.lookup p = none ∧ u.lookup p = some .directory ∧ u.GoesAlong (Path.directoryOf path) p

theorem MadeWay.set_file (h : MadeWay (Path.directoryOf path) t v) (hq : v.filePlace? path = some q)
    (content : Bytes) : MadeFile path q t (v.set q (.file content)) := by
  obtain ⟨hlocate, hnodir⟩ := filePlace?_eq_some hq
  have hsame : SameDirectories v (v.set q (.file content)) := SameDirectories.set_file hnodir content
  have hlookup := lookup_set v (.file content) (ne_nil_of_lookup hnodir)
  refine ⟨h.workingPlace, hsame.locate_iff.mpr hlocate, ⟨content, by rw [hlookup, if_pos rfl]⟩,
    fun hdir => hnodir (h.lookup q _ hdir), fun p hp => ?_⟩
  rw [hlookup, if_neg hp]
  cases ht : t.lookup p with
  | some n => exact .inl (h.lookup p n ht)
  | none =>
    cases hv : v.lookup p with
    | none => exact .inl rfl
    | some n =>
      obtain ⟨rfl, k, hk⟩ := h.added p n ht hv
      refine .inr ⟨rfl, rfl, k, ?_⟩
      rw [start_congr hsame.workingPlace]
      exact hsame.along_iff.mpr hk

theorem MadeFile.find {other : String} (h : MadeFile path q t u) (hf : t.find other = .ok n)
    (hother : t.locate other ≠ .ok q) : u.find other = .ok n := by
  obtain ⟨p, hp, hn⟩ := find_eq_ok_iff.mp hf
  have hkept : ∀ p n, p ≠ q → t.lookup p = some n → u.lookup p = some n := by
    intro p n hpq hn
    obtain hsame | ⟨hmissing, -⟩ := h.others p hpq
    · rw [hsame, hn]
    · rw [hmissing] at hn
      cases hn
  have hdirectories : ∀ p, t.lookup p = some .directory → u.lookup p = some .directory := by
    intro p hdir
    refine hkept p _ ?_ hdir
    rintro rfl
    exact h.noDirectory hdir
  refine find_eq_ok_iff.mpr ⟨p, locate_of_directories h.workingPlace hdirectories hp, hkept p n ?_ hn⟩
  rintro rfl
  exact hother hp

end FatJar.FileTree
