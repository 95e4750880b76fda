import FatJar.Output.Writer
import FatJar.Proofs.Files.Tree

namespace FatJar.Output

open Zip (Item)

variable {t u : FileTree} {path : String} {w : Circumstances} {m : Item} {is : List Item}
  {d d' : Draft} {manifest : Attributes} {c : Contents}

/-- Whether a draft stands beside the files `t`, where there was nothing. -/
structure Draft.Beside (t : FileTree) (d : Draft) : Prop where
  free : t.lookup d.place = none
  made : ∃ content, d.tree = t.set d.place (.file content)

namespace Draft

theorem beside_of_make? (h : make? t path w = some d) : Beside t d ∧ d.written = [] := by
  unfold make? at h
  split at h
  · simp at h
  · split at h
    · simp at h
    · next place _ =>
      split at h
      · simp at h
      · next hfree =>
        obtain rfl := Option.some.inj h
        exact ⟨⟨by simpa using hfree, [], rfl⟩, rfl⟩

theorem Beside.discard_eq (h : Beside t d) : d.discard = t := by
  obtain ⟨content, hmade⟩ := h.made
  rw [discard, hmade, FileTree.unlink_set, FileTree.unlink_eq_self h.free]

/-- Items that are written go to the draft alone, and nothing else happens to the files. -/
theorem putItems_eq (path : String) (w : Circumstances) (index : Nat) (is : List Item) (d : Draft) :
    (putItems path w index is d).1.tree = d.tree ∧ (putItems path w index is d).1.place = d.place ∧
      ((putItems path w index is d).2 = none →
        (putItems path w index is d).1.written = is.reverse ++ d.written ∧
          ∀ i ∈ is, i.name.utf8ByteSize ≤ maxItemName) := by
  induction is generalizing index d with
  | nil => exact ⟨rfl, rfl, fun _ => ⟨rfl, fun i hi => absurd hi List.not_mem_nil⟩⟩
  | cons i is ih =>
    unfold putItems
    split
    · exact ⟨rfl, rfl, fun h => by simp at h⟩
    · split
      · exact ⟨rfl, rfl, fun h => by simp at h⟩
      · next hput =>
        obtain ⟨htree, hplace, hwritten⟩ := ih (index + 1) (d.put i)
        refine ⟨htree, hplace, fun h => ?_⟩
        obtain ⟨hall, hnames⟩ := hwritten h
        rw [Bool.or_eq_true, not_or, decide_eq_true_iff, Nat.not_lt] at hput
        exact ⟨by rw [hall]; simp [put], List.forall_mem_cons.mpr ⟨hput.1, hnames⟩⟩

theorem fill_eq (path : String) (w : Circumstances) (m : Item) (is : List Item) (d : Draft) :
    (d.fill path w m is).1.tree = d.tree ∧ (d.fill path w m is).1.place = d.place ∧
      ((d.fill path w m is).2 = none →
        (d.fill path w m is).1.written = is.reverse ++ m :: d.written ∧
          ∀ i ∈ is, i.name.utf8ByteSize ≤ maxItemName) := by
  unfold fill
  split
  · exact ⟨rfl, rfl, fun h => by simp at h⟩
  · exact putItems_eq path w 0 is (d.put m)

theorem Beside.fill (h : Beside t d) (path : String) (w : Circumstances) (m : Item)
    (is : List Item) : Beside t (d.fill path w m is).1 := by
  obtain ⟨htree, hplace, -⟩ := fill_eq path w m is d
  constructor
  · rw [hplace]
    exact h.free
  · rw [htree, hplace]
    exact h.made

theorem Beside.finish? (h : Beside t d) (hd : d.finish? w = some d') :
    Beside t d' ∧ d'.items = d.items ∧ d'.tree = t.set d'.place (.file (Zip.encode d.items)) := by
  obtain ⟨content, hmade⟩ := h.made
  unfold Draft.finish? at hd
  split at hd
  · simp at hd
  · obtain rfl := Option.some.inj hd
    have htree : d.tree.set d.place (.file (Zip.encode d.items)) =
        t.set d.place (.file (Zip.encode d.items)) := by
      rw [hmade, FileTree.set_set]
    exact ⟨⟨h.free, _, htree⟩, rfl, htree⟩

theorem replace?_eq {content : Bytes} (hfree : t.lookup d.place = none)
    (hmade : d.tree = t.set d.place (.file content)) :
    d.replace? path w =
      if w.failing .replace then none
      else (t.filePlace? path).map fun q => t.set q (.file content) := by
  have hnodir : t.lookup d.place ≠ some .directory := by simp [hfree]
  have hrename : (t.set d.place (.file content)).rename d.place = fun q => t.set q (.file content) :=
    funext fun q => FileTree.rename_set hfree content q
  rw [replace?, hmade, (FileTree.SameDirectories.set_file hnodir content).filePlace?_eq, hrename]

end Draft

def written (t : FileTree) (q : Place) (manifest : Attributes) (c : Contents) : FileTree :=
  t.set q (.file (Zip.encode (items manifest c)))

theorem writeThere_eq (t : FileTree) (path : String) (manifest : Attributes) (c : Contents)
    (w : Circumstances) :
    (∃ e, writeThere t path manifest c w = (t, .error e)) ∨
      ∃ q, t.filePlace? path = some q ∧ (∀ i ∈ layout c, i.name.utf8ByteSize ≤ maxItemName) ∧
        writeThere t path manifest c w =
          (written t q manifest c, .ok (summarize (items manifest c))) := by
  unfold writeThere
  cases hmake : Draft.make? t path w with
  | none => exact .inl ⟨_, rfl⟩
  | some d =>
    obtain ⟨hbeside, hnew⟩ := Draft.beside_of_make? hmake
    have hfill := hbeside.fill path w (manifestItem manifest) (layout c)
    obtain ⟨-, -, hwritten⟩ := Draft.fill_eq path w (manifestItem manifest) (layout c) d
    dsimp only
    split
    · next d' e hd =>
      rw [hd] at hfill
      exact .inl ⟨e, by rw [hfill.discard_eq]⟩
    · next d' hd =>
      rw [hd] at hfill hwritten
      obtain ⟨hall, hnames⟩ := hwritten rfl
      have hitems : d'.items = items manifest c := by
        rw [Draft.items, hall, hnew]
        simp [items]
      cases hfinish : d'.finish? w with
      | none => exact .inl ⟨_, by rw [hfill.discard_eq]⟩
      | some d'' =>
        obtain ⟨hcomplete, hsame, hmade⟩ := hfill.finish? hfinish
        rw [hitems] at hsame hmade
        dsimp only
        rw [Draft.replace?_eq hcomplete.free hmade]
        by_cases hfail : w.failing .replace = true
        · rw [if_pos hfail]
          exact .inl ⟨_, by rw [hcomplete.discard_eq]⟩
        · rw [if_neg hfail]
          cases hq : t.filePlace? path with
          | none => exact .inl ⟨_, by rw [Option.map_none, hcomplete.discard_eq]⟩
          | some q => exact .inr ⟨q, rfl, hnames, by rw [Option.map_some, hsame]; rfl⟩

/-- Writing that fails leaves nothing behind but directories that the output was to lie in. -/
theorem write_eq (t : FileTree) (path : String) (manifest : Attributes) (c : Contents)
    (w : Circumstances) :
    (∃ u e, write t path manifest c w = (u, .error e) ∧ FileTree.MadeWay (Path.directoryOf path) t u) ∨
      ∃ u q, t.makeDirectory (Path.directoryOf path) (w.failing ∘ .directory) = (u, none) ∧
        u.filePlace? path = some q ∧ (∀ i ∈ layout c, i.name.utf8ByteSize ≤ maxItemName) ∧
        write t path manifest c w = (written u q manifest c, .ok (summarize (items manifest c))) := by
  have hway := t.madeWay_makeDirectory (Path.directoryOf path) (w.failing ∘ .directory)
  unfold write
  split
  · next u fault hmade =>
    rw [hmade] at hway
    exact .inl ⟨u, _, rfl, hway⟩
  · next u hmade =>
    rw [hmade] at hway
    obtain ⟨e, he⟩ | ⟨q, hq, hnames, hwrite⟩ := writeThere_eq u path manifest c w
    · exact .inl ⟨u, e, he, hway⟩
    · exact .inr ⟨u, q, hmade, hq, hnames, hwrite⟩

theorem find_written {q : Place} (h : t.filePlace? path = some q) (manifest : Attributes) (c : Contents) :
    (written t q manifest c).find path = .ok (.file (Zip.encode (items manifest c))) :=
  FileTree.find_set_file h _

theorem write_eq_ok {s : Summary} (h : write t path manifest c w = (u, .ok s)) :
    ∃ v q, t.makeDirectory (Path.directoryOf path) (w.failing ∘ .directory) = (v, none) ∧
      v.filePlace? path = some q ∧ (∀ i ∈ layout c, i.name.utf8ByteSize ≤ maxItemName) ∧
      u = written v q manifest c ∧ s = summarize (items manifest c) := by
  obtain ⟨v, e, he, -⟩ | ⟨v, q, hmade, hq, hnames, hwrite⟩ := write_eq t path manifest c w
  · rw [he] at h
    cases h
  · rw [hwrite, Prod.mk.injEq, Except.ok.injEq] at h
    exact ⟨v, q, hmade, hq, hnames, h.1.symm, h.2.symm⟩

section Again

variable {v : FileTree} {q : Place} {refused : Place → Bool}

theorem sameDirectories_written (hq : v.filePlace? path = some q) (manifest : Attributes) (c : Contents) :
    FileTree.SameDirectories v (written v q manifest c) :=
  FileTree.SameDirectories.set_file (FileTree.filePlace?_eq_some hq).2 _

theorem madeFile_written (hmade : t.makeDirectory (Path.directoryOf path) refused = (v, none))
    (hq : v.filePlace? path = some q) (manifest : Attributes) (c : Contents) :
    FileTree.MadeFile path q t (written v q manifest c) := by
  have hway := t.madeWay_makeDirectory (Path.directoryOf path) refused
  rw [hmade] at hway
  exact hway.set_file hq _

theorem write_at_written (hmade : t.makeDirectory (Path.directoryOf path) refused = (v, none))
    (hq : v.filePlace? path = some q) (w : Circumstances) :
    write (written v q manifest c) path manifest c w =
      writeThere (written v q manifest c) path manifest c w := by
  rw [write, FileTree.makeDirectory_again hmade (sameDirectories_written hq manifest c)]

/-- Writing the same once more leaves all files as they are, whether or not it succeeds. -/
theorem write_again (hmade : t.makeDirectory (Path.directoryOf path) refused = (v, none))
    (hq : v.filePlace? path = some q) (manifest : Attributes) (c : Contents) (w : Circumstances) :
    (write (written v q manifest c) path manifest c w).1 = written v q manifest c ∧
      ∀ s, (write (written v q manifest c) path manifest c w).2 = .ok s →
        s = summarize (items manifest c) := by
  rw [write_at_written hmade hq]
  obtain ⟨e, he⟩ | ⟨q', hq', -, hwrite⟩ := writeThere_eq (written v q manifest c) path manifest c w
  · rw [he]
    exact ⟨rfl, fun s hs => by cases hs⟩
  · rw [(sameDirectories_written hq manifest c).filePlace?_eq, hq] at hq'
    obtain rfl := Option.some.inj hq'
    rw [hwrite]
    exact ⟨FileTree.set_set _ _ _ _, fun s hs => (Except.ok.inj hs).symm⟩

structure Circumstances.Undisturbed (w : Circumstances) : Prop where
  notCancelled : ∀ index, w.cancelled index = false
  notFailing : ∀ step, w.failing step = false

theorem Draft.putItems_of_undisturbed (hw : w.Undisturbed) (index : Nat)
    (hnames : ∀ i ∈ is, i.name.utf8ByteSize ≤ maxItemName) (d : Draft) :
    (putItems path w index is d).2 = none := by
  induction is generalizing index d with
  | nil => rfl
  | cons i is ih =>
    obtain ⟨hname, hlater⟩ := List.forall_mem_cons.mp hnames
    have hput : (maxItemName < i.name.utf8ByteSize || w.failing (.item index)) = false := by
      rw [hw.notFailing, Bool.or_false, decide_eq_false_iff_not, Nat.not_lt]
      exact hname
    rw [putItems, hw.notCancelled, if_neg Bool.false_ne_true, hput, if_neg Bool.false_ne_true]
    exact ih _ hlater _

theorem writeThere_of_undisturbed (hw : w.Undisturbed) (hdraft : (Draft.make? t path w).isSome)
    (hq : t.filePlace? path = some q) (hnames : ∀ i ∈ layout c, i.name.utf8ByteSize ≤ maxItemName) :
    ∃ u s, writeThere t path manifest c w = (u, .ok s) := by
  obtain ⟨d, hmake⟩ := Option.isSome_iff_exists.mp hdraft
  have hfilled : (d.fill path w (manifestItem manifest) (layout c)).2 = none := by
    rw [Draft.fill, hw.notFailing, if_neg Bool.false_ne_true]
    exact Draft.putItems_of_undisturbed hw 0 hnames _
  have hbeside := (Draft.beside_of_make? hmake).1.fill path w (manifestItem manifest) (layout c)
  unfold writeThere
  rw [hmake]
  dsimp only
  generalize d.fill path w (manifestItem manifest) (layout c) = filled at hfilled hbeside ⊢
  obtain ⟨d', error⟩ := filled
  obtain rfl : error = none := hfilled
  cases hfinish : d'.finish? w with
  | none =>
    rw [Draft.finish?, hw.notFailing, if_neg Bool.false_ne_true] at hfinish
    cases hfinish
  | some d'' =>
    obtain ⟨hcomplete, -, hmade⟩ := hbeside.finish? hfinish
    dsimp only
    rw [hfinish]
    dsimp only
    rw [Draft.replace?_eq hcomplete.free hmade, hw.notFailing, if_neg Bool.false_ne_true, hq]
    exact ⟨_, _, rfl⟩

theorem write_again_of_undisturbed (hmade : t.makeDirectory (Path.directoryOf path) refused = (v, none))
    (hq : v.filePlace? path = some q) (hnames : ∀ i ∈ layout c, i.name.utf8ByteSize ≤ maxItemName)
    (hw : w.Undisturbed) (hdraft : (Draft.make? (written v q manifest c) path w).isSome) :
    ∃ u s, write (written v q manifest c) path manifest c w = (u, .ok s) := by
  rw [write_at_written hmade hq]
  exact writeThere_of_undisturbed hw hdraft
    (((sameDirectories_written hq manifest c).filePlace?_eq path).trans hq) hnames

end Again

end FatJar.Output
