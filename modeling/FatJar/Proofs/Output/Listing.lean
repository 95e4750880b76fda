import FatJar.Proofs.Entry.Contents
import FatJar.Proofs.Lists
import FatJar.Proofs.Output.Layout
import FatJar.Proofs.Output.Writer
import FatJar.Proofs.Text.Utf8
import Mathlib.Data.Set.Card

namespace FatJar.Output

open Zip (Content Item)

variable {i new : Item} {is : List Item} {m : Member} {c : Contents} {path dir : String}
  {t u : FileTree} {manifest : Attributes} {w : Circumstances}

section Order

def InByteOrder (is : List Item) : Prop :=
  is.Pairwise fun a b => utf8 a.name < utf8 b.name

theorem InByteOrder.nodup (h : InByteOrder is) : (is.map Item.name).Nodup := by
  rw [List.Nodup, List.pairwise_map]
  refine h.imp fun {a b} hlt he => ?_
  rw [he] at hlt
  exact absurd hlt (List.lt_irrefl _)

theorem InByteOrder.insertItem (h : InByteOrder is) : InByteOrder (insertItem new is) := by
  induction is with
  | nil => exact List.pairwise_singleton _ _
  | cons x xs ih =>
    obtain ⟨hx, hxs⟩ := List.pairwise_cons.mp h
    unfold Output.insertItem
    split
    · next hlt =>
      refine List.pairwise_cons.mpr ⟨fun y hy => ?_, h⟩
      obtain rfl | hy := List.mem_cons.mp hy
      · exact hlt
      · exact List.lt_trans hlt (hx y hy)
    · next hge =>
      split
      · next hname =>
        split
        · exact List.pairwise_cons.mpr ⟨fun y hy => hname ▸ hx y hy, hxs⟩
        · exact h
      · next hname =>
        refine List.pairwise_cons.mpr ⟨fun y hy => ?_, ih hxs⟩
        obtain rfl | hy := mem_of_mem_insertItem hy
        · exact Std.lt_of_le_of_ne (List.not_lt.mp hge) fun he => hname (utf8_injective he).symm
        · exact hx y hy

theorem inByteOrder_foldr (is : List Item) : InByteOrder (is.foldr insertItem []) := by
  induction is with
  | nil => exact List.Pairwise.nil
  | cons i is ih => exact ih.insertItem

end Order

section Directories

theorem mem_directoriesFrom_append (before passed rest : List Char) :
    String.ofList (before.reverse ++ passed ++ ['/']) ∈ directoriesFrom before (passed ++ '/' :: rest) := by
  induction passed generalizing before with
  | nil => simp [directoriesFrom]
  | cons c passed ih =>
    have hlater := ih (c :: before)
    rw [List.reverse_cons, List.append_assoc before.reverse, List.singleton_append] at hlater
    rw [List.cons_append, directoriesFrom]
    split
    · exact List.mem_cons_of_mem _ hlater
    · exact hlater

theorem mem_directories_iff : dir ∈ directories path ↔ LeadsThrough path dir := by
  constructor
  · exact leadsThrough_of_mem_directories
  · rintro ⟨passed, rest, hdir, hpath⟩
    rw [hdir, List.append_assoc, List.singleton_append] at hpath
    have hmem := mem_directoriesFrom_append [] passed rest
    rw [← hpath, List.reverse_nil, List.nil_append, ← hdir, String.ofList_toList] at hmem
    exact hmem

theorem LeadsThrough.trans {other : String} (h : LeadsThrough path dir) (h' : LeadsThrough dir other) :
    LeadsThrough path other := by
  obtain ⟨-, rest, -, hpath⟩ := h
  obtain ⟨passed, rest', hother, hdir⟩ := h'
  exact ⟨passed, rest' ++ rest, hother, by rw [hpath, hdir, List.append_assoc]⟩

theorem leadsThrough_metaInf (h : LeadsThrough metaInf dir) : dir = metaInf := by
  have hall : directories metaInf = [metaInf] := by decide
  exact List.mem_singleton.mp (hall ▸ mem_directories_iff.mpr h)

theorem LeadsThrough.lt (h : LeadsThrough path dir) (hne : dir ≠ path) : utf8 dir < utf8 path := by
  obtain ⟨-, rest, -, hpath⟩ := h
  have hbegins : utf8 dir <+: utf8 path :=
    ⟨Utf8.encode rest, by rw [utf8, utf8, hpath, Utf8.encode_append]⟩
  exact Std.lt_of_le_of_ne hbegins.le fun he => hne (utf8_injective he)

end Directories

section Members

/-- The members that are written: one in the place of the manifest is left out. -/
def writtenMembers (c : Contents) : List Member :=
  c.members.filter (·.path != manifestPath)

def listed (c : Contents) : List Item :=
  directoryItem metaInf ::
    (writtenMembers c).flatMap fun m => fileItem m :: (directories m.path).map directoryItem

theorem layout_eq_foldr (c : Contents) : layout c = (listed c).foldr insertItem [] := by
  have hmembers : ∀ ms : List Member, ms.foldr insertMember [] =
      (ms.flatMap fun m => fileItem m :: (directories m.path).map directoryItem).foldr insertItem [] := by
    intro ms
    induction ms with
    | nil => rfl
    | cons m ms ih =>
      rw [List.foldr_cons, ih, List.flatMap_cons, List.foldr_append, List.foldr_cons, List.foldr_map]
      rfl
  rw [layout, hmembers]
  rfl

theorem inByteOrder_layout (c : Contents) : InByteOrder (layout c) :=
  layout_eq_foldr c ▸ inByteOrder_foldr (listed c)

theorem mem_writtenMembers_iff : m ∈ writtenMembers c ↔ m ∈ c.members ∧ m.path ≠ manifestPath := by
  rw [writtenMembers, List.mem_filter, bne_iff_ne]

theorem mem_listed_iff :
    i ∈ listed c ↔ i = directoryItem metaInf ∨ ∃ m ∈ writtenMembers c, i = fileItem m ∨
      ∃ dir, LeadsThrough m.path dir ∧ i = directoryItem dir := by
  unfold listed
  rw [List.mem_cons, List.mem_flatMap]
  simp only [List.mem_cons, List.mem_map, mem_directories_iff, eq_comm (a := i)]

theorem eq_of_mem_listed (hc : ∀ m ∈ c.members, isDirectoryPath m.path = false) (hi : i ∈ listed c)
    (hnew : new ∈ listed c) (h : i.name = new.name) : i = new := by
  have hkinds : ∀ {i}, i ∈ listed c →
      (∃ m ∈ c.members, i = fileItem m) ∨ ∃ dir, isDirectoryPath dir = true ∧ i = directoryItem dir := by
    intro i hi
    obtain rfl | ⟨m, hm, rfl | ⟨dir, hdir, rfl⟩⟩ := mem_listed_iff.mp hi
    · exact .inr ⟨metaInf, by decide, rfl⟩
    · exact .inl ⟨m, (mem_writtenMembers_iff.mp hm).1, rfl⟩
    · exact .inr ⟨dir, isDirectoryPath_of_leadsThrough hdir, rfl⟩
  obtain ⟨m, hm, rfl⟩ | ⟨dir, hdir, rfl⟩ := hkinds hi <;>
    obtain ⟨n, hn, rfl⟩ | ⟨dir', hdir', rfl⟩ := hkinds hnew
  · rw [Contents.eq_of_path hm hn h]
  · have hpath : m.path = dir' := h
    rw [← hpath, hc m hm] at hdir'
    exact absurd hdir' (by decide)
  · have hpath : dir = n.path := h
    rw [hpath, hc n hn] at hdir
    exact absurd hdir (by decide)
  · exact congrArg directoryItem h

theorem mem_insertItem_iff (h : ∀ x ∈ is, x.name = new.name → x = new) :
    i ∈ insertItem new is ↔ i = new ∨ i ∈ is := by
  induction is with
  | nil => simp [insertItem]
  | cons x xs ih =>
    obtain ⟨hx, hxs⟩ := List.forall_mem_cons.mp h
    unfold insertItem
    split
    · exact List.mem_cons
    · split
      · next hname =>
        obtain rfl := hx hname.symm
        split
        · next hdirectory hfile =>
          rw [hdirectory] at hfile
          cases hfile
        · simp
      · rw [List.mem_cons, ih hxs, List.mem_cons]
        exact or_left_comm

theorem mem_foldr_insertItem_iff (h : ∀ x ∈ is, ∀ y ∈ is, x.name = y.name → x = y) :
    i ∈ is.foldr insertItem [] ↔ i ∈ is := by
  induction is generalizing i with
  | nil => rfl
  | cons x xs ih =>
    have hxs : ∀ {i}, i ∈ xs.foldr insertItem [] ↔ i ∈ xs :=
      ih fun y hy z hz => h y (List.mem_cons_of_mem _ hy) z (List.mem_cons_of_mem _ hz)
    rw [List.foldr_cons, mem_insertItem_iff, List.mem_cons, hxs]
    intro y hy hname
    exact h y (List.mem_cons_of_mem _ (hxs.mp hy)) x List.mem_cons_self hname

def writtenDirectories (c : Contents) : List String :=
  (metaInf :: (writtenMembers c).flatMap fun m => directories m.path).eraseDups

theorem mem_writtenDirectories_iff :
    dir ∈ writtenDirectories c ↔ dir = metaInf ∨ ∃ m ∈ c.members, LeadsThrough m.path dir := by
  unfold writtenDirectories
  rw [List.mem_eraseDups, List.mem_cons, List.mem_flatMap]
  simp only [mem_directories_iff, mem_writtenMembers_iff]
  constructor
  · rintro (rfl | ⟨m, ⟨hm, -⟩, hdir⟩)
    · exact .inl rfl
    · exact .inr ⟨m, hm, hdir⟩
  · rintro (rfl | ⟨m, hm, hdir⟩)
    · exact .inl rfl
    · by_cases hpath : m.path = manifestPath
      · -- The manifest lies in no other directory.
        have hall : directories manifestPath = [metaInf] := by decide
        rw [hpath, ← mem_directories_iff, hall] at hdir
        exact .inl (List.mem_singleton.mp hdir)
      · exact .inr ⟨m, ⟨hm, hpath⟩, hdir⟩

theorem nodup_writtenDirectories (c : Contents) : (writtenDirectories c).Nodup :=
  nodup_eraseDups _

theorem length_writtenDirectories (c : Contents) :
    (writtenDirectories c).length =
      {dir | dir = metaInf ∨ ∃ m ∈ c.members, LeadsThrough m.path dir}.ncard := by
  rw [← List.toFinset_card_of_nodup (nodup_writtenDirectories c), ← Set.ncard_coe_finset]
  congr 1
  ext dir
  rw [Finset.mem_coe, List.mem_toFinset]
  exact mem_writtenDirectories_iff

theorem mem_layout_iff (hc : ∀ m ∈ c.members, isDirectoryPath m.path = false) :
    i ∈ layout c ↔ (∃ m ∈ writtenMembers c, i = fileItem m) ∨
      ∃ dir ∈ writtenDirectories c, i = directoryItem dir := by
  rw [layout_eq_foldr, mem_foldr_insertItem_iff fun x hx y hy => eq_of_mem_listed hc hx hy,
    mem_listed_iff]
  unfold writtenDirectories
  simp only [List.mem_eraseDups, List.mem_cons, List.mem_flatMap, mem_directories_iff]
  constructor
  · rintro (rfl | ⟨m, hm, rfl | ⟨dir, hdir, rfl⟩⟩)
    · exact .inr ⟨metaInf, .inl rfl, rfl⟩
    · exact .inl ⟨m, hm, rfl⟩
    · exact .inr ⟨dir, .inr ⟨m, hm, hdir⟩, rfl⟩
  · rintro (⟨m, hm, rfl⟩ | ⟨dir, rfl | ⟨m, hm, hdir⟩, rfl⟩)
    · exact .inr ⟨m, hm, .inl rfl⟩
    · exact .inl rfl
    · exact .inr ⟨m, hm, .inr ⟨dir, hdir, rfl⟩⟩

end Members

section Counting

theorem layout_perm (hc : ∀ m ∈ c.members, isDirectoryPath m.path = false) :
    (layout c).Perm ((writtenMembers c).map fileItem ++ (writtenDirectories c).map directoryItem) := by
  have hfiles : ((writtenMembers c).map fileItem).Nodup := by
    refine List.Nodup.map_on (fun m hm n hn h => ?_) (c.inOrder.nodup.filter _)
    exact Contents.eq_of_path (mem_writtenMembers_iff.mp hm).1 (mem_writtenMembers_iff.mp hn).1
      (congrArg Item.name h)
  have hdirectories : ((writtenDirectories c).map directoryItem).Nodup :=
    (nodup_writtenDirectories c).map fun d d' h => congrArg Item.name h
  have hapart : ∀ i ∈ (writtenMembers c).map fileItem,
      i ∉ (writtenDirectories c).map directoryItem := by
    simp [fileItem, directoryItem]
  refine (List.perm_ext_iff_of_nodup (inByteOrder_layout c).nodup.of_map ?_).mpr fun i => ?_
  · exact List.nodup_append'.mpr ⟨hfiles, hdirectories, hapart⟩
  · rw [mem_layout_iff hc, List.mem_append, List.mem_map, List.mem_map]
    simp only [eq_comm (a := i)]

theorem foldl_add_files (ms : List Member) (s : Summary) :
    (ms.map fileItem).foldl Summary.add s =
      { s with files := s.files + ms.length, bytes := s.bytes + (ms.map (·.payload.length)).sum } := by
  induction ms generalizing s with
  | nil => rfl
  | cons m ms ih =>
    rw [List.map_cons, List.foldl_cons, ih, List.map_cons, List.sum_cons, List.length_cons]
    simp [Summary.add, fileItem, Nat.add_assoc, Nat.add_comm 1]

theorem foldl_add_directories (dirs : List String) (s : Summary) :
    (dirs.map directoryItem).foldl Summary.add s =
      { s with directories := s.directories + dirs.length } := by
  induction dirs generalizing s with
  | nil => rfl
  | cons d dirs ih =>
    rw [List.map_cons, List.foldl_cons, ih, List.length_cons]
    simp [Summary.add, directoryItem, Nat.add_assoc, Nat.add_comm 1]

instance : RightCommutative Summary.add where
  right_comm s i j := by
    unfold Summary.add
    cases i.content <;> cases j.content <;> simp [Nat.add_right_comm]

theorem summarize_items (manifest : Attributes)
    (hc : ∀ m ∈ c.members, isDirectoryPath m.path = false) :
    summarize (items manifest c) =
      ⟨1 + (writtenMembers c).length, (writtenDirectories c).length,
        (Manifest.render manifest).length + ((writtenMembers c).map (·.payload.length)).sum⟩ := by
  unfold summarize items
  rw [List.foldl_cons, (layout_perm hc).foldl_eq, List.foldl_append, foldl_add_files,
    foldl_add_directories]
  simp [Summary.add, manifestItem]

end Counting

/-- Whether items are the members, but for one in the place of the manifest, with all directories that a
member lies in. Each directory stands before what lies in it. -/
structure Lists (c : Contents) (is : List Item) : Prop where
  inByteOrder : InByteOrder is
  mem_iff : ∀ i, i ∈ is ↔
    (∃ m ∈ c.members, m.path ≠ manifestPath ∧ i = fileItem m) ∨ i = directoryItem metaInf ∨
      ∃ m ∈ c.members, ∃ dir, LeadsThrough m.path dir ∧ i = directoryItem dir
  parentFirst : ∀ before i after, is = before ++ i :: after → ∀ dir, LeadsThrough i.name dir →
    dir ≠ i.name → directoryItem dir ∈ before

section Listing

variable (hc : ∀ m ∈ c.members, isDirectoryPath m.path = false)

include hc

theorem mem_layout_iff_leadsThrough :
    i ∈ layout c ↔ (∃ m ∈ c.members, m.path ≠ manifestPath ∧ i = fileItem m) ∨ i = directoryItem metaInf ∨
      ∃ m ∈ c.members, ∃ dir, LeadsThrough m.path dir ∧ i = directoryItem dir := by
  rw [mem_layout_iff hc]
  simp only [mem_writtenMembers_iff, mem_writtenDirectories_iff, and_assoc]
  refine or_congr_right ⟨?_, ?_⟩
  · rintro ⟨dir, rfl | ⟨m, hm, hdir⟩, rfl⟩
    · exact .inl rfl
    · exact .inr ⟨m, hm, dir, hdir, rfl⟩
  · rintro (rfl | ⟨m, hm, dir, hdir, rfl⟩)
    · exact ⟨metaInf, .inl rfl, rfl⟩
    · exact ⟨dir, .inr ⟨m, hm, hdir⟩, rfl⟩

theorem directoryItem_mem_layout (hi : i ∈ layout c) (h : LeadsThrough i.name dir) :
    directoryItem dir ∈ layout c := by
  rw [mem_layout_iff_leadsThrough hc] at hi ⊢
  obtain ⟨m, hm, -, rfl⟩ | rfl | ⟨m, hm, dir', hdir', rfl⟩ := hi
  · exact .inr (.inr ⟨m, hm, dir, h, rfl⟩)
  · rw [leadsThrough_metaInf h]
    exact .inr (.inl rfl)
  · exact .inr (.inr ⟨m, hm, dir, hdir'.trans h, rfl⟩)

theorem lists_layout : Lists c (layout c) where
  inByteOrder := inByteOrder_layout c
  mem_iff _ := mem_layout_iff_leadsThrough hc
  parentFirst := by
    intro before i after hsplit dir hdir hne
    have horder := inByteOrder_layout c
    have hmem : directoryItem dir ∈ layout c :=
      directoryItem_mem_layout hc (i := i) (by simp [hsplit]) hdir
    rw [hsplit, InByteOrder, List.pairwise_append, List.pairwise_cons] at horder
    obtain ⟨-, ⟨hafter, -⟩, -⟩ := horder
    rw [hsplit] at hmem
    refine (List.mem_append.mp hmem).resolve_right fun hlate => ?_
    obtain rfl | hlate := List.mem_cons.mp hlate
    · exact hne rfl
    · exact absurd (List.lt_trans (hdir.lt hne) (hafter _ hlate)) (List.lt_irrefl _)

theorem nodup_items (manifest : Attributes) : ((items manifest c).map Item.name).Nodup := by
  refine List.nodup_cons.mpr ⟨fun hmem => ?_, (inByteOrder_layout c).nodup⟩
  obtain ⟨i, hi, hname⟩ := List.mem_map.mp hmem
  obtain ⟨m, hm, rfl⟩ | ⟨dir, hdir, rfl⟩ := (mem_layout_iff hc).mp hi
  · exact (mem_writtenMembers_iff.mp hm).2 hname
  · have hdirectory : isDirectoryPath dir = true := by
      obtain rfl | ⟨m, -, hleads⟩ := mem_writtenDirectories_iff.mp hdir
      · decide
      · exact isDirectoryPath_of_leadsThrough hleads
    have hpath : dir = manifestPath := hname
    rw [hpath] at hdirectory
    exact absurd hdirectory (by decide)

/-- Writing puts at the path of the output the manifest, behind it the members and the directories that
they lie in, and counts them. -/
theorem write_lists {s : Summary} (h : write t path manifest c w = (u, .ok s)) :
    (∃ is, u.find path = .ok (.file (Zip.encode (manifestItem manifest :: is))) ∧ Lists c is ∧
        ((manifestItem manifest :: is).map Item.name).Nodup) ∧
      s.files = 1 + (c.members.filter (·.path != manifestPath)).length ∧
      s.directories = {dir | dir = metaInf ∨ ∃ m ∈ c.members, LeadsThrough m.path dir}.ncard ∧
      s.bytes = (Manifest.render manifest).length +
        ((c.members.filter (·.path != manifestPath)).map (·.payload.length)).sum := by
  obtain ⟨v, q, -, hq, -, rfl, rfl⟩ := write_eq_ok h
  rw [summarize_items manifest hc, ← length_writtenDirectories]
  exact ⟨⟨layout c, find_written hq manifest c, lists_layout hc, nodup_items hc manifest⟩, rfl, rfl, rfl⟩

end Listing

def nested : Contents :=
  ⟨[⟨"META-INF/MANIFEST.MF", .manifest, utf8 "X: y", { name := "app" }⟩,
      ⟨"a//b.txt", .resource, utf8 "b", { name := "app" }⟩,
      ⟨"a/c.txt", .resource, utf8 "cc", { name := "lib" }⟩], by unfold InOrder; decide⟩

/-- Two members in directories, one of them without a name, and one in the place of the manifest. -/
theorem nested_listed :
    (∀ m ∈ nested.members, isDirectoryPath m.path = false) ∧
      ∃ u, write .empty "out.jar" .empty nested {} = (u, .ok ⟨3, 3, 5⟩) ∧
        ∃ is, u.find "out.jar" = .ok (.file (Zip.encode (manifestItem .empty :: is))) ∧ Lists nested is ∧
          ((manifestItem .empty :: is).map Item.name).Nodup := by
  have hfiles : ∀ m ∈ nested.members, isDirectoryPath m.path = false := by decide
  have hwrite : write .empty "out.jar" .empty nested {} =
      ((write .empty "out.jar" .empty nested {}).1, .ok ⟨3, 3, 5⟩) := by
    refine Prod.ext rfl ?_
    decide +kernel
  exact ⟨hfiles, _, hwrite, (write_lists hfiles hwrite).1⟩

end FatJar.Output
