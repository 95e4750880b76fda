import FatJar.Output.Writer
import FatJar.Proofs.Entry.Enclosed
import FatJar.Proofs.Entry.Kind
import FatJar.Proofs.Entry.Proper
import Mathlib.Data.List.Basic

namespace FatJar.Output

open Zip (Content Item)

variable {i new : Item} {is : List Item} {m : Member} {c : Contents} {path dir : String}

theorem mem_of_mem_insertItem (h : i ∈ insertItem new is) : i = new ∨ i ∈ is := by
  induction is with
  | nil => exact .inl (List.mem_singleton.mp h)
  | cons x xs ih =>
    unfold insertItem at h
    split at h
    · exact List.mem_cons.mp h
    · split at h
      · split at h
        · exact (List.mem_cons.mp h).imp_right (List.mem_cons_of_mem _)
        · exact .inr h
      · obtain rfl | h := List.mem_cons.mp h
        · exact .inr List.mem_cons_self
        · exact (ih h).imp_right (List.mem_cons_of_mem _)

/-- Whether a path leads through a directory, which is named with its slash. -/
def LeadsThrough (path dir : String) : Prop :=
  ∃ passed rest, dir.toList = passed ++ ['/'] ∧ path.toList = dir.toList ++ rest

theorem mem_directoriesFrom {before cs : List Char} (h : dir ∈ directoriesFrom before cs) :
    ∃ passed rest, dir.toList = passed ++ ['/'] ∧ before.reverse ++ cs = dir.toList ++ rest := by
  induction cs generalizing before with
  | nil => simp [directoriesFrom] at h
  | cons c cs ih =>
    have hlater : dir ∈ directoriesFrom (c :: before) cs →
        ∃ passed rest, dir.toList = passed ++ ['/'] ∧
          before.reverse ++ c :: cs = dir.toList ++ rest := by
      intro h
      simpa using ih h
    unfold directoriesFrom at h
    dsimp only at h
    split at h
    · next hc =>
      subst hc
      obtain rfl | h := List.mem_cons.mp h
      · exact ⟨before.reverse, cs, by simp, by simp⟩
      · exact hlater h
    · exact hlater h

theorem leadsThrough_of_mem_directories (h : dir ∈ directories path) : LeadsThrough path dir :=
  mem_directoriesFrom h

theorem mem_of_mem_insertDirectories {dirs : List String}
    (h : i ∈ dirs.foldr (fun d items => insertItem (directoryItem d) items) is) :
    (∃ dir ∈ dirs, i = directoryItem dir) ∨ i ∈ is := by
  induction dirs with
  | nil => exact .inr h
  | cons d dirs ih =>
    obtain rfl | h := mem_of_mem_insertItem h
    · exact .inl ⟨d, List.mem_cons_self, rfl⟩
    · exact (ih h).imp_left fun ⟨dir, hdir, hi⟩ => ⟨dir, List.mem_cons_of_mem _ hdir, hi⟩

def fileItem (m : Member) : Item :=
  ⟨m.path, .file m.payload⟩

theorem mem_of_mem_insertMembers {ms : List Member} (h : i ∈ ms.foldr insertMember []) :
    ∃ m ∈ ms, i = fileItem m ∨ ∃ dir, LeadsThrough m.path dir ∧ i = directoryItem dir := by
  induction ms with
  | nil => simp at h
  | cons m ms ih =>
    obtain h | h := mem_of_mem_insertItem h
    · exact ⟨m, List.mem_cons_self, .inl h⟩
    · obtain ⟨dir, hdir, hi⟩ | h := mem_of_mem_insertDirectories h
      · exact ⟨m, List.mem_cons_self, .inr ⟨dir, leadsThrough_of_mem_directories hdir, hi⟩⟩
      · obtain ⟨n, hn, hi⟩ := ih h
        exact ⟨n, List.mem_cons_of_mem _ hn, hi⟩

/-- Behind the manifest stand members, directories that they lie in, and the one of the manifest. -/
theorem mem_of_mem_layout (h : i ∈ layout c) :
    (∃ m ∈ c.members, m.path ≠ manifestPath ∧ i = fileItem m) ∨
      ∃ dir, i = directoryItem dir ∧
        (dir = metaInf ∨ ∃ m ∈ c.members, LeadsThrough m.path dir) := by
  obtain rfl | h := mem_of_mem_insertItem h
  · exact .inr ⟨metaInf, rfl, .inl rfl⟩
  · obtain ⟨m, hm, hi⟩ := mem_of_mem_insertMembers h
    obtain ⟨hm, hpath⟩ := List.mem_filter.mp hm
    obtain rfl | ⟨dir, hdir, rfl⟩ := hi
    · exact .inl ⟨m, hm, by simpa using hpath, rfl⟩
    · exact .inr ⟨dir, rfl, .inr ⟨m, hm, hdir⟩⟩

theorem isDirectoryPath_of_leadsThrough (h : LeadsThrough path dir) :
    isDirectoryPath dir = true := by
  obtain ⟨passed, rest, hdir, -⟩ := h
  simp [isDirectoryPath, hdir]

/-- Items that are an archive of their own: it begins with its manifest, has no second one and no
signature of what its contents were before, and no file is empty or named like a directory. -/
structure Tidy (items : List Item) : Prop where
  manifestFirst : items.head?.map Item.name = some manifestPath
  manifestOnce : ∀ i ∈ items.tail, Ascii.eqIgnoreCase i.name manifestPath = false
  noSignature : ∀ i ∈ items, EntryKind.ofPath i.name ≠ .signature
  nonempty : ∀ i ∈ items, i.content ≠ .file []
  filesNamed : ∀ i ∈ items, ∀ payload, i.content = .file payload → isDirectoryPath i.name = false

theorem render_ne_nil (a : Attributes) : Manifest.render a ≠ [] := by
  unfold Manifest.render
  rw [Ne, Utf8.encode_eq_nil_iff]
  simp [Manifest.lineEnd]

/-- Each item behind the manifest is a directory, or a file of one of the kinds that are written. -/
theorem kind_of_mem_layout (h : i ∈ layout c) (hc : ∀ m ∈ c.members, m.Proper) :
    (i.content = .directory ∧ isDirectoryPath i.name = true) ∨
      ∃ payload, i.content = .file payload ∧ payload ≠ [] ∧
        (EntryKind.ofPath i.name).isContent = true := by
  obtain ⟨m, hm, -, rfl⟩ | ⟨dir, rfl, rfl | ⟨m, -, hdir⟩⟩ := mem_of_mem_layout h
  · have hm := hc m hm
    exact .inr ⟨m.payload, rfl, hm.nonempty, hm.kind ▸ hm.content⟩
  · exact .inl ⟨rfl, by decide⟩
  · exact .inl ⟨rfl, isDirectoryPath_of_leadsThrough hdir⟩

theorem tidy_items (manifest : Attributes) (hc : ∀ m ∈ c.members, m.Proper) :
    Tidy (items manifest c) where
  manifestFirst := rfl
  manifestOnce := by
    intro i hi
    obtain ⟨-, hdir⟩ | ⟨payload, -, -, hcontent⟩ := kind_of_mem_layout hi hc
    · exact not_manifest_of_isDirectoryPath hdir
    · exact not_manifest_of_isContent hcontent
  noSignature := by
    intro i hi
    obtain rfl | hi := List.mem_cons.mp hi
    · exact (by decide : EntryKind.ofPath manifestPath ≠ .signature)
    · obtain ⟨-, hdir⟩ | ⟨payload, -, -, hcontent⟩ := kind_of_mem_layout hi hc
      · rw [ofPath_eq_directory_iff.mpr hdir]
        decide
      · intro hsig
        rw [hsig] at hcontent
        exact absurd hcontent (by decide)
  nonempty := by
    intro i hi
    obtain rfl | hi := List.mem_cons.mp hi
    · simpa [manifestItem] using render_ne_nil manifest
    · obtain ⟨hdir, -⟩ | ⟨payload, hfile, hne, -⟩ := kind_of_mem_layout hi hc
      · simp [hdir]
      · simpa [hfile] using hne
  filesNamed := by
    intro i hi payload hfile
    obtain rfl | hi := List.mem_cons.mp hi
    · exact (by decide : isDirectoryPath manifestPath = false)
    · obtain ⟨hdir, -⟩ | ⟨payload', -, -, hcontent⟩ := kind_of_mem_layout hi hc
      · simp [hdir] at hfile
      · exact not_directory_of_isContent hcontent

/-- Where the members lie below the root, so does all that is written beside the manifest. -/
theorem enclosed_of_mem_layout (h : i ∈ layout c) (hc : ∀ m ∈ c.members, Enclosed m.path) :
    Enclosed i.name := by
  rcases mem_of_mem_layout h with ⟨m, hm, -, rfl⟩ |
    ⟨dir, rfl, rfl | ⟨m, hm, passed, rest, hdir, hpath⟩⟩
  · exact hc m hm
  · exact enclosed_iff.mpr ⟨by decide, by decide, by decide⟩
  · exact (hc m hm).directory hdir hpath

end FatJar.Output
