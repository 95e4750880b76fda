import FatJar.Entry.Registrations
import FatJar.Proofs.Text.Parts
import FatJar.Proofs.Text.Scalars

namespace FatJar

section Trimming

variable {c : Char} {cs : List Char}

theorem mem_dropWhile_of_not {p : Char → Bool} (hc : c ∈ cs) (hp : p c = false) :
    c ∈ cs.dropWhile p := by
  rw [← List.takeWhile_append_dropWhile (p := p) (l := cs), List.mem_append] at hc
  refine hc.resolve_left fun htake => ?_
  rw [List.mem_takeWhile_imp htake] at hp
  exact absurd hp (by decide)

theorem mem_trim (hc : c ∈ cs) (hblank : isBlank c = false) : c ∈ trim cs := by
  unfold trim trimEnd trimStart
  rw [List.mem_reverse]
  exact mem_dropWhile_of_not (List.mem_reverse.mpr (mem_dropWhile_of_not hc hblank)) hblank

theorem mem_of_mem_trim (h : c ∈ trim cs) : c ∈ cs := by
  unfold trim trimEnd trimStart at h
  have hend := (List.dropWhile_sublist isBlank).subset (List.mem_reverse.mp h)
  exact (List.dropWhile_sublist isBlank).subset (List.mem_reverse.mp hend)

theorem exists_of_trim_ne_nil (h : trim cs ≠ []) : ∃ c ∈ trim cs, isBlank c = false := by
  unfold trim trimEnd at h ⊢
  have hne : (trimStart cs).reverse.dropWhile isBlank ≠ [] := by simpa using h
  obtain ⟨c, rest, hc⟩ := List.exists_cons_of_ne_nil hne
  have hblank := List.head?_dropWhile_not isBlank (trimStart cs).reverse
  rw [hc] at hblank ⊢
  exact ⟨c, by simp, by simpa using hblank⟩

end Trimming

namespace Registrations

def hash : UInt8 := 0x23

/-- A service file without comments that names a provider. -/
structure Registers (payload : Bytes) : Prop where
  noComment : hash ∉ payload
  named : ∃ c ∈ Utf8.decodeLossy payload, isBlank c = false

variable {payload : Bytes} {payloads : List Bytes} {name : List Char}

theorem upTo_eq_self {line : List Char} (h : '#' ∉ line) : upTo '#' line = line := by
  refine List.takeWhile_eq_self_iff.mpr fun c hc => ?_
  simpa using fun he : c = '#' => h (he ▸ hc)

theorem Registers.providers_ne_nil (h : Registers payload) : providers payload ≠ [] := by
  obtain ⟨c, hc, hblank⟩ := h.named
  have hhash : '#' ∉ Utf8.decodeLossy payload :=
    fun hmem => h.noComment (Utf8.byte_of_mem_decodeLossy hmem (by decide))
  have hne : c ≠ '\n' := by
    rintro rfl
    exact absurd hblank (by decide)
  obtain ⟨line, hline, hmem⟩ := exists_part_of_mem hc hne
  have hcut : upTo '#' line = line :=
    upTo_eq_self fun hin => hhash (mem_of_mem_part hline hin)
  have hprovider : provider line ≠ [] := by
    unfold provider
    rw [hcut]
    exact List.ne_nil_of_mem (mem_trim hmem hblank)
  apply List.ne_nil_of_mem (a := provider line)
  exact List.mem_filter.mpr ⟨List.mem_map_of_mem hline, by simpa using hprovider⟩

theorem merge_ne_nil (hmem : payload ∈ payloads) (h : Registers payload) : merge payloads ≠ [] := by
  obtain ⟨name, hname⟩ := List.exists_mem_of_ne_nil _ h.providers_ne_nil
  have hall : name ∈ (payloads.flatMap providers).eraseDups :=
    List.mem_eraseDups.mpr (List.mem_flatMap.mpr ⟨payload, hmem, hname⟩)
  unfold merge render
  rw [Ne, Utf8.encode_eq_nil_iff]
  exact List.ne_nil_of_mem (List.mem_flatMap.mpr ⟨name, hall, List.mem_append_right _ List.mem_cons_self⟩)

theorem of_mem_providers (h : name ∈ providers payload) :
    '#' ∉ name ∧ ∃ c ∈ name, isBlank c = false := by
  obtain ⟨hname, hne⟩ := List.mem_filter.mp h
  obtain ⟨line, -, rfl⟩ := List.mem_map.mp hname
  unfold provider at hne ⊢
  refine ⟨fun hmem => ?_, exists_of_trim_ne_nil (by simpa using hne)⟩
  have hcut := List.mem_takeWhile_imp (mem_of_mem_trim hmem)
  simp at hcut

theorem registers_merge (h : merge payloads ≠ []) : Registers (merge payloads) := by
  have hnames : ∀ name ∈ (payloads.flatMap providers).eraseDups,
      '#' ∉ name ∧ ∃ c ∈ name, isBlank c = false := by
    intro name hname
    obtain ⟨payload, -, hmem⟩ := List.mem_flatMap.mp (List.mem_eraseDups.mp hname)
    exact of_mem_providers hmem
  unfold merge render at h ⊢
  generalize (payloads.flatMap providers).eraseDups = names at h hnames
  constructor
  · intro hhash
    obtain ⟨c, hc, hb⟩ := List.mem_flatMap.mp hhash
    obtain ⟨rfl, -⟩ := Utf8.eq_of_mem_encodeChar hb (by decide)
    obtain ⟨name, hname, hmem⟩ := List.mem_flatMap.mp hc
    obtain hmem | hmem := List.mem_append.mp hmem
    · exact (hnames name hname).1 hmem
    · exact absurd hmem (by decide)
  · have hne : names ≠ [] := by
      rintro rfl
      exact h rfl
    obtain ⟨name, hname⟩ := List.exists_mem_of_ne_nil _ hne
    obtain ⟨c, hc, hblank⟩ := (hnames name hname).2
    rw [Utf8.decodeLossy_encode]
    exact ⟨c, List.mem_flatMap.mpr ⟨name, hname, List.mem_append_left _ hc⟩, hblank⟩

end Registrations

end FatJar
