import FatJar.Proofs.Assembly.Contents
import FatJar.Proofs.Relocation.Enclosure

namespace FatJar.Assembler

open Output Relocation

variable {a : Assembler} {t u : FileTree} {c : Conditions} {summary : Scan.Summary}
  {r : Merge.Resolver} {contents : Contents} {report : Report}

/-- Whether all entries that can be read from the inputs lie below the root of their archive. -/
def EnclosedInputs (a : Assembler) (t : FileTree) : Prop :=
  ∀ input ∈ a.config.archives, ∀ archive, Archive.ofPath t input.path = .ok archive →
    ∀ e ∈ archive.entries.1, Enclosed e.path

theorem ContentsOf.enclosed (hdepth : ∀ r ∈ a.rules.rules, depth r.source ≤ depth r.target)
    (hin : a.EnclosedInputs t) (hscan : a.scan t c = .ok (summary, r)) (h : ContentsOf a r contents) :
    ∀ m ∈ contents.members, Enclosed m.path := by
  have hresolved : ∀ m ∈ r.finalize.contents.members, Enclosed m.path := by
    have hfits : r.Fits Enclosed := fits_of_scan hscan hin
    exact fun m hm => (hfits.finalize hm).1
  cases h with
  | unmoved => exact hresolved
  | moved ho => exact enclosed_relocateWith hdepth (relocateContents_inv ho) hresolved

theorem enclosed_of_mem_items {manifest : Attributes} {i : Zip.Item} (h : i ∈ items manifest contents)
    (hc : ∀ m ∈ contents.members, Enclosed m.path) : Enclosed i.name := by
  obtain rfl | h := List.mem_cons.mp h
  · exact enclosed_iff.mpr (by decide : '\x00' ∉ manifestPath.toList ∧
      manifestPath.toList.head? ≠ some '/' ∧
        (Zip.depthAfter? 0 (pathNames manifestPath.toList)).isSome)
  · exact enclosed_of_mem_layout h hc

/-- Relocation keeps all paths below the root exactly when no rule moves a namespace to one of fewer
parts; and then so does a run as a whole. -/
theorem run_encloses (a : Assembler) :
    ((∀ contents o, (∀ m ∈ contents.members, Enclosed m.path) →
        Relocation.relocate a.rules contents = .ok o → ∀ m ∈ o.contents.members, Enclosed m.path) ↔
      ∀ r ∈ a.rules.rules, depth r.source ≤ depth r.target) ∧
      ((∀ r ∈ a.rules.rules, depth r.source ≤ depth r.target) → ∀ t c, a.EnclosedInputs t →
        ∀ u report, a.run t c = (u, .ok report) →
          ∃ p, (a.prepared t c).1 = .ok p ∧
            u.find a.config.output =
              .ok (.file (Zip.encode (items p.manifest.attributes p.contents))) ∧
            ∀ i ∈ items p.manifest.attributes p.contents, Enclosed i.name) := by
  refine ⟨relocate_encloses_iff, fun hdepth t c hin u report hrun => ?_⟩
  obtain ⟨p, hp, hfind⟩ := prepared_of_run hrun
  obtain ⟨r, hscan, hcontents⟩ := prepared_inv hp
  exact ⟨p, hp, hfind, fun i hi => enclosed_of_mem_items hi (hcontents.enclosed hdepth hin hscan)⟩

def detourTree : FileTree :=
  FileTree.empty.set ["work", "lib.jar"] (.file (Zip.encode [⟨"lib/../a.txt", .file [0]⟩]))

theorem detour_encloses :
    ∃ u report p, assemblerOfSigned.run detourTree {} = (u, .ok report) ∧
      (assemblerOfSigned.prepared detourTree {}).1 = .ok p ∧
      "shaded/../a.txt" ∈ (items p.manifest.attributes p.contents).map (·.name) ∧
      ∀ i ∈ items p.manifest.attributes p.contents, Enclosed i.name := by
  have hdepth : ∀ r ∈ assemblerOfSigned.rules.rules, depth r.source ≤ depth r.target := by decide
  have hin : assemblerOfSigned.EnclosedInputs detourTree := by
    intro input hinput archive harchive e he
    obtain rfl : input = ⟨{ name := "lib" }, "lib.jar", 0⟩ := List.mem_singleton.mp hinput
    have hentries : ((Archive.ofPath detourTree "lib.jar").toOption.map (·.entries.1)) =
        some [⟨"lib/../a.txt", [0], false⟩] := by
      decide +kernel
    rw [harchive] at hentries
    have hpath : archive.entries.1 = [⟨"lib/../a.txt", [0], false⟩] := Option.some.inj hentries
    rw [hpath] at he
    rw [List.mem_singleton.mp he]
    exact enclosed_iff.mpr (by decide)
  have hnames : (assemblerOfSigned.run detourTree {}).2.toOption.isSome = true ∧
      (assemblerOfSigned.prepared detourTree {}).1.toOption.map (fun p =>
          (items p.manifest.attributes p.contents).map (·.name)) =
        some ["META-INF/MANIFEST.MF", "META-INF/", "shaded/", "shaded/../", "shaded/../a.txt"] := by
    decide +kernel
  obtain ⟨hdone, hnames⟩ := hnames
  rcases hrun : assemblerOfSigned.run detourTree {} with ⟨u, e | report⟩
  · simp [hrun, Except.toOption] at hdone
  · obtain ⟨p, hp, -, henclosed⟩ :=
      (run_encloses assemblerOfSigned).2 hdepth detourTree {} hin u report hrun
    rw [hp] at hnames
    have hwritten : (items p.manifest.attributes p.contents).map (·.name) =
        ["META-INF/MANIFEST.MF", "META-INF/", "shaded/", "shaded/../", "shaded/../a.txt"] :=
      Option.some.inj hnames
    exact ⟨u, report, p, rfl, hp, by simp [hwritten], henclosed⟩

end FatJar.Assembler
