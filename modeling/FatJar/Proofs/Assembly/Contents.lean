import FatJar.Proofs.Assembly.Run
import FatJar.Proofs.Merge.Members
import FatJar.Proofs.Output.Layout
import FatJar.Proofs.Relocation.Kinds
import FatJar.Proofs.Scan

namespace FatJar.Assembler

open Output

section Stages

variable {α β : Type} {s s' : AssemblyState}

theorem bind_inv {x : Stage α} {f : α → Stage β} {b : β}
    (h : (x >>= f).run.run s = (.ok b, s')) :
    ∃ a s₁, x.run.run s = (.ok a, s₁) ∧ (f a).run.run s₁ = (.ok b, s') := by
  rw [run_bind] at h
  split at h
  · next a s₁ hx => exact ⟨a, s₁, hx, h⟩
  · cases h

theorem lift_inv {x : Except AssemblyError α} {a : α}
    (h : (liftM x : Stage α).run.run s = (.ok a, s')) : x = .ok a := by
  cases x with
  | error e => cases h
  | ok b =>
    cases h
    rfl

theorem map_eq_ok {x : Except AssemblyError α} {f : α → β} {b : β} (h : x.map f = .ok b) :
    ∃ a, x = .ok a ∧ f a = b := by
  cases x with
  | error e => cases h
  | ok a => exact ⟨a, rfl, Except.ok.inj h⟩

end Stages

variable {a : Assembler} {t : FileTree} {c : Conditions} {summary : Scan.Summary}
  {r : Merge.Resolver} {p : Prepared}

/-- The contents that a run writes, as they come from a resolver. -/
inductive ContentsOf (a : Assembler) (r : Merge.Resolver) : Contents → Prop
  | unmoved : ContentsOf a r r.finalize.contents
  | moved {o : Relocation.Outcome} (h : a.relocateContents r.finalize.contents = .ok o) :
      ContentsOf a r o.contents

theorem relocateContents_inv {contents : Contents} {o : Relocation.Outcome}
    (h : a.relocateContents contents = .ok o) : Relocation.relocate a.rules contents = .ok o := by
  unfold relocateContents at h
  cases ho : Relocation.relocate a.rules contents with
  | error f =>
    rw [ho] at h
    cases h
  | ok o' =>
    rw [ho] at h
    cases h
    rfl

/-- What the rules make of contents and of a manifest. -/
def moved (a : Assembler) (contents : Contents) (manifest : OutputManifest) :
    Except AssemblyError (Contents × OutputManifest × Option Relocation.Stats) :=
  if a.rules.rules.isEmpty then .ok (contents, manifest, none)
  else (a.relocateContents contents).map fun o =>
    (o.contents, manifest.relocate a.rules, some o.stats)

/-- Whether `p` is what comes of the entries that a resolver has taken in. -/
structure Prepares (a : Assembler) (r : Merge.Resolver) (p : Prepared) : Prop where
  merge : p.merge = r.finalize.stats
  moved : a.moved r.finalize.contents
      (Manifest.synthesize a.config.manifest a.config.entryPoint r.finalize.manifests) =
    .ok (p.contents, p.manifest, p.relocation)

theorem relocate_eq_ok {contents : Contents} {manifest : OutputManifest}
    {result : Contents × OutputManifest × Option Relocation.Stats} {s s' : AssemblyState}
    (h : (a.relocate c contents manifest).run.run s = (.ok result, s')) :
    a.moved contents manifest = .ok result := by
  unfold relocate at h
  unfold moved
  split at h
  · next hempty =>
    cases h
    rw [if_pos hempty]
  · next hrules =>
    obtain ⟨_, _, -, h⟩ := bind_inv h
    obtain ⟨_, _, -, h⟩ := bind_inv h
    obtain ⟨o, _, ho, h⟩ := bind_inv h
    cases h
    rw [if_neg hrules, lift_inv ho]
    rfl

theorem prepared_eq_ok (h : (a.prepared t c).1 = .ok p) :
    ∃ r, a.scan t c = .ok (p.scan, r) ∧ a.Prepares r p := by
  have hrun : (a.prepare t c).run.run .idle = (.ok p, (a.prepared t c).2) := Prod.ext h rfl
  unfold prepare at hrun
  obtain ⟨_, _, -, hrun⟩ := bind_inv hrun
  obtain ⟨⟨summary, r⟩, _, hscan, hrun⟩ := bind_inv hrun
  obtain ⟨_, _, -, hrun⟩ := bind_inv hrun
  obtain ⟨_, _, -, hrun⟩ := bind_inv hrun
  obtain ⟨⟨contents, manifest, stats⟩, _, hrelocate, hrun⟩ := bind_inv hrun
  obtain ⟨_, _, -, hrun⟩ := bind_inv hrun
  obtain ⟨_, _, -, hrun⟩ := bind_inv hrun
  cases hrun
  exact ⟨r, lift_inv hscan, rfl, relocate_eq_ok hrelocate⟩

theorem moved_eq_ok {contents contents' : Contents} {manifest manifest' : OutputManifest}
    {stats : Option Relocation.Stats} (h : a.moved contents manifest = .ok (contents', manifest', stats)) :
    contents' = contents ∨ ∃ o, a.relocateContents contents = .ok o ∧ contents' = o.contents := by
  unfold moved at h
  split at h
  · cases h
    exact .inl rfl
  · obtain ⟨o, ho, hmoved⟩ := map_eq_ok h
    cases hmoved
    exact .inr ⟨o, ho, rfl⟩

theorem Prepares.contentsOf (h : a.Prepares r p) : ContentsOf a r p.contents := by
  obtain hsame | ⟨o, ho, hmoved⟩ := moved_eq_ok h.moved
  · rw [hsame]
    exact .unmoved
  · rw [hmoved]
    exact .moved ho

theorem prepared_inv (h : (a.prepared t c).1 = .ok p) :
    ∃ r, a.scan t c = .ok (p.scan, r) ∧ ContentsOf a r p.contents := by
  obtain ⟨r, hscan, hp⟩ := prepared_eq_ok h
  exact ⟨r, hscan, hp.contentsOf⟩

theorem scan_eq_ok_iff {result : Scan.Summary × Merge.Resolver} :
    a.scan t c = .ok result ↔
      c.cancelled .reading = false ∧ missingInput? t a.config.archives = none ∧
        Scan.run t c.picks a.config.archives (sink a.policies) (c.cancelled .scanning)
          (fun _ => c.cancelled .scanned) { fingerprint := a.fingerprint } = .ok result := by
  unfold scan Conditions.check
  dsimp only
  cases c.cancelled .reading with
  | true => simp [bind, Except.bind]
  | false =>
    cases missingInput? t a.config.archives with
    | some e => simp [bind, Except.bind, throw, throwThe, MonadExceptOf.throw]
    | none => exact ⟨fun h => ⟨rfl, rfl, h⟩, fun h => h.2.2⟩

theorem scan_inv (h : a.scan t c = .ok (summary, r)) :
    Scan.run t c.picks a.config.archives (sink a.policies) (c.cancelled .scanning)
      (fun _ => c.cancelled .scanned) { fingerprint := a.fingerprint } = .ok (summary, r) :=
  (scan_eq_ok_iff.mp h).2.2

theorem fits_of_scan {p : String → Prop} (h : a.scan t c = .ok (summary, r))
    (hp : ∀ input ∈ a.config.archives, ∀ archive, Archive.ofPath t input.path = .ok archive →
      ∀ e ∈ archive.entries.1, p e.path) : r.Fits p := by
  refine Scan.run_state (scan_inv h) (Merge.Resolver.fits_nil a.fingerprint p) ?_
  intro input hinput archive harchive e he s hs
  exact hs.ingest (hp input hinput archive harchive e.entry he)

theorem ContentsOf.proper {contents : Contents} (hscan : a.scan t c = .ok (summary, r))
    (h : ContentsOf a r contents) : ∀ m ∈ contents.members, m.Proper := by
  have hresolved : ∀ m ∈ r.finalize.contents.members, m.Proper := by
    have hfits : r.Fits fun _ => True := fits_of_scan hscan fun _ _ _ _ _ _ => trivial
    exact fun m hm => (hfits.finalize hm).2
  cases h with
  | unmoved => exact hresolved
  | moved ho => exact Relocation.proper_relocateWith (relocateContents_inv ho) hresolved

theorem prepared_of_run {u : FileTree} {report : Report} (h : a.run t c = (u, .ok report)) :
    ∃ p, (a.prepared t c).1 = .ok p ∧
      u.find a.config.output = .ok (.file (Zip.encode (items p.manifest.attributes p.contents))) := by
  obtain ⟨u', e, hfailed, -⟩ | ⟨u', report', p, hdone, hp, hfind⟩ := a.run_eq t c
  · rw [h] at hfailed
    cases hfailed
  · rw [h] at hdone
    cases hdone
    exact ⟨p, hp, hfind⟩

/-- Whatever the inputs, the policies and the rules are, all that is resolved and all that is relocated
is proper, and the archive that a run writes is tidy. -/
theorem run_tidy (a : Assembler) (t : FileTree) (c : Conditions) :
    (∀ summary r, a.scan t c = .ok (summary, r) →
      ∀ contents, ContentsOf a r contents → ∀ m ∈ contents.members, m.Proper) ∧
      ∀ u report, a.run t c = (u, .ok report) →
        ∃ p, (a.prepared t c).1 = .ok p ∧
          u.find a.config.output =
            .ok (.file (Zip.encode (items p.manifest.attributes p.contents))) ∧
          Tidy (items p.manifest.attributes p.contents) := by
  refine ⟨fun summary r hscan contents h => h.proper hscan, fun u report hrun => ?_⟩
  obtain ⟨p, hp, hfind⟩ := prepared_of_run hrun
  obtain ⟨r, hscan, hcontents⟩ := prepared_inv hp
  exact ⟨p, hp, hfind, tidy_items _ (hcontents.proper hscan)⟩

/-- An archive with a signature, an empty text, and a text in a namespace that is moved. -/
def signedArchive : Bytes :=
  Zip.encode [⟨"META-INF/SIGNER.SF", .file [0]⟩, ⟨"lib/a.txt", .file (utf8 "lib.A")⟩,
    ⟨"lib/b.txt", .file []⟩]

def signedTree : FileTree :=
  FileTree.empty.set ["work", "lib.jar"] (.file signedArchive)

def assemblerOfSigned : Assembler where
  config := { inputs := [⟨{ name := "lib" }, "lib.jar"⟩], output := "app.jar", entryPoint := "lib.A",
              rules := Relocation.shading.rules }
  policies := .empty
  rules := Relocation.shading
  accepted := by decide

theorem signed_run_tidy :
    ∃ u report p, assemblerOfSigned.run signedTree {} = (u, .ok report) ∧
      (assemblerOfSigned.prepared signedTree {}).1 = .ok p ∧
      (items p.manifest.attributes p.contents).map (·.name) =
        ["META-INF/MANIFEST.MF", "META-INF/", "shaded/", "shaded/a.txt"] ∧
      Tidy (items p.manifest.attributes p.contents) := by
  have hdone : (assemblerOfSigned.run signedTree {}).2.toOption.isSome = true := by decide +kernel
  have hnames : (assemblerOfSigned.prepared signedTree {}).1.toOption.map (fun p =>
        (items p.manifest.attributes p.contents).map (·.name)) =
      some ["META-INF/MANIFEST.MF", "META-INF/", "shaded/", "shaded/a.txt"] := by
    decide +kernel
  rcases hrun : assemblerOfSigned.run signedTree {} with ⟨u, e | report⟩
  · simp [hrun, Except.toOption] at hdone
  · obtain ⟨p, hp, -, htidy⟩ := (run_tidy assemblerOfSigned signedTree {}).2 u report hrun
    rw [hp] at hnames
    exact ⟨u, report, p, rfl, hp, Option.some.inj hnames, htidy⟩

end FatJar.Assembler
