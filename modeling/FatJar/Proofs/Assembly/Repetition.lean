import FatJar.Proofs.Assembly.Contents
import FatJar.Proofs.Merge.Tallies
import FatJar.Proofs.Scan.Delivery
import Mathlib.Data.List.Find

namespace FatJar

open Output

namespace Assembler

open Merge.Batch

variable {a : Assembler} {t u v : FileTree} {c c' : Conditions} {summary summary' : Scan.Summary}
  {r r' : Merge.Resolver} {p p' : Prepared}

section Scanning

variable {f : Fingerprint} {table : Merge.PolicyTable} {es fs : List ScannedEntry}

theorem callAll_sink (table : Merge.PolicyTable) (r : Merge.Resolver) (es : List ScannedEntry) :
    Scan.callAll (sink table) r es = (Merge.Resolver.ingestAll table r es).1 := by
  induction es generalizing r with
  | nil => rfl
  | cons e es ih => exact ih _

theorem accepts_sink_iff (h : r.Follows f table es) (hn : ((es ++ fs).map (·.position)).Nodup) :
    Scan.Accepts (sink table) r fs ↔ ∀ e ∈ fs, verdict table e = .ok () := by
  induction fs generalizing es r with
  | nil => simp [Scan.Accepts]
  | cons e fs ih =>
    rw [List.append_cons] at hn
    have hfirst : ((es ++ [e]).map (·.position)).Nodup :=
      hn.sublist ((List.sublist_append_left _ _).map _)
    obtain ⟨hnext, hverdict⟩ := h.ingest hfirst
    have hsink : (sink table r e).2 = .ok () ↔ verdict table e = .ok () := by
      have hresult : (sink table r e).2 = (verdict table e).mapError .ambiguous := by
        rw [← hverdict]
        rfl
      rw [hresult]
      cases verdict table e <;> simp [Except.mapError]
    rw [List.forall_mem_cons, ← hsink, ← ih hnext hn]
    rfl

theorem nodup_ranks (c : Config) : (c.archives.map (·.rank)).Nodup := by
  have hranks : c.archives.map (·.rank) = List.range' 0 c.inputs.length := by
    rw [Config.archives, List.map_map, ← List.zipIdx_map_snd 0 c.inputs]
    rfl
  rw [hranks]
  exact List.nodup_range'

/-- What a scan of all inputs has come to, by the order in which the entries arrived. -/
structure Arrives (a : Assembler) (t : FileTree) (arrivals : List ScannedEntry) (summary : Scan.Summary)
    (r : Merge.Resolver) : Prop where
  once : arrivals.Perm
    (a.config.archives.flatMap fun input => Scan.scanned input (Scan.entriesIn t input))
  apart : (arrivals.map (·.position)).Nodup
  summary : summary =
    ⟨a.config.archives.length, (a.config.archives.map fun input => (Scan.entriesIn t input).length).sum,
      (a.config.archives.map fun input => Scan.totalSize (Scan.entriesIn t input)).sum⟩
  resolver : r = (Merge.Resolver.ingestAll a.policies { fingerprint := a.fingerprint } arrivals).1

theorem arrives_of_interleave {picks : List Nat} {events : List Scan.Event}
    (hpicks : Scan.interleave picks (a.config.archives.map (Scan.events t)) = events)
    (hfailed : ∀ e, .failed e ∉ events) :
    Arrives a t (Scan.entriesOf events)
      (Scan.consume (sink a.policies) { fingerprint := a.fingerprint } events).summary
      (Scan.callAll (sink a.policies) { fingerprint := a.fingerprint } (Scan.entriesOf events)) := by
  have hcomplete : Scan.Complete t a.config.archives (sink a.policies) { fingerprint := a.fingerprint } _ _ _ :=
    Scan.complete_of_interleave hpicks hfailed
  exact ⟨hcomplete.once, hcomplete.apart (nodup_ranks _), hcomplete.summary, callAll_sink _ _ _⟩

theorem exists_arrives (h : a.scan t c = .ok (summary, r)) : ∃ arrivals, Arrives a t arrivals summary r := by
  obtain ⟨-, -, es, hpicks, hfailed, -, rfl, rfl⟩ := Scan.run_eq_ok_iff.mp (scan_inv h)
  exact ⟨_, arrives_of_interleave hpicks hfailed⟩

theorem scan_alike (h : a.scan t c = .ok (summary, r)) (h' : a.scan t c' = .ok (summary', r')) :
    summary' = summary ∧ r'.finalize.contents = r.finalize.contents ∧
      r'.finalize.manifests = r.finalize.manifests ∧
      r'.finalize.stats.withoutConflicts = r.finalize.stats.withoutConflicts := by
  obtain ⟨arrivals, harrives⟩ := exists_arrives h
  obtain ⟨arrivals', harrives'⟩ := exists_arrives h'
  have hp : arrivals'.Perm arrivals := harrives'.once.trans harrives.once.symm
  rw [harrives.summary, harrives'.summary, harrives.resolver, harrives'.resolver]
  exact ⟨rfl, Merge.Resolver.finalize_ingestAll_alike harrives'.apart hp⟩

theorem scan_of_uncancelled (h : a.scan t c = .ok (summary, r)) (hc : ∀ p, c'.cancelled p = false) :
    ∃ summary' r', a.scan t c' = .ok (summary', r') := by
  obtain ⟨-, hmissing, hrun⟩ := scan_eq_ok_iff.mp h
  obtain ⟨-, -, es, hpicks, hfailed, haccepts, -, -⟩ := Scan.run_eq_ok_iff.mp hrun
  generalize hpicks' : Scan.interleave c'.picks (a.config.archives.map (Scan.events t)) = es'
  have hperm : es'.Perm es := by
    rw [← hpicks, ← hpicks']
    exact (Scan.interleave_perm _ _).trans (Scan.interleave_perm _ _).symm
  have hfailed' : ∀ e, .failed e ∉ es' := fun e he => hfailed e (hperm.mem_iff.mp he)
  have harrives := arrives_of_interleave hpicks hfailed
  have harrives' := arrives_of_interleave hpicks' hfailed'
  have hnil : Merge.Resolver.Follows a.fingerprint a.policies [] { fingerprint := a.fingerprint } :=
    Merge.Resolver.follows_nil
  have hverdicts := (accepts_sink_iff hnil harrives.apart).mp haccepts
  have haccepts' : Scan.Accepts (sink a.policies) { fingerprint := a.fingerprint } (Scan.entriesOf es') := by
    refine (accepts_sink_iff hnil harrives'.apart).mpr fun e he => hverdicts e ?_
    exact (hperm.filterMap _).mem_iff.mp he
  exact ⟨_, _, scan_eq_ok_iff.mpr ⟨hc _, hmissing,
    Scan.run_eq_ok_iff.mpr ⟨hc _, hc _, es', hpicks', hfailed', haccepts', rfl, rfl⟩⟩⟩

end Scanning

section Preparing

theorem run_enter (next s : AssemblyState) : (enter next).run.run s = (.ok (), next) :=
  rfl

theorem run_lift {α : Type} (x : α) (s : AssemblyState) :
    (liftM (.ok x : Except AssemblyError α) : Stage α).run.run s = (.ok x, s) :=
  rfl

theorem check_of_uncancelled {point : Checkpoint} (hc : c.cancelled point = false) :
    c.check point = .ok () := by
  rw [Conditions.check, hc, if_neg Bool.false_ne_true]

theorem relocate_of_uncancelled {contents : Contents} {manifest : OutputManifest}
    {result : Contents × OutputManifest × Option Relocation.Stats}
    (hc : c.cancelled .relocating = false) (h : a.moved contents manifest = .ok result)
    (s : AssemblyState) :
    ∃ s', (a.relocate c contents manifest).run.run s = (.ok result, s') := by
  unfold moved at h
  unfold relocate
  rw [check_of_uncancelled hc]
  split at h
  · next hempty =>
    cases h
    rw [if_pos hempty]
    exact ⟨_, rfl⟩
  · next hrules =>
    obtain ⟨o, ho, rfl⟩ := map_eq_ok h
    rw [if_neg hrules, ho]
    exact ⟨_, rfl⟩

theorem prepared_of_uncancelled (hc : ∀ point, c.cancelled point = false)
    (hscan : a.scan t c = .ok (p.scan, r)) (hp : a.Prepares r p) : (a.prepared t c).1 = .ok p := by
  obtain ⟨s, hrelocate⟩ := relocate_of_uncancelled (hc _) hp.moved .resolving
  unfold prepared prepare
  simp only [run_bind, run_enter, run_lift, hscan, check_of_uncancelled (hc _), hrelocate, ← hp.merge]
  rfl

/-- What is prepared, less the count that depends on the order of arrival. -/
def Prepared.withoutConflicts (p : Prepared) : Prepared :=
  { p with merge := p.merge.withoutConflicts }

theorem prepared_alike (h : (a.prepared t c).1 = .ok p) (h' : (a.prepared t c').1 = .ok p') :
    p'.withoutConflicts = p.withoutConflicts := by
  obtain ⟨r, hscan, hp⟩ := prepared_eq_ok h
  obtain ⟨r', hscan', hp'⟩ := prepared_eq_ok h'
  obtain ⟨hsummary, hcontents, hmanifests, hstats⟩ := scan_alike hscan hscan'
  have hmoved := hp'.moved
  rw [hcontents, hmanifests, hp.moved, Except.ok.injEq, Prod.mk.injEq, Prod.mk.injEq] at hmoved
  obtain ⟨hcontents', hmanifest', hrelocation'⟩ := hmoved
  simp only [Prepared.withoutConflicts, Prepared.mk.injEq]
  exact ⟨hsummary, by rw [hp'.merge, hp.merge, hstats], hrelocation'.symm, hcontents'.symm, hmanifest'.symm⟩

theorem exists_prepared (h : (a.prepared t c).1 = .ok p) (hc : ∀ point, c'.cancelled point = false) :
    ∃ p', (a.prepared t c').1 = .ok p' := by
  obtain ⟨r, hscan, hp⟩ := prepared_eq_ok h
  obtain ⟨summary', r', hscan'⟩ := scan_of_uncancelled hscan hc
  obtain ⟨-, hcontents, hmanifests, -⟩ := scan_alike hscan hscan'
  refine ⟨⟨summary', r'.finalize.stats, p.relocation, p.contents, p.manifest⟩,
    prepared_of_uncancelled hc hscan' ⟨rfl, ?_⟩⟩
  rw [hcontents, hmanifests]
  exact hp.moved

theorem prepared_congr (h : ∀ input ∈ a.config.archives, u.find input.path = t.find input.path)
    (c : Conditions) : a.prepared u c = a.prepared t c := by
  have hevents : a.config.archives.map (Scan.events u) = a.config.archives.map (Scan.events t) :=
    List.map_congr_left fun input hinput => by
      rw [Scan.events, Scan.events, Archive.ofPath, Archive.ofPath, h input hinput]
  have hmissing : missingInput? u a.config.archives = missingInput? t a.config.archives := by
    refine congrArg (Option.map _) (List.find?_congr fun input hinput => ?_)
    rw [FileTree.contains, h input hinput]
    rfl
  have hscan : a.scan u c = a.scan t c := by
    unfold scan Scan.run
    dsimp only
    rw [hmissing, hevents]
  rw [prepared, prepared, prepare, prepare, hscan]

end Preparing

section Running

variable {report report' : Report}

def Report.withoutConflicts (report : Report) : Report :=
  { report with merge := report.merge.withoutConflicts }

def reportOn (a : Assembler) (p : Prepared) : Report where
  output := a.config.output
  scan := p.scan
  merge := p.merge
  relocation := p.relocation
  write := summarize (items p.manifest.attributes p.contents)

/-- Whether the output comes to lie in no place of an input. Directories on its way are made first: a
path such as "new/../lib.jar" leads to an input only when there is a directory "new". -/
def OutputApart (a : Assembler) (t : FileTree) : Prop :=
  ∀ q, (t.makeDirectory (Path.directoryOf a.config.output)).1.locate a.config.output = .ok q →
    ∀ input ∈ a.config.archives, t.locate input.path ≠ .ok q

/-- Whether nothing gets in the way of a run: it is not cancelled, no step of writing fails, and there is
room for its draft. -/
structure Conditions.Undisturbed (a : Assembler) (t : FileTree) (c : Conditions) : Prop where
  notCancelled : ∀ point, c.cancelled point = false
  notFailing : ∀ step, c.failing step = false
  room : ∃ place, t.filePlace? (draftPath a.config.output c.mark) = some place ∧ t.lookup place = none

def Conditions.ofWriting (c : Conditions) : Circumstances :=
  { cancelled := c.cancelled ∘ .item, failing := c.failing, mark := c.mark }

theorem run_of_unprepared {e : AssemblyError} (h : (a.prepared t c).1 = .error e) :
    a.run t c = (t, .error e) := by
  rw [run, h]

theorem run_of_prepared (h : (a.prepared t c).1 = .ok p) :
    a.run t c =
      ((write t a.config.output p.manifest.attributes p.contents c.ofWriting).1,
        (write t a.config.output p.manifest.attributes p.contents c.ofWriting).2.map fun write =>
          { a.reportOn p with write }) := by
  rw [run, h]
  rfl

theorem run_eq_ok (h : a.run t c = (u, .ok report)) :
    ∃ p v q, (a.prepared t c).1 = .ok p ∧
      t.makeDirectory (Path.directoryOf a.config.output) (c.failing ∘ .directory) = (v, none) ∧
      v.filePlace? a.config.output = some q ∧
      (∀ i ∈ layout p.contents, i.name.utf8ByteSize ≤ maxItemName) ∧
      u = written v q p.manifest.attributes p.contents ∧ report = a.reportOn p := by
  cases hp : (a.prepared t c).1 with
  | error e =>
    rw [run, hp] at h
    cases h
  | ok p =>
    rw [run_of_prepared hp, Prod.mk.injEq] at h
    obtain ⟨htree, hreport⟩ := h
    rcases hwrite : write t a.config.output p.manifest.attributes p.contents c.ofWriting with ⟨u', e | s⟩
    · rw [hwrite] at hreport
      cases hreport
    · rw [hwrite] at htree hreport
      obtain ⟨v, q, hmade, hq, hnames, rfl, rfl⟩ := write_eq_ok hwrite
      exact ⟨p, v, q, rfl, hmade, hq, hnames, htree.symm, (Except.ok.inj hreport).symm⟩

theorem madeFile_of_run (h : a.run t c = (u, .ok report)) :
    ∃ q, FileTree.MadeFile a.config.output q t u := by
  obtain ⟨p, v, q, -, hmade, hq, -, rfl, -⟩ := run_eq_ok h
  exact ⟨q, madeFile_written hmade hq _ _⟩

theorem find_input (h : (a.prepared t c).1 = .ok p) {input : InputArchive}
    (hinput : input ∈ a.config.archives) : ∃ n, t.find input.path = .ok n := by
  obtain ⟨r, hscan, -⟩ := prepared_eq_ok h
  have hmissing := (scan_eq_ok_iff.mp hscan).2.1
  rw [missingInput?, Option.map_eq_none_iff, List.find?_eq_none] at hmissing
  have hfound := hmissing input hinput
  cases hfind : t.find input.path with
  | ok n => exact ⟨n, rfl⟩
  | error fault => simp [FileTree.contains, hfind] at hfound

theorem find_after_run (h : a.run t c = (u, .ok report)) (hapart : a.OutputApart t) :
    ∀ input ∈ a.config.archives, u.find input.path = t.find input.path := by
  intro input hinput
  obtain ⟨p, v, q, hp, hmade, hq, -, rfl, -⟩ := run_eq_ok h
  obtain ⟨n, hn⟩ := find_input hp hinput
  have hlocate : (t.makeDirectory (Path.directoryOf a.config.output)).1.locate a.config.output = .ok q := by
    rw [FileTree.makeDirectory_unrefused hmade]
    exact (FileTree.filePlace?_eq_some hq).1
  rw [hn, (madeFile_written hmade hq _ _).find hn (hapart q hlocate input hinput)]

theorem Conditions.Undisturbed.draft (h : c.Undisturbed a t) :
    (Draft.make? t a.config.output c.ofWriting).isSome := by
  obtain ⟨place, hplace, hfree⟩ := h.room
  have hdraft : c.ofWriting.failing .draft = false := h.notFailing .draft
  have hmark : t.filePlace? (draftPath a.config.output c.ofWriting.mark) = some place := hplace
  simp [Draft.make?, hdraft, hmark, hfree]

theorem Conditions.Undisturbed.ofWriting (h : c.Undisturbed a t) : c.ofWriting.Undisturbed :=
  ⟨fun index => h.notCancelled (.item index), h.notFailing⟩

/-- A run after one that succeeded leaves all files as they are, even if it fails; it can report nothing
else, and it succeeds unless it is disturbed. -/
theorem run_again (h : a.run t c = (u, .ok report)) (hapart : a.OutputApart t) (c' : Conditions) :
    (a.run u c').1 = u ∧
      (∀ report', (a.run u c').2 = .ok report' → report'.withoutConflicts = report.withoutConflicts) ∧
      (c'.Undisturbed a u → ∃ report', (a.run u c').2 = .ok report') := by
  have hprepared : a.prepared u c' = a.prepared t c' := prepared_congr (find_after_run h hapart) c'
  obtain ⟨p, v, q, hp, hmade, hq, hnames, rfl, rfl⟩ := run_eq_ok h
  cases hp' : (a.prepared t c').1 with
  | error e =>
    rw [run_of_unprepared (hprepared ▸ hp')]
    refine ⟨rfl, fun _ hreport => ?_, fun hc => ?_⟩
    · cases hreport
    · obtain ⟨p', hok⟩ := exists_prepared hp hc.notCancelled
      rw [hp'] at hok
      cases hok
  | ok p' =>
    have halike := prepared_alike hp hp'
    obtain ⟨hcontents, hmanifest, hreport⟩ : p'.contents = p.contents ∧ p'.manifest = p.manifest ∧
        (a.reportOn p').withoutConflicts = (a.reportOn p).withoutConflicts :=
      ⟨(congrArg Prepared.contents halike :), (congrArg Prepared.manifest halike :),
        (congrArg a.reportOn halike :)⟩
    rw [run_of_prepared (hprepared ▸ hp'), hmanifest, hcontents]
    obtain ⟨htree, hsummary⟩ := write_again hmade hq p.manifest.attributes p.contents c'.ofWriting
    refine ⟨htree, fun report' hok => ?_, fun hc => ?_⟩
    · obtain ⟨summary, hwrite, rfl⟩ := map_eq_ok hok
      rw [hsummary summary hwrite, ← hmanifest, ← hcontents]
      exact hreport
    · obtain ⟨u, summary, hwrite⟩ :=
        write_again_of_undisturbed hmade hq hnames hc.ofWriting hc.draft
      rw [hwrite]
      exact ⟨_, rfl⟩

end Running

end Assembler

namespace Session

open Assembler

variable {s s₁ : Session} {c : Conditions}

theorem facing_of_uncancelled (h : s.cancelled = false) (c : Conditions) : s.facing c = c := by
  simp only [facing, h, Bool.false_or]

theorem run_of_step {result : Except AssemblyError Report} (h : s.step (.run c) = (s₁, some result)) :
    s.assembler.run s.tree (s.facing c) = (s₁.tree, result) ∧ s₁.assembler = s.assembler ∧
      s₁.cancelled = s.cancelled := by
  rcases hrun : s.assembler.run s.tree (s.facing c) with ⟨u, result'⟩
  rw [step_run hrun, Prod.mk.injEq, Option.some.injEq] at h
  obtain ⟨rfl, rfl⟩ := h
  exact ⟨rfl, rfl, rfl⟩

theorem uncancelled_of_run {u : FileTree} {report : Report}
    (h : s.assembler.run s.tree (s.facing c) = (u, .ok report)) : s.cancelled = false := by
  by_contra hcancelled
  have herror := run_of_cancelled s.assembler s.tree (s.facing c) fun p => by simp [facing, hcancelled]
  rw [h] at herror
  simp at herror

theorem after_runs (h : ∀ c, (s.assembler.run s.tree c).1 = s.tree) (later : List Conditions) :
    ∃ state, s.after (later.map .run) = { s with state } := by
  induction later generalizing s with
  | nil => exact ⟨s.state, rfl⟩
  | cons c later ih =>
    have hstep : (s.step (.run c)).1 = { s with state := (s.step (.run c)).1.state } := by
      rcases hrun : s.assembler.run s.tree (s.facing c) with ⟨u, result⟩
      have hsame := h (s.facing c)
      rw [hrun] at hsame
      rw [step_run hrun, ← hsame]
    rw [List.map_cons, after, List.foldl_cons, hstep]
    exact ih h

/-- A run that succeeds changes nothing but its output and the directories made for it. All later runs
of the same assembler leave all files as they are then, in whatever order the events of their workers
arrive, and those that are not disturbed succeed and report the same. -/
theorem run_repeats (s : Session) (c : Conditions) {s₁ : Session} {report : Report}
    (hapart : s.assembler.OutputApart s.tree) (h : s.step (.run c) = (s₁, some (.ok report))) :
    (∃ q, FileTree.MadeFile s.assembler.config.output q s.tree s₁.tree) ∧
      ∀ (later : List Conditions) (c' : Conditions) (s₂ : Session) (result : Except AssemblyError Report),
        (s₁.after (later.map .run)).step (.run c') = (s₂, some result) →
          s₂.tree = s₁.tree ∧
            (∀ report', result = .ok report' → report'.withoutConflicts = report.withoutConflicts) ∧
            (c'.Undisturbed s.assembler s₁.tree → ∃ report', result = .ok report') := by
  obtain ⟨hrun, ha, hsame⟩ := run_of_step h
  have hcancelled : s₁.cancelled = false := hsame.trans (uncancelled_of_run hrun)
  have hagain := run_again hrun hapart
  refine ⟨madeFile_of_run hrun, fun later c' s₂ result hlater => ?_⟩
  obtain ⟨state, hafter⟩ := after_runs (s := s₁) (fun c => by rw [ha]; exact (hagain c).1) later
  rw [hafter] at hlater
  obtain ⟨hrun', -⟩ := run_of_step hlater
  rw [facing_of_uncancelled (s := { s₁ with state }) hcancelled] at hrun'
  dsimp only at hrun'
  rw [ha] at hrun'
  obtain ⟨htree, hreport, hsucceeds⟩ := hagain c'
  rw [hrun'] at htree hreport hsucceeds
  exact ⟨htree, hreport, hsucceeds⟩

def disagreeingTree : FileTree :=
  (FileTree.empty.set ["work", "old.jar"] (.file (Zip.encode [⟨"notes.txt", .file [0]⟩]))).set
    ["work", "new.jar"] (.file (Zip.encode [⟨"notes.txt", .file [1]⟩]))

/-- An assembler that takes the first of the archives once more behind the second, with an output in a
directory that is yet to be made. -/
def assemblerOfDisagreeing : Assembler where
  config := { inputs := [⟨{ name := "old" }, "old.jar"⟩, ⟨{ name := "new" }, "new.jar"⟩,
                ⟨{ name := "copy" }, "old.jar"⟩],
              output := "out/app.jar", entryPoint := "App" }
  policies := .empty
  rules := .empty
  accepted := by decide

theorem outputApart_of_disagreeing : assemblerOfDisagreeing.OutputApart disagreeingTree := by
  have hplace : ((disagreeingTree.makeDirectory "out").1.locate "out/app.jar").toOption =
      some ["work", "out", "app.jar"] := by
    decide +kernel
  have hinputs : ∀ input ∈ assemblerOfDisagreeing.config.archives,
      (disagreeingTree.locate input.path).toOption ≠ some ["work", "out", "app.jar"] := by
    decide +kernel
  intro q hq input hmem hinput
  have hq' : (disagreeingTree.makeDirectory "out").1.locate "out/app.jar" = .ok q := hq
  rw [hq'] at hplace
  exact hinputs input hmem (by rw [hinput, hplace])

/-- Whichever archive is read first, the same is assembled; only the texts that differ are counted
otherwise. -/
theorem disagreeing_repeated :
    let s : Session := { assembler := assemblerOfDisagreeing, tree := disagreeingTree }
    ∃ s₁ report s₂ report', s.step (.run {}) = (s₁, some (.ok report)) ∧
      s₁.step (.run { picks := [1, 2, 0] }) = (s₂, some (.ok report')) ∧
      (∃ q, FileTree.MadeFile "out/app.jar" q s.tree s₁.tree) ∧ s₂.tree = s₁.tree ∧
      report'.withoutConflicts = report.withoutConflicts ∧
      report.merge.conflictingDuplicates = 1 ∧ report'.merge.conflictingDuplicates = 2 := by
  intro s
  have hfirst : (assemblerOfDisagreeing.run disagreeingTree {}).2.toOption.map
      (·.merge.conflictingDuplicates) = some 1 := by
    decide +kernel
  have hsecond : (assemblerOfDisagreeing.run (assemblerOfDisagreeing.run disagreeingTree {}).1
      { picks := [1, 2, 0] }).2.toOption.map (·.merge.conflictingDuplicates) = some 2 := by
    decide +kernel
  have hroom : (assemblerOfDisagreeing.run disagreeingTree {}).1.filePlace?
        (draftPath "out/app.jar" "000000") = some ["work", "out", ".shadejar-000000.tmp"] ∧
      (assemblerOfDisagreeing.run disagreeingTree {}).1.lookup
        ["work", "out", ".shadejar-000000.tmp"] = none := by
    decide +kernel
  rcases hrun : assemblerOfDisagreeing.run disagreeingTree {} with ⟨u, e | report⟩
  · simp [hrun, Except.toOption] at hfirst
  · rw [hrun] at hfirst hsecond hroom
    have hfacing : s.assembler.run s.tree (s.facing {}) = (u, .ok report) := by
      rw [facing_of_uncancelled rfl]
      exact hrun
    have hstep : s.step (.run {}) = ({ s with tree := u, state := .done }, some (.ok report)) :=
      step_run hfacing
    rcases hagain : (Session.mk assemblerOfDisagreeing u .done false).step (.run { picks := [1, 2, 0] })
      with ⟨s₂, _ | result⟩
    · cases hagain
    · obtain ⟨hmade, hrepeats⟩ := run_repeats s {} outputApart_of_disagreeing hstep
      obtain ⟨htree, hreport, hsucceeds⟩ := hrepeats [] { picks := [1, 2, 0] } s₂ result hagain
      obtain ⟨report', rfl⟩ := hsucceeds ⟨fun _ => rfl, fun _ => rfl, _, hroom⟩
      have hrun' := (run_of_step hagain).1
      rw [facing_of_uncancelled rfl] at hrun'
      dsimp only at hrun'
      rw [hrun'] at hsecond
      exact ⟨_, report, s₂, report', hstep, hagain, hmade, htree, hreport report' rfl,
        Option.some.inj hfirst, Option.some.inj hsecond⟩

end Session

end FatJar
