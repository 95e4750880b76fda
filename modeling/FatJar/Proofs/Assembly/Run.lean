import FatJar.Assembly.Session
import FatJar.Proofs.Output.Writer

namespace FatJar

open Output

namespace Assembler

section Stages

variable {α β : Type} {s : AssemblyState}

theorem run_bind (x : Stage α) (f : α → Stage β) (s : AssemblyState) :
    (x >>= f).run.run s =
      match x.run.run s with
      | (.ok a, s') => (f a).run.run s'
      | (.error e, s') => (.error e, s') := by
  rw [ExceptT.run_bind, StateT.run_bind]
  obtain ⟨e | a, s'⟩ := x.run.run s
  · rfl
  · rfl

def Ends (x : Stage α) (last : AssemblyState) : Prop :=
  ∀ s a s', x.run.run s = (.ok a, s') → s' = last

theorem Ends.bind {f : α → Stage β} (h : ∀ a, Ends (f a) s) (x : Stage α) : Ends (x >>= f) s := by
  intro first b last hb
  rw [run_bind] at hb
  split at hb
  · next a s' _ => exact h a s' b last hb
  · cases hb

end Stages

variable (a : Assembler) (t : FileTree) (c : Conditions)

theorem prepare_ends : Ends (a.prepare t c) .writing := by
  unfold prepare
  refine Ends.bind (fun _ => Ends.bind (fun _ => Ends.bind (fun _ => Ends.bind (fun _ =>
    Ends.bind (fun _ => ?_) _) _) _) _) _
  -- What is left sets the state and checks once more.
  intro s p s' h
  rw [run_bind] at h
  unfold enter Conditions.check at h
  cases hc : c.cancelled .writing with
  | true =>
    rw [hc] at h
    cases h
  | false =>
    rw [hc] at h
    cases h
    rfl

theorem prepared_ends {p : Prepared} (h : (a.prepared t c).1 = .ok p) :
    (a.prepared t c).2 = .writing :=
  prepare_ends a t c .idle p _ (Prod.ext h rfl)

theorem prepared_of_cancelled (hc : ∀ p, c.cancelled p = true) :
    (a.prepared t c).1 = .error .cancelled := by
  have hscan : a.scan t c = .error .cancelled := by
    unfold scan Conditions.check
    rw [hc]
    rfl
  unfold prepared prepare
  rw [run_bind, hscan]
  rfl

/-- A run that fails has touched no file, and only one that came to writing has made directories. -/
theorem run_eq :
    (∃ u e, a.run t c = (u, .error e) ∧
        FileTree.MadeWay (Path.directoryOf a.config.output) t u ∧
        (u ≠ t → (a.prepared t c).2 = .writing)) ∨
      ∃ u report p, a.run t c = (u, .ok report) ∧ (a.prepared t c).1 = .ok p ∧
        u.find a.config.output =
          .ok (.file (Zip.encode (items p.manifest.attributes p.contents))) := by
  unfold run
  cases hp : (a.prepared t c).1 with
  | error e => exact .inl ⟨t, e, rfl, FileTree.MadeWay.refl _ t, fun h => absurd rfl h⟩
  | ok p =>
    dsimp only
    rcases write_eq t a.config.output p.manifest.attributes p.contents
        { cancelled := c.cancelled ∘ .item, failing := c.failing, mark := c.mark } with
      ⟨u, e, hwrite, hway⟩ | ⟨u, q, -, hq, -, hwrite⟩
    · rw [hwrite]
      exact .inl ⟨u, e, rfl, hway, fun _ => prepared_ends a t c hp⟩
    · rw [hwrite]
      exact .inr ⟨_, _, p, rfl, rfl, find_written hq _ _⟩

theorem run_of_cancelled (hc : ∀ p, c.cancelled p = true) : a.run t c = (t, .error .cancelled) := by
  unfold run
  rw [prepared_of_cancelled a t c hc]

end Assembler

namespace Session

variable {s : Session}

def after (s : Session) (steps : List Step) : Session :=
  steps.foldl (fun s x => (s.step x).1) s

/-- The conditions that a run meets in a session. -/
def facing (s : Session) (c : Assembler.Conditions) : Assembler.Conditions :=
  { c with cancelled := fun p => s.cancelled || c.cancelled p }

def endOf (result : Except AssemblyError Assembler.Report) : AssemblyState :=
  match result with
  | .ok _ => .done
  | .error _ => .failed

theorem step_run {c : Assembler.Conditions} {u : FileTree}
    {result : Except AssemblyError Assembler.Report}
    (h : s.assembler.run s.tree (s.facing c) = (u, result)) :
    s.step (.run c) = ({ s with tree := u, state := endOf result }, some result) := by
  unfold facing at h
  simp only [step, h]
  rfl

theorem assembler_after (s : Session) (steps : List Step) :
    (s.after steps).assembler = s.assembler := by
  induction steps generalizing s with
  | nil => rfl
  | cons x steps ih =>
    have hstep : (s.step x).1.assembler = s.assembler := by cases x <;> rfl
    exact (ih _).trans hstep

theorem cancelled_step (h : s.cancelled = true) (x : Step) : (s.step x).1.cancelled = true := by
  cases x with
  | cancel => rfl
  | run | put | remove => exact h

theorem cancelled_after (s : Session) {steps : List Step}
    (h : s.cancelled = true ∨ Step.cancel ∈ steps) : (s.after steps).cancelled = true := by
  induction steps generalizing s with
  | nil =>
    obtain h | h := h
    · exact h
    · simp at h
  | cons x steps ih =>
    apply ih
    obtain h | h := h
    · exact .inl (cancelled_step h x)
    · obtain rfl | h := List.mem_cons.mp h
      · exact .inl rfl
      · exact .inr h

/-- Whatever an assembler has been through, a run of it ends in one of two ways: it fails and leaves
every file as it was, without another one beside it, or the complete archive stands at the path of
the output. Once it has been cancelled, a run does nothing at all. -/
theorem run_fails_clean_or_completes (a : Assembler) (t : FileTree) (earlier : List Step)
    (c : Assembler.Conditions) :
    let s := Session.after { assembler := a, tree := t } earlier
    let s' := (s.step (.run c)).1
    ((∃ e, (s.step (.run c)).2 = some (.error e) ∧ s'.state = .failed ∧
          FileTree.MadeWay (Path.directoryOf a.config.output) s.tree s'.tree ∧
          (∀ path n, s.tree.find path = .ok n → s'.tree.find path = .ok n) ∧
          (s'.tree ≠ s.tree → (a.prepared s.tree (s.facing c)).2 = .writing)) ∨
        ∃ report p, (s.step (.run c)).2 = some (.ok report) ∧ s'.state = .done ∧
          (a.prepared s.tree (s.facing c)).1 = .ok p ∧
          s'.tree.find a.config.output =
            .ok (.file (Zip.encode (items p.manifest.attributes p.contents)))) ∧
      (.cancel ∈ earlier →
        (s.step (.run c)).2 = some (.error .cancelled) ∧ s'.tree = s.tree) := by
  intro s s'
  have ha : s.assembler = a := assembler_after _ earlier
  have hstep : ∀ u result, a.run s.tree (s.facing c) = (u, result) →
      s.step (.run c) = ({ s with tree := u, state := endOf result }, some result) := by
    intro u result hrun
    exact step_run (by rw [ha, hrun])
  constructor
  · rcases a.run_eq s.tree (s.facing c) with ⟨u, e, hrun, hway, hwriting⟩ |
      ⟨u, report, p, hrun, hp, hfind⟩
    · simp only [s', hstep u _ hrun]
      exact .inl ⟨e, rfl, rfl, hway, fun path n => hway.toKeeps.find, hwriting⟩
    · simp only [s', hstep u _ hrun]
      exact .inr ⟨report, p, rfl, rfl, hp, hfind⟩
  · intro hcancel
    have hcancelled : s.cancelled = true := cancelled_after _ (.inr hcancel)
    have hall : ∀ p, (s.facing c).cancelled p = true := by
      intro p
      simp [facing, hcancelled]
    simp only [s', hstep _ _ (a.run_of_cancelled s.tree (s.facing c) hall), and_self]

def notesTree : FileTree :=
  (FileTree.empty.putFile "notes.jar" (Zip.encode [⟨"notes.txt", .file [0]⟩])).putFile "out/app.jar" [1]

def assemblerOfNotes : Assembler where
  config := { inputs := [⟨{ name := "notes" }, "notes.jar"⟩], output := "out/app.jar",
              entryPoint := "App" }
  policies := .empty
  rules := .empty
  accepted := by decide

/-- The draft cannot be put in the place of the output. -/
def unreplaced : Assembler.Conditions :=
  { failing := fun step => step = .replace }

def notesAfter (earlier : List Step) : Session :=
  Session.after { assembler := assemblerOfNotes, tree := notesTree } earlier

/-- The session after a run that comes after other steps, and the result of the run. -/
def runAfter (earlier : List Step) (c : Assembler.Conditions) :
    Session × Option (Except AssemblyError Assembler.Report) :=
  (notesAfter earlier).step (.run c)

/-- A run whose last step fails leaves the output from before. The run after it puts its own in the place of
that, and once the assembler is cancelled a run leaves this one. -/
theorem output_kept_and_replaced :
    (∃ e, (runAfter [] unreplaced).2 = some (.error e) ∧ (runAfter [] unreplaced).1.state = .failed ∧
        FileTree.MadeWay "out" notesTree (runAfter [] unreplaced).1.tree ∧
        (runAfter [] unreplaced).1.tree.find "out/app.jar" = .ok (.file [1])) ∧
      (∃ report, ∃ p : Assembler.Prepared, (runAfter [.run unreplaced] {}).2 = some (.ok report) ∧
        (runAfter [.run unreplaced] {}).1.state = .done ∧
        (items p.manifest.attributes p.contents).map (·.name) =
          ["META-INF/MANIFEST.MF", "META-INF/", "notes.txt"] ∧
        (runAfter [.run unreplaced] {}).1.tree.find "out/app.jar" =
          .ok (.file (Zip.encode (items p.manifest.attributes p.contents)))) ∧
      (runAfter [.run {}, .cancel] {}).2 = some (.error .cancelled) ∧
      (runAfter [.run {}, .cancel] {}).1.tree = (notesAfter [.run {}, .cancel]).tree := by
  have hfailing : (runAfter [] unreplaced).2.map (·.toOption.isSome) = some false := by decide +kernel
  have hdone : (runAfter [.run unreplaced] {}).2.map (·.toOption.isSome) = some true := by decide +kernel
  have hfound : notesTree.find "out/app.jar" = .ok (.file [1]) := rfl
  let s := Session.after { assembler := assemblerOfNotes, tree := notesTree } [.run unreplaced]
  have hnames : (assemblerOfNotes.prepared s.tree (s.facing {})).1.toOption.map (fun p =>
        (items p.manifest.attributes p.contents).map (·.name)) =
      some ["META-INF/MANIFEST.MF", "META-INF/", "notes.txt"] := by
    decide +kernel
  obtain ⟨hfailed, -⟩ := run_fails_clean_or_completes assemblerOfNotes notesTree [] unreplaced
  obtain ⟨hcompleted, -⟩ :=
    run_fails_clean_or_completes assemblerOfNotes notesTree [.run unreplaced] {}
  obtain ⟨-, hcancelled⟩ :=
    run_fails_clean_or_completes assemblerOfNotes notesTree [.run {}, .cancel] {}
  unfold runAfter notesAfter at *
  refine ⟨?_, ?_, hcancelled (List.mem_cons_of_mem _ List.mem_cons_self)⟩
  · obtain ⟨e, hresult, hstate, hway, hkept, -⟩ | ⟨report, p, hresult, -⟩ := hfailed
    · exact ⟨e, hresult, hstate, hway, hkept _ _ hfound⟩
    · rw [hresult] at hfailing
      cases hfailing
  · obtain ⟨e, hresult, -⟩ | ⟨report, p, hresult, hstate, hp, hfind⟩ := hcompleted
    · rw [hresult] at hdone
      cases hdone
    · rw [hp] at hnames
      exact ⟨report, p, hresult, hstate, Option.some.inj hnames, hfind⟩

end Session

end FatJar
