import FatJar.Proofs.Scan.Steps
import FatJar.Zip.Encoding

namespace FatJar.Scan

variable {σ : Type} {t : FileTree} {archives : List InputArchive} {sink : Sink σ} {state : σ}

/-- A scan without failures, by the entries with which the sink has been called. -/
structure Complete (t : FileTree) (archives : List InputArchive) (sink : Sink σ) (state : σ)
    (calls : List ScannedEntry) (summary : Summary) (final : σ) : Prop where
  final : final = callAll sink state calls
  toTheEnd : ∀ a ∈ archives,
    ∃ archive, Archive.ofPath t a.path = .ok archive ∧ archive.entries = (entriesIn t a, none)
  once : calls.Perm (archives.flatMap fun a => scanned a (entriesIn t a))
  inOrder : ∀ a ∈ archives, (scanned a (entriesIn t a)).Sublist calls
  apart : (archives.map (·.rank)).Nodup → (calls.map (·.position)).Nodup
  summary : summary =
    ⟨archives.length, (archives.map fun a => (entriesIn t a).length).sum,
      (archives.map fun a => totalSize (entriesIn t a)).sum⟩

theorem flatMap_entriesOf (t : FileTree) (archives : List InputArchive) :
    entriesOf (archives.map (events t)).flatten = archives.flatMap fun a => scanned a (entriesIn t a) := by
  induction archives with
  | nil => rfl
  | cons a archives ih =>
    rw [List.map_cons, List.flatten_cons, entriesOf_append, ih, entriesOf_events, List.flatMap_cons]

theorem flatMap_totalsOf (h : ∀ e, .failed e ∉ (archives.map (events t)).flatten) :
    totalsOf (archives.map (events t)).flatten =
      archives.map fun a => ((entriesIn t a).length, totalSize (entriesIn t a)) := by
  induction archives with
  | nil => rfl
  | cons a archives ih =>
    simp only [List.map_cons, List.flatten_cons, List.mem_append, not_or] at h
    rw [List.map_cons, List.flatten_cons, totalsOf_append, (events_of_no_failure fun e => (h e).1).2,
      ih fun e => (h e).2]
    rfl

theorem complete_of_interleave {picks : List Nat} {es : List Event}
    (hpicks : interleave picks (archives.map (events t)) = es) (hfailed : ∀ e, .failed e ∉ es) :
    Complete t archives sink state (entriesOf es) (consume sink state es).summary
      (callAll sink state (entriesOf es)) := by
  have hperm := interleave_perm picks (archives.map (events t))
  rw [hpicks] at hperm
  have hnone : ∀ e, .failed e ∉ (archives.map (events t)).flatten := fun e he =>
    hfailed e (hperm.mem_iff.mpr he)
  have hentries : (entriesOf es).Perm (archives.flatMap fun a => scanned a (entriesIn t a)) := by
    rw [← flatMap_entriesOf]
    exact hperm.filterMap _
  have htotals : (totalsOf es).Perm
      (archives.map fun a => ((entriesIn t a).length, totalSize (entriesIn t a))) := by
    rw [← flatMap_totalsOf hnone]
    exact hperm.filterMap _
  refine ⟨rfl, fun a ha => ?_, hentries, fun a ha => ?_, fun hranks => ?_, ?_⟩
  · have hsent : events t a ∈ archives.map (events t) := List.mem_map_of_mem ha
    refine (events_of_no_failure fun e he => ?_).1
    exact hnone e (List.mem_flatten_of_mem hsent he)
  · rw [← entriesOf_events, ← hpicks]
    exact (sublist_interleave (List.mem_map_of_mem ha) picks).filterMap _
  · exact ((hentries.map _).nodup_iff).mpr (nodup_positions hranks _)
  · rw [summary_consume, htotals.length_eq, (htotals.map _).sum_eq, (htotals.map _).sum_eq,
      List.length_map, List.map_map, List.map_map]
    rfl

namespace System

variable {cancelled : Bool} {capacity : Nat} {actions : List Action} {s : System σ}

/-- A scan that has ended. A sink may keep a record of its calls in its state, so the state at the end
tells with which entries it has been called. -/
structure Delivers (t : FileTree) (archives : List InputArchive) (sink : Sink σ) (state : σ)
    (s : System σ) : Prop where
  ok_iff : (∃ r, s.result = .ok r) ↔
    (∀ e, .failed e ∉ s.taken) ∧ Accepts sink state (entriesOf s.taken) ∧ s.cancelled = false
  complete : ∀ {summary final}, s.result = .ok (summary, final) →
    Complete t archives sink state (entriesOf s.taken) summary final
  failed : ∀ {error final}, FirstFailure sink state s.taken error final →
    s.result = .error error ∧ s.progress.state = final
  error : ∀ {error}, s.result = .error error →
    (∃ final, FirstFailure sink state s.taken error final) ∨ error = .cancelled ∧ s.cancelled = true
  /-- A run that its caller does not cancel comes to what one comes to whose workers go on after a
  failure. -/
  asRun : s.cancelled = false → ∃ picks,
    Scan.run t picks archives sink false (fun _ => false) state = s.result

theorem result_of_failure {error : AssemblyError} (h : s.progress.failure = some error) :
    s.result = .error error := by
  rw [result, Progress.result, h]

theorem result_of_no_failure (h : s.progress.failure = none) :
    s.result = if s.cancelled then .error .cancelled else .ok (s.progress.summary, s.progress.state) := by
  rw [result, Progress.result, h]

theorem result_eq_ok_iff {summary : Summary} {final : σ} :
    s.result = .ok (summary, final) ↔ s.progress.failure = none ∧ s.cancelled = false ∧
      s.progress.summary = summary ∧ s.progress.state = final := by
  cases hfailure : s.progress.failure with
  | some error => simp [result_of_failure hfailure]
  | none =>
    rw [result_of_no_failure hfailure]
    cases s.cancelled <;> simp

theorem result_eq_error_iff {error : AssemblyError} :
    s.result = .error error ↔ s.progress.failure = some error ∨
      s.progress.failure = none ∧ s.cancelled = true ∧ error = .cancelled := by
  cases hfailure : s.progress.failure with
  | some error' => simp [result_of_failure hfailure]
  | none =>
    rw [result_of_no_failure hfailure]
    cases s.cancelled <;> simp [eq_comm]

theorem OnCourse.failure_eq_none_iff {streams : List (List Event)} (hs : OnCourse sink state streams s) :
    s.progress.failure = none ↔
      (∀ e, .failed e ∉ s.taken) ∧ Accepts sink state (entriesOf s.taken) := by
  rw [hs.progress]
  exact consume_eq_none_iff

theorem OnCourse.exists_interleave {streams : List (List Event)} (hs : OnCourse sink state streams s)
    (h : s.Ended) (hfailure : s.progress.failure = none) (hcancelled : s.cancelled = false) :
    ∃ picks, interleave picks streams = s.taken := by
  have hstopped : s.stopped = false := by rw [hs.stopped, hfailure, Option.isSome_none]
  obtain ⟨picks, hpicks⟩ := hs.unhindered hstopped hcancelled []
  have hnothing : interleave [] s.remaining = [] := List.flatten_eq_nil_iff.mpr h.2
  exact ⟨picks, by rw [hpicks, h.1, hnothing, List.append_nil, List.append_nil]⟩

theorem OnCourse.delivers (hs : OnCourse sink state (archives.map (events t)) s) (h : s.Ended) :
    Delivers t archives sink state s where
  ok_iff := by
    rw [← and_assoc, ← hs.failure_eq_none_iff]
    simp only [Prod.exists, result_eq_ok_iff, exists_and_left, exists_eq', and_true]
  complete {summary final} hok := by
    obtain ⟨hfailure, hcancelled, rfl, rfl⟩ := result_eq_ok_iff.mp hok
    obtain ⟨picks, hpicks⟩ := hs.exists_interleave h hfailure hcancelled
    rw [hs.progress] at hfailure ⊢
    rw [state_of_consume hfailure]
    exact complete_of_interleave hpicks (consume_eq_none_iff.mp hfailure).1
  failed {error final} hfirst := by
    obtain ⟨hfails, hfinal⟩ := hfirst.consume_eq
    rw [← hs.progress] at hfails hfinal
    exact ⟨result_of_failure hfails, hfinal⟩
  error {error} herror := by
    obtain hfailure | ⟨-, hcancelled, rfl⟩ := result_eq_error_iff.mp herror
    · rw [hs.progress] at hfailure
      exact .inl (exists_firstFailure hfailure)
    · exact .inr ⟨rfl, hcancelled⟩
  asRun hcancelled := by
    simp only [run, Bool.false_eq_true, if_false]
    cases hfailure : s.progress.failure with
    | none =>
      obtain ⟨picks, hpicks⟩ := hs.exists_interleave h hfailure hcancelled
      refine ⟨picks, ?_⟩
      rw [hpicks, ← hs.progress, result, hcancelled]
    | some error =>
      have hstopped : s.stopped = true := by rw [hs.stopped, hfailure, Option.isSome_some]
      obtain ⟨picks, before, after, hpicks, ⟨rest, htaken⟩, hfails⟩ := hs.failed hstopped hcancelled
      obtain ⟨error', herror'⟩ := Option.isSome_iff_exists.mp hfails
      refine ⟨picks, ?_⟩
      have hsame : error' = error := by
        rw [hs.progress, ← htaken, (consume_of_failure herror' rest).1] at hfailure
        exact Option.some.inj hfailure
      rw [result_of_failure hfailure, hpicks, Progress.result, (consume_of_failure herror' after).1, hsame]

/-- Every schedule of the workers and the consumer comes to an end, and there the scan has delivered
all entries or fails with its first failure. The sink is never called behind that, the workers are told
to stop at no other occasion, and nobody but the caller cancels the run. -/
theorem scan_delivers (t : FileTree) (archives : List InputArchive) (sink : Sink σ) (capacity : Nat)
    (cancelled : Bool) (state : σ) {actions : List Action} {s : System σ}
    (h : (start t archives cancelled state).after? capacity sink actions = some s) :
    actions.length ≤ (start t archives cancelled state).work ∧
      (¬ s.Ended → ∃ action s', s.step? capacity sink action = some s') ∧
      (s.Ended → Delivers t archives sink state s) ∧
      (s.stopped = true ↔ ∃ error final, FirstFailure sink state s.taken error final) ∧
      (s.cancelled = true ↔ cancelled = true ∨ .cancel ∈ actions) := by
  have hs := onCourse h
  refine ⟨?_, exists_step capacity sink, hs.delivers, ?_, cancelled_iff h⟩
  · exact Nat.le_trans (Nat.le_add_right _ _) (length_le_work h)
  · rw [hs.stopped, hs.progress, Option.isSome_iff_exists]
    constructor
    · rintro ⟨error, herror⟩
      exact ⟨error, exists_firstFailure herror⟩
    · rintro ⟨error, final, hfirst⟩
      exact ⟨error, hfirst.consume_eq.1⟩

section

def letters : FileTree :=
  FileTree.empty.set ["work", "lib.jar"]
    (.file (Zip.encode [⟨"a.txt", .file [0]⟩, ⟨"b.txt", .file [1]⟩, ⟨"c.txt", .file [2]⟩]))

def recording : Sink (List String) := fun paths e => (paths ++ [e.entry.path], .ok ())

/-- A file that is missing is met before the last two entries of the other archive, one of which is on
its way then. -/
def lateEntry : Option (System (List String)) :=
  (start letters [⟨{ name := "gone" }, "gone.jar", 0⟩, ⟨{ name := "lib" }, "lib.jar", 1⟩] false []).after?
    2 recording
    [.advance 1, .send 1, .advance 0, .send 0, .advance 1, .receive, .receive, .send 1, .advance 1,
      .receive, .send 1, .receive]

theorem late_entry_not_delivered :
    ∃ s error final, lateEntry = some s ∧ s.result = .error error ∧
      (entriesOf s.taken).map (·.entry.path) = ["a.txt", "b.txt"] ∧
      FirstFailure recording [] s.taken error final ∧ s.progress.state = final ∧ final = ["a.txt"] ∧
      s.cancelled = false := by
  have hrun : lateEntry.map (fun s => ((s.channel.length, s.remaining.map List.length),
      ((entriesOf s.taken).map (·.entry.path), s.progress.state), (s.stopped, s.cancelled))) =
      some ((0, [0, 0]), (["a.txt", "b.txt"], ["a.txt"]), (true, false)) := by
    decide +kernel
  obtain ⟨s, hs, hend⟩ := Option.map_eq_some_iff.mp hrun
  simp only [Prod.mk.injEq] at hend
  obtain ⟨⟨hchannel, hremaining⟩, ⟨hpaths, hstate⟩, hstopped, hcancelled⟩ := hend
  obtain ⟨-, -, hdelivers, hfirst, -⟩ := scan_delivers letters _ recording 2 false [] hs
  obtain ⟨error, final, hfirst⟩ := hfirst.mp hstopped
  have hdone : s.Ended := by
    refine ⟨List.eq_nil_of_length_eq_zero hchannel, fun es hes => ?_⟩
    have hlength : es.length ∈ s.remaining.map List.length := List.mem_map_of_mem hes
    rw [hremaining] at hlength
    exact List.eq_nil_of_length_eq_zero (by simpa using hlength)
  obtain ⟨hresult, hfinal⟩ := (hdelivers hdone).failed hfirst
  exact ⟨s, error, final, hs, hresult, hpaths, hfirst, hfinal, hfinal ▸ hstate, hcancelled⟩

end

end System

end FatJar.Scan
