import FatJar.Proofs.Archive.Reader
import FatJar.Proofs.Scan.Delivery

namespace FatJar.Scan

variable {σ : Type} {t : FileTree} {input : InputArchive} {a : Archive} {sink : Sink σ} {state : σ}
  {es before : List ScannedEntry} {xs : List Event}

theorem path_of_ofPath {path : String} (h : Archive.ofPath t path = .ok a) : a.path = path := by
  rw [Archive.ofPath] at h
  split at h
  · cases h
  · cases h
  · cases h
  · split at h
    · cases h
    · rw [← Except.ok.inj h]

theorem Accepts.of_prefix (h : Accepts sink state es) (hbefore : before <+: es) :
    Accepts sink state before := by
  induction before generalizing state es with
  | nil => trivial
  | cons e before ih =>
    obtain ⟨after, rfl⟩ := hbefore
    exact ⟨h.1, ih h.2 (List.prefix_append before after)⟩

/-- Events that only fail with the last one. -/
def FailsLast (sink : Sink σ) (state : σ) (xs : List Event) : Prop :=
  ∀ before x after, xs = before ++ x :: after → (consume sink state before).failure = none

theorem failsLast_of_accepts (h : Accepts sink state es) (last : Event) :
    FailsLast sink state (es.map .entry ++ [last]) := by
  intro before x after hxs
  have hbefore : before <+: es.map .entry := by
    have hlength := congrArg List.length hxs
    simp only [List.length_append, List.length_cons, List.length_nil] at hlength
    exact List.prefix_of_prefix_length_le ⟨x :: after, hxs.symm⟩ (List.prefix_append _ [last]) (by omega)
  refine consume_eq_none_iff.mpr ⟨fun e he => ?_, h.of_prefix ?_⟩
  · obtain ⟨e', -, hentry⟩ := List.mem_map.mp (hbefore.subset he)
    cases hentry
  · rw [← entriesOf_map_entry es]
    exact hbefore.filterMap _

theorem failsLast_events (ha : Archive.ofPath t input.path = .ok a)
    (haccepts : Accepts sink state (scanned input a.entries.1)) : FailsLast sink state (events t input) := by
  rcases hentries : a.entries with ⟨es, none | defect⟩
  · rw [events_of_ok ha hentries]
    rw [hentries] at haccepts
    exact failsLast_of_accepts haccepts _
  · rw [events_of_defect ha hentries]
    rw [hentries] at haccepts
    exact failsLast_of_accepts haccepts _

namespace System

variable {capacity : Nat} {s s' : System σ} {action : Action} {actions : List Action}

/-- Until somebody cancels the scan all events of the one worker are on their way in turn. -/
def InTurn (xs : List Event) (s : System σ) : Prop :=
  s.cancelled = false → ∃ w, s.workers = [w] ∧ s.taken ++ s.channel ++ w.remaining = xs

theorem getElem?_singleton {w w' : Worker} {i : Nat} (hw : s.workers = [w]) (hi : s.workers[i]? = some w') :
    i = 0 ∧ w = w' := by
  rw [hw] at hi
  cases i with
  | zero => exact ⟨rfl, Option.some.inj hi⟩
  | succ i => cases hi

theorem InTurn.step {streams : List (List Event)} (hs : OnCourse sink state streams s)
    (hlast : FailsLast sink state xs) (hturn : InTurn xs s) (h : Step capacity sink s action s') :
    InTurn xs s' := by
  intro hcancelled
  cases h with
  | @advance i x rest hi hgo =>
    obtain ⟨w, hw, hxs⟩ := hturn hcancelled
    obtain ⟨rfl, rfl⟩ := getElem?_singleton hw hi
    exact ⟨⟨some x, rest⟩, by rw [hw]; rfl, hxs⟩
  | @quit i x rest hi hstop =>
    obtain ⟨w, hw, hxs⟩ := hturn hcancelled
    obtain ⟨rfl, rfl⟩ := getElem?_singleton hw hi
    -- A worker is told to stop only after its last event.
    have hstopped : s.stopped = true := by
      have hnot : s.cancelled = false := hcancelled
      simpa [hnot] using hstop
    have hmore : ∃ y after, s.channel ++ x :: rest = y :: after :=
      List.exists_cons_of_ne_nil (by simp)
    obtain ⟨y, after, hmore⟩ := hmore
    have hnone := hlast s.taken y after (by rw [← hmore, ← hxs, List.append_assoc]; rfl)
    rw [hs.stopped, hs.progress, hnone] at hstopped
    cases hstopped
  | @send i x rest hi =>
    obtain ⟨w, hw, hxs⟩ := hturn hcancelled
    obtain ⟨rfl, rfl⟩ := getElem?_singleton hw hi
    refine ⟨{ rest }, by rw [hw]; rfl, ?_⟩
    rw [← hxs]
    simp [Worker.remaining]
  | @receive x channel hchannel =>
    obtain ⟨w, hw, hxs⟩ := hturn hcancelled
    refine ⟨w, hw, ?_⟩
    rw [← hxs, hchannel]
    simp
  | cancel => cases hcancelled

theorem inTurn_start (t : FileTree) (input : InputArchive) (state : σ) :
    InTurn (events t input) (start t [input] false state) :=
  fun _ => ⟨{ rest := events t input }, rfl, rfl⟩

theorem taken_of_ended (hlast : FailsLast sink state (events t input))
    (h : (start t [input] false state).after? capacity sink actions = some s) (hended : s.Ended)
    (hcancelled : s.cancelled = false) : s.taken = events t input := by
  have hboth : OnCourse sink state [events t input] s ∧ InTurn (events t input) s := by
    refine after?_preserves (p := fun s => OnCourse sink state [events t input] s ∧
      InTurn (events t input) s) ?_ (fun hs hstep => ?_) h
    · exact ⟨onCourse_start t [input] false sink state, inTurn_start t input state⟩
    · exact ⟨hs.1.step hstep, hs.2.step hs.1 hlast hstep⟩
  obtain ⟨w, hw, hxs⟩ := hboth.2 hcancelled
  have hrest : w.remaining = [] := hended.2 _ (by simp [remaining, hw])
  rw [← hxs, hended.1, hrest, List.append_nil, List.append_nil]

/-- A scan of the archive that has ended. The sink has got the entries before the first record that is not good,
in their order; the scan has a result if these are all, and else the error that a reader answers with. -/
structure HandsOver (a : Archive) (input : InputArchive) (sink : Sink σ) (state : σ) (s : System σ) :
    Prop where
  entries : entriesOf s.taken = scanned input a.entries.1
  state : s.progress.state = callAll sink state (scanned input a.entries.1)
  ok_iff : (∃ r, s.result = .ok r) ↔ a.entries.1.length = a.records.length
  ok : ∀ {summary final}, s.result = .ok (summary, final) →
    summary = ⟨1, a.entries.1.length, totalSize a.entries.1⟩
  error : ∀ {error}, s.result = .error error →
    a.reader.answer a.entries.1.length = some (.error error)

theorem handsOver (ha : Archive.ofPath t input.path = .ok a)
    (haccepts : Accepts sink state (scanned input a.entries.1))
    (h : (start t [input] false state).after? capacity sink actions = some s) (hended : s.Ended)
    (hcancelled : s.cancelled = false) : HandsOver a input sink state s := by
  have hs := (onCourse h).progress
  have htaken := taken_of_ended (failsLast_events ha haccepts) h hended hcancelled
  have hentries : entriesOf s.taken = scanned input a.entries.1 := by
    rw [htaken, entriesOf_events, entriesIn_of_ok ha]
  obtain ⟨hnone, hlength, -⟩ | ⟨r, defect, hdefect, hr, -, hanswer, -⟩ := a.readsTo_entries.answer_cases
  · have hevents := events_of_ok ha (Prod.ext rfl hnone)
    have hfailure : (consume sink state s.taken).failure = none := by
      refine consume_eq_none_iff.mpr ⟨fun e he => ?_, hentries ▸ haccepts⟩
      rw [htaken, hevents] at he
      simp at he
    have hsummary : s.progress.summary = ⟨1, a.entries.1.length, totalSize a.entries.1⟩ := by
      rw [hs, summary_consume, htaken, hevents, totalsOf_append, totalsOf_map_entry]
      rfl
    have hresult : s.result = .ok (s.progress.summary, s.progress.state) :=
      result_eq_ok_iff.mpr ⟨hs ▸ hfailure, hcancelled, rfl, rfl⟩
    refine ⟨hentries, ?_, iff_of_true ⟨_, hresult⟩ hlength, fun hok => ?_, fun herror => ?_⟩
    · rw [hs, state_of_consume hfailure, hentries]
    · rw [← hsummary, (Prod.mk.inj (Except.ok.inj (hresult.symm.trans hok))).1]
    · cases hresult.symm.trans herror
  · have hevents := events_of_defect ha (Prod.ext rfl hdefect)
    have hfirst : FirstFailure sink state s.taken (.corrupt input.path defect)
        (callAll sink state (entriesOf ((scanned input a.entries.1).map .entry))) := by
      rw [htaken, hevents]
      exact .sent (by simp) (by rwa [entriesOf_map_entry])
    rw [entriesOf_map_entry] at hfirst
    obtain ⟨hfailure, hstate⟩ := hfirst.consume_eq
    rw [← hs] at hfailure hstate
    have hresult := result_of_failure hfailure
    have hshort : a.entries.1.length ≠ a.records.length := by
      intro hlength
      simp [hlength] at hr
    refine ⟨hentries, hstate, iff_of_false (fun ⟨r, hok⟩ => ?_) hshort, fun hok => ?_, fun herror => ?_⟩
    · cases hresult.symm.trans hok
    · cases hresult.symm.trans hok
    · rw [hanswer, path_of_ofPath ha, Except.error.inj (hresult.symm.trans herror)]

/-- A reader answers with the entries before the first record that is not good, then once with what is wrong
with that one, and then with nothing more. The entries have paths that are enclosed unless they begin with a
separator. A scan of the archive hands over just these entries, and it succeeds exactly when they are all. -/
theorem reads_good_prefix (a : Archive) : a.ReadsPrefix a.entries.1 ∧
    ∀ (t : FileTree) (input : InputArchive), Archive.ofPath t input.path = .ok a →
      ∀ (sink : Sink σ) (state : σ), Accepts sink state (scanned input a.entries.1) →
        ∀ (capacity : Nat) (actions : List Action) (s : System σ),
          (start t [input] false state).after? capacity sink actions = some s →
            actions.length ≤ (start t [input] false state).work ∧
              (¬ s.Ended → ∃ action s', s.step? capacity sink action = some s') ∧
              (s.Ended → s.cancelled = false → HandsOver a input sink state s) := by
  refine ⟨a.readsPrefix, fun t input ha sink state haccepts capacity actions s h => ?_⟩
  have hwork := length_le_work h
  exact ⟨by omega, exists_step capacity sink, handsOver ha haccepts h⟩

theorem ended_of_length (hchannel : s.channel.length = 0)
    (hremaining : ∀ n ∈ s.remaining.map List.length, n = 0) : s.Ended :=
  ⟨List.eq_nil_of_length_eq_zero hchannel, fun _ hes =>
    List.eq_nil_of_length_eq_zero (hremaining _ (List.mem_map_of_mem hes))⟩

def leadingOut : FileTree :=
  FileTree.empty.set ["work", "in.jar"] (.file (Zip.encode
    [⟨"d/", .directory⟩, ⟨"d/../a.txt", .file [0]⟩, ⟨"../b.txt", .file [1]⟩, ⟨"c.txt", .file [2]⟩]))

def inJar : InputArchive :=
  ⟨{ name := "in" }, "in.jar", 0⟩

def leadingOutScan : Option (System (List String)) :=
  (start leadingOut [inJar] false []).after? 1 recording
    [.advance 0, .send 0, .advance 0, .receive, .send 0, .receive, .advance 0, .send 0, .receive]

theorem leading_out_fuses : ∃ a s, Archive.ofPath leadingOut "in.jar" = .ok a ∧ a.records.length = 4 ∧
    a.entries.1 = [⟨"d/", [], true⟩, ⟨"d/../a.txt", [0], false⟩] ∧
    (∃ defect, a.reader.answer 2 = some (.error (.corrupt "in.jar" defect))) ∧
    (∀ i, 2 < i → a.reader.answer i = none) ∧
    leadingOutScan = some s ∧ s.progress.state = ["d/", "d/../a.txt"] ∧ ¬ ∃ r, s.result = .ok r := by
  have hread : (Archive.ofPath leadingOut "in.jar").toOption.map (fun a => (a.entries.1, a.records.length)) =
      some ([⟨"d/", [], true⟩, ⟨"d/../a.txt", [0], false⟩], 4) := by
    decide +kernel
  have hrun : leadingOutScan.map (fun s => ((s.channel.length, s.remaining.map List.length), s.cancelled)) =
      some ((0, [0]), false) := by
    decide +kernel
  obtain ⟨s, hs, hend⟩ := Option.map_eq_some_iff.mp hrun
  simp only [Prod.mk.injEq] at hend
  obtain ⟨⟨hchannel, hremaining⟩, hcancelled⟩ := hend
  have hended : s.Ended := ended_of_length hchannel (by simp [hremaining])
  cases ha : Archive.ofPath leadingOut "in.jar" with
  | error e => simp [ha, Except.toOption] at hread
  | ok a =>
    rw [ha] at hread
    obtain ⟨hentries, hlength⟩ := Prod.mk.inj (Option.some.inj hread)
    have hpath : a.path = "in.jar" := path_of_ofPath ha
    obtain ⟨hreads, hscan⟩ := reads_good_prefix (σ := List String) a
    obtain ⟨⟨r, defect, -, -, hanswer⟩, hnone⟩ := hreads.atDefect (by simp [hentries, hlength])
    have haccepts : Accepts recording [] (scanned inJar a.entries.1) := by
      rw [hentries]
      exact ⟨rfl, rfl, trivial⟩
    obtain ⟨-, -, hends⟩ := hscan leadingOut inJar ha recording [] haccepts 1 _ s hs
    have hover := hends hended hcancelled
    have hstate := hover.state
    have hfails : ¬ ∃ r, s.result = .ok r := by
      rw [hover.ok_iff, hentries, hlength]
      decide
    rw [hentries] at hanswer hnone hstate
    rw [hpath] at hanswer
    exact ⟨a, s, rfl, hlength, hentries, ⟨defect, hanswer⟩, hnone, hs, hstate, hfails⟩

end System

def absoluteName : FileTree :=
  FileTree.empty.set ["work", "in.jar"] (.file (Zip.encode [⟨"/a.txt", .file [0]⟩, ⟨"b.txt", .file [1]⟩]))

theorem absolute_name_read : ∃ a e, Archive.ofPath absoluteName "in.jar" = .ok a ∧
    a.reader.answer 0 = some (.ok e) ∧ ¬ Enclosed e.path := by
  have hread : (Archive.ofPath absoluteName "in.jar").toOption.map (·.entries.1) =
      some [⟨"/a.txt", [0], false⟩, ⟨"b.txt", [1], false⟩] := by
    decide +kernel
  cases ha : Archive.ofPath absoluteName "in.jar" with
  | error e => simp [ha, Except.toOption] at hread
  | ok a =>
    rw [ha] at hread
    have hentries : a.entries.1 = [⟨"/a.txt", [0], false⟩, ⟨"b.txt", [1], false⟩] := Option.some.inj hread
    have hfirst := a.readsTo_entries.answer_of_lt (i := 0) (by simp [hentries])
    refine ⟨a, _, rfl, hfirst, fun henclosed => ?_⟩
    have hrelative := henclosed.relative
    simp [hentries] at hrelative

end FatJar.Scan
