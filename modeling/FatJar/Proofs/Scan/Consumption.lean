import FatJar.Proofs.Scan.Interleaving
import Mathlib.Data.List.Induction

namespace FatJar.Scan

variable {σ : Type} {sink : Sink σ} {p : Progress σ} {x : Event} {es before after : List Event}
  {state : σ} {e : ScannedEntry}

/-- The state of a sink that has been called with these entries in turn. -/
def callAll (sink : Sink σ) (state : σ) (es : List ScannedEntry) : σ :=
  es.foldl (fun s e => (sink s e).1) state

/-- A sink that fails at none of these entries. -/
def Accepts (sink : Sink σ) : σ → List ScannedEntry → Prop
  | _, [] => True
  | s, e :: es => (sink s e).2 = .ok () ∧ Accepts sink (sink s e).1 es

theorem take_of_failure {error : AssemblyError} (sink : Sink σ) (h : p.failure = some error) (x : Event) :
    (p.take sink x).failure = some error ∧ (p.take sink x).state = p.state := by
  cases x with
  | entry e => simp only [Progress.take, h, and_self]
  | finished entries bytes => exact ⟨h, rfl⟩
  | failed e => simp only [Progress.take, h, Option.getD_some, and_self]

theorem take_of_accepted (h : p.failure = none) (he : (sink p.state e).2 = .ok ()) :
    p.take sink (.entry e) = { p with state := (sink p.state e).1 } := by
  rcases hs : sink p.state e with ⟨s, error | done⟩
  · rw [hs] at he
    cases he
  · simp only [Progress.take, h, hs]

theorem take_of_refused {error : AssemblyError} (h : p.failure = none)
    (he : (sink p.state e).2 = .error error) :
    p.take sink (.entry e) = { p with state := (sink p.state e).1, failure := some error } := by
  rcases hs : sink p.state e with ⟨s, error' | done⟩
  · rw [hs] at he
    obtain rfl : error' = error := Except.error.inj he
    simp only [Progress.take, h, hs]
  · rw [hs] at he
    cases he

theorem foldl_take_of_failure {error : AssemblyError} (h : p.failure = some error) (es : List Event) :
    (es.foldl (Progress.take sink) p).failure = some error ∧
      (es.foldl (Progress.take sink) p).state = p.state := by
  induction es generalizing p with
  | nil => exact ⟨h, rfl⟩
  | cons x es ih =>
    obtain ⟨hfailure, hstate⟩ := take_of_failure sink h x
    rw [List.foldl_cons, ← hstate]
    exact ih hfailure

theorem foldl_take_of_accepts (h : p.failure = none) (hfailed : ∀ e, .failed e ∉ es)
    (haccepts : Accepts sink p.state (entriesOf es)) :
    (es.foldl (Progress.take sink) p).failure = none ∧
      (es.foldl (Progress.take sink) p).state = callAll sink p.state (entriesOf es) := by
  induction es generalizing p with
  | nil => exact ⟨h, rfl⟩
  | cons x es ih =>
    have hlater : ∀ e, .failed e ∉ es := fun e he => hfailed e (List.mem_cons_of_mem _ he)
    rw [List.foldl_cons]
    cases x with
    | entry e =>
      obtain ⟨he, hrest⟩ := haccepts
      rw [take_of_accepted h he]
      exact ih h hlater hrest
    | finished entries bytes => exact ih h hlater haccepts
    | failed e => exact absurd List.mem_cons_self (hfailed e)

theorem foldl_take_eq_none_iff (h : p.failure = none) :
    (es.foldl (Progress.take sink) p).failure = none ↔
      (∀ e, .failed e ∉ es) ∧ Accepts sink p.state (entriesOf es) := by
  constructor
  · intro hnone
    induction es generalizing p with
    | nil => exact ⟨by simp, trivial⟩
    | cons x es ih =>
      rw [List.foldl_cons] at hnone
      have hgone : ∀ error, (p.take sink x).failure ≠ some error := by
        intro error herror
        rw [(foldl_take_of_failure herror es).1] at hnone
        cases hnone
      cases x with
      | entry e =>
        cases he : (sink p.state e).2 with
        | error error => exact absurd (by rw [take_of_refused h he]) (hgone error)
        | ok done =>
          rw [take_of_accepted h he] at hnone
          obtain ⟨hfailed, haccepts⟩ := ih (p := { p with state := (sink p.state e).1 }) h hnone
          exact ⟨by simpa using hfailed, he, haccepts⟩
      | finished entries bytes =>
        have hfailure : (p.take sink (.finished entries bytes)).failure = none := h
        obtain ⟨hfailed, haccepts⟩ := ih hfailure hnone
        exact ⟨by simpa using hfailed, haccepts⟩
      | failed e =>
        refine absurd ?_ (hgone e)
        rw [Progress.take, h, Option.getD_none]
  · rintro ⟨hfailed, haccepts⟩
    exact (foldl_take_of_accepts h hfailed haccepts).1

theorem consume_append (sink : Sink σ) (state : σ) (es fs : List Event) :
    consume sink state (es ++ fs) = fs.foldl (Progress.take sink) (consume sink state es) :=
  List.foldl_append

theorem consume_eq_none_iff :
    (consume sink state es).failure = none ↔
      (∀ e, .failed e ∉ es) ∧ Accepts sink state (entriesOf es) :=
  foldl_take_eq_none_iff rfl

theorem state_of_consume (h : (consume sink state es).failure = none) :
    (consume sink state es).state = callAll sink state (entriesOf es) := by
  obtain ⟨hfailed, haccepts⟩ := consume_eq_none_iff.mp h
  exact (foldl_take_of_accepts rfl hfailed haccepts).2

theorem run_eq_ok_iff {t : FileTree} {picks : List Nat} {archives : List InputArchive}
    {cancelledBefore : Bool} {cancelledAfter : σ → Bool} {summary : Summary} {final : σ} :
    run t picks archives sink cancelledBefore cancelledAfter state = .ok (summary, final) ↔
      cancelledBefore = false ∧ cancelledAfter final = false ∧
        ∃ es, interleave picks (archives.map (events t)) = es ∧
          (∀ e, .failed e ∉ es) ∧ Accepts sink state (entriesOf es) ∧
          summary = (consume sink state es).summary ∧ final = callAll sink state (entriesOf es) := by
  simp only [exists_eq_left']
  rw [← and_assoc (a := ∀ e, _), ← consume_eq_none_iff]
  unfold run Progress.result
  cases cancelledBefore with
  | true => simp
  | false =>
    rw [if_neg Bool.false_ne_true]
    cases hfailure : (consume sink state (interleave picks (archives.map (events t)))).failure with
    | some error => simp
    | none =>
      rw [state_of_consume hfailure]
      dsimp only
      constructor
      · intro h
        split at h
        · cases h
        · next hcancelled =>
          obtain ⟨rfl, rfl⟩ := Prod.mk.inj (Except.ok.inj h)
          exact ⟨rfl, Bool.eq_false_iff.mpr hcancelled, rfl, rfl, rfl⟩
      · rintro ⟨-, hcancelled, -, rfl, rfl⟩
        rw [hcancelled, if_neg Bool.false_ne_true]

theorem consume_of_failure {error : AssemblyError} (h : (consume sink state before).failure = some error)
    (after : List Event) :
    (consume sink state (before ++ after)).failure = some error ∧
      (consume sink state (before ++ after)).state = (consume sink state before).state := by
  rw [consume_append]
  exact foldl_take_of_failure h after

/-- The first failure among events, with the state that it leaves the sink in. -/
inductive FirstFailure (sink : Sink σ) (state : σ) : List Event → AssemblyError → σ → Prop
  | sent {before after : List Event} {error : AssemblyError} (hfailed : ∀ e, .failed e ∉ before)
      (haccepts : Accepts sink state (entriesOf before)) :
      FirstFailure sink state (before ++ .failed error :: after) error
        (callAll sink state (entriesOf before))
  | refused {before after : List Event} {e : ScannedEntry} {error : AssemblyError}
      (hfailed : ∀ e, .failed e ∉ before) (haccepts : Accepts sink state (entriesOf before))
      (he : (sink (callAll sink state (entriesOf before)) e).2 = .error error) :
      FirstFailure sink state (before ++ .entry e :: after) error
        (callAll sink state (entriesOf before ++ [e]))

theorem callAll_append (sink : Sink σ) (state : σ) (es : List ScannedEntry) (e : ScannedEntry) :
    callAll sink state (es ++ [e]) = (sink (callAll sink state es) e).1 := by
  rw [callAll, List.foldl_append]
  rfl

theorem FirstFailure.consume_eq {error : AssemblyError} {final : σ}
    (h : FirstFailure sink state es error final) :
    (consume sink state es).failure = some error ∧ (consume sink state es).state = final := by
  cases h with
  | @sent before after _ hfailed haccepts =>
    have hnone := consume_eq_none_iff.mpr ⟨hfailed, haccepts⟩
    have hhere : consume sink state (before ++ [.failed error]) =
        { consume sink state before with failure := some error } := by
      rw [consume_append, List.foldl_cons, List.foldl_nil, Progress.take, hnone, Option.getD_none]
    rw [List.append_cons, ← state_of_consume hnone]
    obtain ⟨hend, hstate⟩ := consume_of_failure (by rw [hhere]) after
    exact ⟨hend, by rw [hstate, hhere]⟩
  | @refused before after e _ hfailed haccepts he =>
    have hnone := consume_eq_none_iff.mpr ⟨hfailed, haccepts⟩
    rw [← state_of_consume hnone] at he
    have hhere : consume sink state (before ++ [.entry e]) =
        { consume sink state before with
          state := (sink (consume sink state before).state e).1, failure := some error } := by
      rw [consume_append, List.foldl_cons, List.foldl_nil, take_of_refused hnone he]
    rw [List.append_cons, callAll_append, ← state_of_consume hnone]
    obtain ⟨hend, hstate⟩ := consume_of_failure (by rw [hhere]) after
    exact ⟨hend, by rw [hstate, hhere]⟩

theorem FirstFailure.append {error : AssemblyError} {final : σ}
    (h : FirstFailure sink state es error final) (fs : List Event) :
    FirstFailure sink state (es ++ fs) error final := by
  cases h with
  | sent hfailed haccepts =>
    rw [List.append_assoc]
    exact .sent hfailed haccepts
  | refused hfailed haccepts he =>
    rw [List.append_assoc]
    exact .refused hfailed haccepts he

theorem exists_firstFailure {error : AssemblyError} (h : (consume sink state es).failure = some error) :
    ∃ final, FirstFailure sink state es error final := by
  induction es using List.reverseRecOn with
  | nil => cases h
  | append_singleton before x ih =>
    rw [consume_append] at h
    cases hbefore : (consume sink state before).failure with
    | some error' =>
      obtain rfl : error' = error := by
        rw [(foldl_take_of_failure hbefore [x]).1] at h
        exact Option.some.inj h
      obtain ⟨final, hfirst⟩ := ih hbefore
      exact ⟨final, hfirst.append [x]⟩
    | none =>
      obtain ⟨hfailed, haccepts⟩ := consume_eq_none_iff.mp hbefore
      rw [List.foldl_cons, List.foldl_nil] at h
      cases x with
      | entry e =>
        cases he : (sink (consume sink state before).state e).2 with
        | ok done =>
          rw [take_of_accepted hbefore he] at h
          exact absurd (hbefore.symm.trans h) (by simp)
        | error error' =>
          rw [take_of_refused hbefore he] at h
          obtain rfl := Option.some.inj h
          rw [state_of_consume hbefore] at he
          exact ⟨_, .refused hfailed haccepts he⟩
      | finished entries bytes => exact absurd (hbefore.symm.trans h) (by simp)
      | failed e =>
        rw [Progress.take, hbefore] at h
        obtain rfl := Option.some.inj h
        exact ⟨_, .sent hfailed haccepts⟩

section Summaries

theorem summary_take (p : Progress σ) (x : Event) :
    (p.take sink x).summary =
      match x.totals? with
      | none => p.summary
      | some (entries, bytes) =>
        ⟨p.summary.archives + 1, p.summary.entries + entries, p.summary.bytes + bytes⟩ := by
  cases x with
  | entry e =>
    cases hf : p.failure with
    | some error => simp only [Progress.take, hf, Event.totals?]
    | none =>
      rcases hs : sink p.state e with ⟨s, error | done⟩ <;>
        simp only [Progress.take, hf, hs, Event.totals?]
  | finished | failed => rfl

theorem summary_foldl_take (es : List Event) (p : Progress σ) :
    (es.foldl (Progress.take sink) p).summary =
      ⟨p.summary.archives + (totalsOf es).length,
        p.summary.entries + ((totalsOf es).map Prod.fst).sum,
        p.summary.bytes + ((totalsOf es).map Prod.snd).sum⟩ := by
  induction es generalizing p with
  | nil => rfl
  | cons x es ih =>
    rw [List.foldl_cons, ih, summary_take, totalsOf, totalsOf, List.filterMap_cons]
    cases x.totals? with
    | none => rfl
    | some totals =>
      simp only [List.length_cons, List.map_cons, List.sum_cons, Summary.mk.injEq]
      omega

theorem summary_consume (sink : Sink σ) (state : σ) (es : List Event) :
    (consume sink state es).summary =
      ⟨(totalsOf es).length, ((totalsOf es).map Prod.fst).sum, ((totalsOf es).map Prod.snd).sum⟩ := by
  unfold consume
  rw [summary_foldl_take, Nat.zero_add, Nat.zero_add, Nat.zero_add]

end Summaries

end FatJar.Scan
