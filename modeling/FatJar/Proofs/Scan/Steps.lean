import FatJar.Proofs.Scan.Consumption
import FatJar.Scan.Workers

namespace FatJar.Scan.System

variable {σ : Type} {capacity : Nat} {sink : Sink σ} {s s' : System σ} {action : Action}
  {actions : List Action} {state : σ}

inductive Step (capacity : Nat) (sink : Sink σ) (s : System σ) : Action → System σ → Prop
  | advance {i : Nat} {x : Event} {rest : List Event} (hi : s.workers[i]? = some ⟨none, x :: rest⟩)
      (hgo : (s.stopped || s.cancelled) = true → x.isOfEntry = false) :
      Step capacity sink s (.advance i) { s with workers := s.workers.set i ⟨some x, rest⟩ }
  | quit {i : Nat} {x : Event} {rest : List Event} (hi : s.workers[i]? = some ⟨none, x :: rest⟩)
      (hstop : (s.stopped || s.cancelled) = true) :
      Step capacity sink s (.advance i)
        { s with workers := s.workers.set i ⟨some (.failed .cancelled), []⟩ }
  | send {i : Nat} {x : Event} {rest : List Event} (hi : s.workers[i]? = some ⟨some x, rest⟩) :
      Step capacity sink s (.send i)
        { s with workers := s.workers.set i { rest }, channel := s.channel ++ [x] }
  | receive {x : Event} {channel : List Event} (hchannel : s.channel = x :: channel) :
      Step capacity sink s .receive
        { s with
          channel
          taken := s.taken ++ [x]
          progress := s.progress.take sink x
          stopped := s.stopped || (s.progress.take sink x).failure.isSome }
  | cancel (hcancelled : s.cancelled = false) :
      Step capacity sink s .cancel { s with cancelled := true }

theorem step_of_step? (h : s.step? capacity sink action = some s') : Step capacity sink s action s' := by
  cases action with
  | advance i =>
    simp only [step?, Option.bind_eq_bind, Option.pure_def, Option.bind_eq_some_iff,
      Option.some.injEq] at h
    obtain ⟨⟨waiting, rest⟩, hi, w', hw, rfl⟩ := h
    obtain - | y := waiting
    · cases rest with
      | nil => simp [Worker.advance?] at hw
      | cons x rest =>
        obtain rfl := Option.some.inj hw
        by_cases hstop : ((s.stopped || s.cancelled) && x.isOfEntry) = true
        · rw [if_pos hstop]
          exact .quit hi (Bool.and_eq_true_iff.mp hstop).1
        · rw [if_neg hstop]
          exact .advance hi fun hs => by simpa [hs] using hstop
    · simp [Worker.advance?] at hw
  | send i =>
    simp only [step?] at h
    split at h
    · next x rest hi =>
      split at h
      · obtain rfl := Option.some.inj h
        exact .send hi
      · cases h
    · cases h
  | receive =>
    simp only [step?] at h
    split at h
    · cases h
    · next x channel hchannel =>
      obtain rfl := Option.some.inj h
      exact .receive hchannel
  | cancel =>
    simp only [step?] at h
    split at h
    · cases h
    · next hno =>
      obtain rfl := Option.some.inj h
      exact .cancel (by simp_all)

theorem after?_preserves {p : System σ → Prop} (hs : p s)
    (hstep : ∀ {s action s'}, p s → Step capacity sink s action s' → p s')
    (h : s.after? capacity sink actions = some s') : p s' := by
  induction actions generalizing s with
  | nil =>
    obtain rfl := Option.some.inj h
    exact hs
  | cons action actions ih =>
    obtain ⟨next, hnext, hrest⟩ := Option.bind_eq_some_iff.mp h
    exact ih (hstep hs (step_of_step? hnext)) hrest

section Work

/-- The actions that are left: each event has still to be prepared, sent and taken. -/
def work (s : System σ) : Nat :=
  (s.workers.map fun w => 3 * w.rest.length + 2 * w.waiting.toList.length).sum + s.channel.length +
    (!s.cancelled).toNat

theorem Step.work_lt (h : Step capacity sink s action s') : s'.work < s.work := by
  cases h with
  | advance hi | quit hi | send hi =>
    obtain ⟨before, after, hworkers, hset⟩ := exists_append_of_getElem? hi
    simp only [work, hset]
    simp only [hworkers, List.map_append, List.map_cons, List.sum_append, List.sum_cons,
      List.length_append, List.length_cons, List.length_nil, Option.toList_none, Option.toList_some]
    omega
  | receive hchannel =>
    simp only [work, hchannel, List.length_cons]
    omega
  | cancel hcancelled =>
    simp only [work, hcancelled, Bool.not_false, Bool.not_true, Bool.toNat_true, Bool.toNat_false]
    omega

theorem length_le_work (h : s.after? capacity sink actions = some s') :
    actions.length + s'.work ≤ s.work := by
  induction actions generalizing s with
  | nil =>
    obtain rfl := Option.some.inj h
    simp
  | cons action actions ih =>
    obtain ⟨next, hnext, hrest⟩ := Option.bind_eq_some_iff.mp h
    have hlt := (step_of_step? hnext).work_lt
    have hle := ih hrest
    rw [List.length_cons]
    omega

theorem exists_step (capacity : Nat) (sink : Sink σ) (h : ¬ s.Ended) :
    ∃ action s', s.step? capacity sink action = some s' := by
  cases hchannel : s.channel with
  | cons x channel => exact ⟨.receive, _, by rw [step?, hchannel]⟩
  | nil =>
    have hleft : ∃ es ∈ s.remaining, es ≠ [] := by
      by_contra hno
      push Not at hno
      exact h ⟨hchannel, hno⟩
    obtain ⟨es, hes, hne⟩ := hleft
    obtain ⟨⟨waiting, rest⟩, hw, rfl⟩ := List.mem_map.mp hes
    obtain ⟨i, hi⟩ := List.getElem?_of_mem hw
    cases waiting with
    | some x =>
      have hroom : s.channel.length < max capacity 1 := by
        rw [hchannel]
        exact Nat.lt_of_lt_of_le Nat.zero_lt_one (Nat.le_max_right _ _)
      exact ⟨.send i, _, by rw [step?, hi]; exact if_pos hroom⟩
    | none =>
      obtain ⟨x, rest, rfl⟩ := List.exists_cons_of_ne_nil (by simpa [Worker.remaining] using hne)
      exact ⟨.advance i, _, by rw [step?, hi]; rfl⟩

end Work

section Cancellation

theorem Step.cancelled_iff (h : Step capacity sink s action s') :
    s'.cancelled = true ↔ s.cancelled = true ∨ .cancel = action := by
  cases h <;> simp

theorem cancelled_iff (h : s.after? capacity sink actions = some s') :
    s'.cancelled = true ↔ s.cancelled = true ∨ .cancel ∈ actions := by
  induction actions generalizing s with
  | nil =>
    obtain rfl := Option.some.inj h
    simp
  | cons action actions ih =>
    obtain ⟨next, hnext, hrest⟩ := Option.bind_eq_some_iff.mp h
    rw [ih hrest, (step_of_step? hnext).cancelled_iff, List.mem_cons, or_assoc]

end Cancellation

/-- How far a scan has come on its way to an interleaving of the streams. -/
structure OnCourse (sink : Sink σ) (state : σ) (streams : List (List Event)) (s : System σ) : Prop where
  progress : s.progress = consume sink state s.taken
  stopped : s.stopped = s.progress.failure.isSome
  unhindered : s.stopped = false → s.cancelled = false → ∀ picks, ∃ picks',
    interleave picks' streams = s.taken ++ s.channel ++ interleave picks s.remaining
  /-- The failure has been met on the way, whatever workers have sent since. -/
  failed : s.stopped = true → s.cancelled = false → ∃ picks before after,
    interleave picks streams = before ++ after ∧ before <+: s.taken ∧
      (consume sink state before).failure.isSome = true

variable {streams : List (List Event)}

theorem remaining_getElem? {i : Nat} {w : Worker} (hi : s.workers[i]? = some w) :
    s.remaining[i]? = some w.remaining := by
  rw [remaining, List.getElem?_map, hi, Option.map_some]

theorem OnCourse.step (hs : OnCourse sink state streams s) (h : Step capacity sink s action s') :
    OnCourse sink state streams s' := by
  cases h with
  | @advance i x rest hi hgo =>
    refine ⟨hs.progress, hs.stopped, fun hstopped hcancelled picks => ?_, hs.failed⟩
    have hsame : (s.workers.set i ⟨some x, rest⟩).map Worker.remaining = s.remaining := by
      obtain ⟨before, after, hworkers, hset⟩ := exists_append_of_getElem? hi
      rw [remaining, hset, hworkers, List.map_append, List.map_append]
      rfl
    obtain ⟨picks', hpicks⟩ := hs.unhindered hstopped hcancelled picks
    exact ⟨picks', by rw [hpicks, ← hsame]; rfl⟩
  | quit hi hstop =>
    refine ⟨hs.progress, hs.stopped, fun hstopped hcancelled => ?_, hs.failed⟩
    simp_all
  | @send i x rest hi =>
    refine ⟨hs.progress, hs.stopped, fun hstopped hcancelled picks => ?_, hs.failed⟩
    obtain ⟨picks', hpicks⟩ := hs.unhindered hstopped hcancelled (i :: picks)
    refine ⟨picks', ?_⟩
    rw [hpicks, interleave_cons (remaining_getElem? hi), remaining, remaining, List.map_set]
    simp only [List.append_assoc, List.singleton_append]
    rfl
  | @receive x channel hchannel =>
    have hprogress : s.progress.take sink x = consume sink state (s.taken ++ [x]) := by
      rw [consume_append, ← hs.progress]
      rfl
    have hgoes : s.stopped = false → s.cancelled = false → ∀ picks, ∃ picks',
        interleave picks' streams = s.taken ++ [x] ++ (channel ++ interleave picks s.remaining) := by
      intro hstopped hcancelled picks
      obtain ⟨picks', hpicks⟩ := hs.unhindered hstopped hcancelled picks
      refine ⟨picks', ?_⟩
      rw [hpicks, hchannel]
      simp only [List.append_assoc, List.cons_append, List.nil_append]
    refine ⟨hprogress, ?_, fun hstopped hcancelled picks => ?_, fun hstopped hcancelled => ?_⟩
    · cases hfailure : s.progress.failure with
      | some error =>
        have hstill := (take_of_failure sink hfailure x).1
        simp only [hs.stopped, hfailure, hstill, Option.isSome_some, Bool.or_self]
      | none => simp only [hs.stopped, hfailure, Option.isSome_none, Bool.false_or]
    · obtain ⟨picks', hpicks⟩ := hgoes (Bool.or_eq_false_iff.mp hstopped).1 hcancelled picks
      exact ⟨picks', by rw [hpicks, ← List.append_assoc]; rfl⟩
    · by_cases hbefore : s.stopped = true
      · obtain ⟨picks, before, after, hpicks, hprefix, hfailed⟩ := hs.failed hbefore hcancelled
        exact ⟨picks, before, after, hpicks, hprefix.trans (List.prefix_append _ _), hfailed⟩
      · have hnot : s.stopped = false := Bool.eq_false_iff.mpr hbefore
        obtain ⟨picks, hpicks⟩ := hgoes hnot hcancelled []
        refine ⟨picks, _, _, hpicks, List.prefix_refl _, ?_⟩
        rw [← hprogress]
        simpa only [hnot, Bool.false_or] using hstopped
  | cancel hcancelled =>
    exact ⟨hs.progress, hs.stopped, fun _ h => absurd h (by simp), fun _ h => absurd h (by simp)⟩

theorem onCourse_start (t : FileTree) (archives : List InputArchive) (cancelled : Bool) (sink : Sink σ)
    (state : σ) : OnCourse sink state (archives.map (events t)) (start t archives cancelled state) where
  progress := rfl
  stopped := rfl
  unhindered _ hcancelled picks := by
    obtain rfl : cancelled = false := hcancelled
    have hremaining : (start t archives false state).remaining = archives.map (events t) := by
      rw [remaining, start, if_neg Bool.false_ne_true, List.map_map]
      rfl
    exact ⟨picks, by rw [hremaining]; rfl⟩
  failed hstopped := by cases hstopped

theorem onCourse {t : FileTree} {archives : List InputArchive} {cancelled : Bool}
    (h : (start t archives cancelled state).after? capacity sink actions = some s) :
    OnCourse sink state (archives.map (events t)) s :=
  after?_preserves (onCourse_start t archives cancelled sink state) OnCourse.step h

end FatJar.Scan.System
