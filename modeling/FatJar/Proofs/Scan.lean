import FatJar.Scan
import Mathlib.Data.List.Basic

namespace FatJar.Scan

variable {σ : Type} {t : FileTree} {x : Event} {streams : List (List Event)}

theorem mem_of_pick {i : Nat} {rest : List (List Event)} (h : pick i streams = some (x, rest)) :
    (∃ s ∈ streams, x ∈ s) ∧ ∀ s ∈ rest, ∀ y ∈ s, ∃ s' ∈ streams, y ∈ s' := by
  unfold pick at h
  split at h
  · next e es hs =>
    obtain ⟨rfl, rfl⟩ := Prod.mk.inj (Option.some.inj h)
    have hmem := List.mem_of_getElem? hs
    refine ⟨⟨_, hmem, List.mem_cons_self⟩, fun s hs y hy => ?_⟩
    obtain hs | rfl := List.mem_or_eq_of_mem_set hs
    · exact ⟨s, hs, hy⟩
    · exact ⟨_, hmem, List.mem_cons_of_mem _ hy⟩
  · simp at h

theorem mem_of_interleave {picks : List Nat} (h : x ∈ interleave picks streams) :
    ∃ s ∈ streams, x ∈ s := by
  induction picks generalizing streams with
  | nil => exact List.mem_flatten.mp h
  | cons i picks ih =>
    unfold interleave at h
    split at h
    · exact ih h
    · next e rest hpick =>
      obtain ⟨hfirst, hrest⟩ := mem_of_pick hpick
      obtain rfl | h := List.mem_cons.mp h
      · exact hfirst
      · obtain ⟨s, hs, hx⟩ := ih h
        exact hrest s hs x hx

theorem entry_of_events {a : InputArchive} {e : ScannedEntry} (h : .entry e ∈ events t a) :
    ∃ archive, Archive.ofPath t a.path = .ok archive ∧ e.entry ∈ archive.entries.1 := by
  unfold events at h
  split at h
  · simp at h
  · next archive harchive =>
    refine ⟨archive, harchive, ?_⟩
    obtain h | h := List.mem_append.mp h
    · obtain ⟨e', he', heq⟩ := List.mem_map.mp h
      obtain rfl := Event.entry.inj heq
      obtain ⟨⟨entry, seq⟩, hentry, rfl⟩ := List.mem_map.mp he'
      exact (List.mem_zipIdx' hentry).2 ▸ List.getElem_mem _
    · rw [List.mem_singleton] at h
      split at h <;> simp at h

variable {sink : Sink σ} {inv : σ → Prop}

theorem Progress.take_state {p : Progress σ} (h : inv p.state)
    (hsink : ∀ e, x = .entry e → ∀ s, inv s → inv (sink s e).1) : inv (p.take sink x).state := by
  cases x with
  | entry e =>
    have hnext := hsink e rfl p.state h
    cases hf : p.failure with
    | some error => simpa only [Progress.take, hf] using h
    | none =>
      simp only [Progress.take, hf]
      rcases hs : sink p.state e with ⟨s, error | done⟩
      · simpa only [hs] using hnext
      · simpa only [hs] using hnext
  | finished | failed => exact h

theorem consume_state {es : List Event} {state : σ} (h : inv state)
    (hsink : ∀ e, .entry e ∈ es → ∀ s, inv s → inv (sink s e).1) :
    inv (consume sink state es).state := by
  unfold consume
  refine List.foldlRecOn (motive := fun p : Progress σ => inv p.state) es _ h fun p hp x hx => ?_
  refine Progress.take_state hp ?_
  rintro e rfl
  exact hsink e hx

theorem run_state {picks : List Nat} {archives : List InputArchive} {before : Bool}
    {after : σ → Bool} {state s : σ} {summary : Summary}
    (hrun : run t picks archives sink before after state = .ok (summary, s)) (h : inv state)
    (hsink : ∀ a ∈ archives, ∀ archive, Archive.ofPath t a.path = .ok archive →
      ∀ e : ScannedEntry, e.entry ∈ archive.entries.1 → ∀ s, inv s → inv (sink s e).1) : inv s := by
  unfold run at hrun
  split at hrun
  · simp at hrun
  · have hstate : inv (consume sink state (interleave picks (archives.map (events t)))).state := by
      refine consume_state h fun e he => ?_
      obtain ⟨es, hes, hmem⟩ := mem_of_interleave he
      obtain ⟨a, ha, rfl⟩ := List.mem_map.mp hes
      obtain ⟨archive, harchive, hentry⟩ := entry_of_events hmem
      exact hsink a ha archive harchive e hentry
    unfold Progress.result at hrun
    split at hrun
    · simp at hrun
    · split at hrun
      · simp at hrun
      · obtain ⟨-, rfl⟩ := Prod.mk.inj (Except.ok.inj hrun)
        exact hstate

end FatJar.Scan
