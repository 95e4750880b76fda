import FatJar.Proofs.Lists
import FatJar.Proofs.Merge.Batch
import FatJar.Proofs.Text.Lines
import Mathlib.Data.List.Induction

namespace FatJar.Merge

open Batch

theorem joining_lines (payloads : List Bytes) :
    Joining.payload .lines payloads = joinLines payloads := by
  have h : concatenateLines payloads = (payloads.filter (· ≠ [])).flatMap endedLine := by
    induction payloads with
    | nil => rfl
    | cons p ps ih =>
      unfold concatenateLines at ih ⊢
      rw [List.flatMap_cons, ih]
      by_cases hp : p = []
      · simp [hp]
      · simp [hp, endedLine]
  obtain _ | ⟨p, _ | ⟨q, ps⟩⟩ := payloads
  · rfl
  · rfl
  · exact h

theorem names_eq_providers (payload : Bytes) : names payload = Registrations.providers payload := by
  unfold names Registrations.providers physicalLines
  rw [List.map_map]
  have hmap : ((fun line => trim (upTo '#' line)) ∘ dropReturn) = Registrations.provider := by
    funext line
    exact trim_upTo_dropReturn (by decide) line
  rw [hmap]
  congr 1
  funext line
  cases line <;> rfl

theorem foldl_addNew (names : List (List Char)) : names.foldl addNew [] = names.eraseDups := by
  induction names using List.reverseRecOn with
  | nil => rfl
  | append_singleton names n ih =>
    rw [List.foldl_append, ih, eraseDups_concat, List.foldl_cons, List.foldl_nil, addNew]
    simp only [List.mem_eraseDups]

theorem merge_eq_joinNames (payloads : List Bytes) :
    Registrations.merge payloads = joinNames payloads := by
  have hn : payloads.flatMap names = payloads.flatMap Registrations.providers := by
    congr 1
    funext p
    exact names_eq_providers p
  unfold Registrations.merge Registrations.render joinNames
  rw [foldl_addNew, hn, Utf8.encode, List.flatMap_assoc]
  congr 1
  funext name
  exact List.flatMap_append

theorem joining_payload (j : Joining) (payloads : List Bytes) :
    j.payload payloads =
      match j with
      | .lines => joinLines payloads
      | .registrations => joinNames payloads := by
  cases j with
  | lines => exact joining_lines payloads
  | registrations => exact merge_eq_joinNames payloads

def contribution (e : ScannedEntry) : Contribution :=
  ⟨e.position, e.archive, e.entry.payload⟩

/-- What stands in a slot when the entries of `g`, in the order of positions, are treated in a
certain way. -/
inductive Slot.Holds (f : Fingerprint) (kind : EntryKind) (g : List ScannedEntry) :
    Treatment → Slot → Prop
  | excluded : Holds f kind g .drop .excluded
  | keep {last : Bool} {e : ScannedEntry} (h : winner? last g = some e) :
      Holds f kind g (.keep last) (.keep kind last (contribution e) (f (contribution e).payload))
  | joined (j : Joining) : Holds f kind g (.join j) (.joined kind j (placed contribution g))

variable {f : Fingerprint}

theorem Slot.holds_start (kind : EntryKind) (action : Option Action) (e : ScannedEntry) :
    Slot.Holds f kind [e] (treatment kind action) (Slot.start f kind action (contribution e)) := by
  have hkeep : ∀ last, Slot.Holds f kind [e] (.keep last)
      (.keep kind last (contribution e) (f (contribution e).payload)) := by
    intro last
    apply Slot.Holds.keep
    cases last <;> rfl
  have hjoin : ∀ j, Slot.Holds f kind [e] (.join j)
      (.joined kind j [((contribution e).position, contribution e)]) :=
    fun j => Slot.Holds.joined j
  by_cases hk : kind = .serviceFile
  · subst hk
    obtain _ | action := action
    · exact hjoin .registrations
    · cases action with
      | exclude => exact Slot.Holds.excluded
      | mergeRegistrations | concatenateLines | keepFirst | keepLast => exact hjoin .registrations
  · obtain _ | action := action
    · simpa [treatment, Slot.start, hk] using hkeep false
    · cases action with
      | exclude => exact Slot.Holds.excluded
      | mergeRegistrations => simpa [treatment, Slot.start] using hjoin .registrations
      | concatenateLines => simpa [treatment, Slot.start, hk] using hjoin .lines
      | keepFirst => simpa [treatment, Slot.start, hk] using hkeep false
      | keepLast => simpa [treatment, Slot.start, hk] using hkeep true

variable {es : List ScannedEntry} {e w : ScannedEntry}

theorem winner?_eq_placed (last : Bool) (g : List ScannedEntry) :
    winner? last g =
      (if last then (placed id g).getLast? else (placed id g).head?).map Prod.snd := by
  cases last <;> simp [winner?, placed, Function.comp_def]

theorem winner?_append (hn : ((es ++ [e]).map (·.position)).Nodup) {last : Bool}
    (hw : winner? last (byPosition es) = some w) :
    winner? last (byPosition (es ++ [e])) =
      some (if Slot.givesWay last (contribution w) (contribution e) then e else w) := by
  have hes : (es.map (·.position)).Nodup := by
    rw [List.map_append] at hn
    exact (List.nodup_append.mp hn).1
  have hfresh : ∀ x ∈ placed id (byPosition es), e.position ≠ x.1 := by
    intro x hx
    obtain ⟨a, ha, rfl⟩ := List.mem_map.mp hx
    exact position_ne_of_nodup hn ((byPosition_perm es).mem_iff.mp ha)
  rw [winner?_eq_placed, placed_byPosition_append id hn]
  cases last with
  | false =>
    obtain ⟨rest, hrest⟩ := List.head?_eq_some_iff.mp (show (byPosition es).head? = some w from hw)
    have hput : placed id (byPosition es) = (w.position, w) :: placed id rest := by
      rw [hrest]
      rfl
    rw [hput] at hfresh ⊢
    rw [if_neg (by decide), head?_putAt (hfresh _ List.mem_cons_self)]
    by_cases hb : e.position.before w.position = true <;>
      simp [Slot.givesWay, contribution, hb]
  | true =>
    have hlast : (placed id (byPosition es)).getLast? = some (w.position, w) := by
      have hg : (byPosition es).getLast? = some w := hw
      simp [placed, hg]
    rw [if_pos rfl, getLast?_putAt (arranged_byPosition id hes) hfresh, hlast]
    by_cases hb : w.position.before e.position = true <;>
      simp [Slot.givesWay, contribution, hb]

theorem Slot.add_keep (kind : EntryKind) (last : Bool) (winner next : Contribution) (hash : UInt64)
    (stats : Stats) :
    ((Slot.keep kind last winner hash).add f next stats).1 =
      if givesWay last winner next then .keep kind last next (f next.payload)
      else .keep kind last winner hash :=
  rfl

theorem Slot.Holds.add {kind : EntryKind} {t : Treatment} {slot : Slot}
    (h : Slot.Holds f kind (byPosition es) t slot) (hn : ((es ++ [e]).map (·.position)).Nodup)
    (stats : Stats) :
    Slot.Holds f kind (byPosition (es ++ [e])) t (slot.add f (contribution e) stats).1 := by
  cases h with
  | excluded => exact Slot.Holds.excluded
  | @keep last w hw =>
    have hnew : Slot.Holds f kind (byPosition (es ++ [e])) (.keep last) _ :=
      Slot.Holds.keep (winner?_append hn hw)
    rw [Slot.add_keep]
    split_ifs at hnew ⊢ <;> exact hnew
  | joined j =>
    have hput := placed_byPosition_append contribution hn
    have hnew : Slot.Holds f kind (byPosition (es ++ [e])) (.join j) _ := Slot.Holds.joined j
    rw [hput] at hnew
    exact hnew

theorem Slot.Holds.settle {kind : EntryKind} {g : List ScannedEntry} {t : Treatment} {slot : Slot}
    (h : Slot.Holds f kind g t slot) (path : String) :
    (Resolver.settle path slot).map Prod.fst =
      (settled g t).map fun s => ⟨path, kind, s.1, s.2⟩ := by
  cases h with
  | excluded => rfl
  | keep hw => simp [Resolver.settle, settled, hw, contribution]
  | joined j =>
    obtain _ | ⟨e, g⟩ := g
    · cases j <;> rfl
    · have hc : placed contribution (e :: g) =
          (e.position, contribution e) :: placed contribution g := rfl
      have hp : (placed contribution (e :: g)).map (fun p => p.2.payload) =
          (e :: g).map (·.entry.payload) := by
        simp [placed, contribution]
      rw [hc]
      simp only [Resolver.settle, Option.map_some]
      rw [← hc, hp, joining_payload]
      cases j <;> rfl

end FatJar.Merge
