import FatJar.Proofs.Entry.Proper
import FatJar.Proofs.Merge.Resolution

namespace FatJar.Merge

inductive Slot.Fits (path : String) : Slot → Prop
  | excluded : Fits path .excluded
  | keep {kind : EntryKind} {last : Bool} {winner : Contribution} {hash : UInt64} (hk : kind = .ofPath path)
      (hc : kind.isContent = true) (hs : kind ≠ .serviceFile) :
      Fits path (.keep kind last winner hash)
  | joined {kind : EntryKind} {j : Joining} {parts : List (Position × Contribution)}
      (hk : kind = .ofPath path) (hc : kind.isContent = true)
      (hs : kind = .serviceFile → j = .registrations) : Fits path (.joined kind j parts)

variable {f : Fingerprint} {path : String} {kind : EntryKind} {slot : Slot} {m : Member} {merged : Bool}

theorem Slot.fits_start (hk : kind = .ofPath path) (hc : kind.isContent = true)
    (action : Option Action) (first : Contribution) :
    Slot.Fits path (Slot.start f kind action first) := by
  have hregistrations : Slot.Fits path
      (.joined kind .registrations [(first.position, first)]) := .joined hk hc fun _ => rfl
  by_cases hs : kind = .serviceFile
  · subst hs
    obtain _ | action := action
    · exact hregistrations
    · cases action with
      | exclude => exact .excluded
      | mergeRegistrations | concatenateLines | keepFirst | keepLast => exact hregistrations
  · have hkeep : ∀ last, Slot.Fits path (.keep kind last first (f first.payload)) :=
      fun last => .keep hk hc hs
    obtain _ | action := action
    · simpa [Slot.start, hs] using hkeep false
    · cases action with
      | exclude => exact .excluded
      | mergeRegistrations => exact hregistrations
      | concatenateLines =>
        have hlines : Slot.Fits path (.joined kind .lines [(first.position, first)]) :=
          .joined hk hc fun h => absurd h hs
        simpa [Slot.start, hs] using hlines
      | keepFirst => simpa [Slot.start, hs] using hkeep false
      | keepLast => simpa [Slot.start, hs] using hkeep true

theorem Slot.Fits.add (h : Slot.Fits path slot) (next : Contribution) (stats : Stats) :
    Slot.Fits path (slot.add f next stats).1 := by
  cases h with
  | excluded => exact .excluded
  | keep hk hc hs =>
    rw [Slot.add_keep]
    split <;> exact .keep hk hc hs
  | joined hk hc hs => exact .joined hk hc hs

theorem Slot.Fits.proper (h : Slot.Fits path slot)
    (hsettle : Resolver.settle path slot = some (m, merged)) (hne : m.payload ≠ []) : m.Proper := by
  cases h with
  | excluded => simp [Resolver.settle] at hsettle
  | keep hk hc hs =>
    simp only [Resolver.settle, Option.some.injEq, Prod.mk.injEq] at hsettle
    obtain ⟨rfl, -⟩ := hsettle
    exact ⟨hk, hc, hne, fun h => absurd h hs⟩
  | @joined kind j parts hk hc hs =>
    obtain _ | ⟨p, ps⟩ := parts
    · simp [Resolver.settle] at hsettle
    · simp only [Resolver.settle, Option.some.injEq, Prod.mk.injEq] at hsettle
      obtain ⟨rfl, -⟩ := hsettle
      refine ⟨hk, hc, hne, fun h => ?_⟩
      obtain rfl := hs h
      exact Registrations.registers_merge hne

/-- Every slot fits its path, and every path with a slot has the property `p`. -/
structure Resolver.Fits (p : String → Prop) (r : Resolver) : Prop where
  keys : (r.slots.map Prod.fst).Nodup
  held : ∀ path slot, r.slots.lookup path = some slot → p path ∧ slot.Fits path

namespace Resolver

variable {p : String → Prop} {r s : Resolver} {table : PolicyTable} {e : ScannedEntry}

theorem fits_nil (f : Fingerprint) (p : String → Prop) : Fits p { fingerprint := f } where
  keys := List.nodup_nil
  held := by simp

theorem Fits.of_slots (h : Fits p r) (hs : s.slots = r.slots) : Fits p s :=
  ⟨hs ▸ h.keys, hs ▸ h.held⟩

theorem Fits.put (h : Fits p r) (hp : p path) (hslot : slot.Fits path)
    (hs : s.slots = putPair path slot r.slots) : Fits p s where
  keys := hs ▸ nodup_putPair _ _ h.keys
  held := by
    intro q found hfound
    rw [hs, lookup_putPair] at hfound
    split at hfound
    · next hq =>
      obtain rfl := Option.some.inj hfound
      exact hq ▸ ⟨hp, hslot⟩
    · exact h.held q found hfound

theorem Fits.place (h : Fits p r) (hp : p path) (hk : kind = .ofPath path)
    (hc : kind.isContent = true) (c : Contribution) : Fits p (r.place table kind path c).1 := by
  unfold Resolver.place
  cases hslot : r.slots.lookup path with
  | some slot => exact h.put hp ((h.held path slot hslot).2.add c _) rfl
  | none =>
    cases table.lookup path with
    | error a => exact h
    | ok action => exact h.put hp (Slot.fits_start hk hc action c) rfl

theorem Fits.ingest (h : Fits p r) (hp : p e.entry.path) : Fits p (ingest table r e).1 := by
  -- Only a directory can be of another kind than its path.
  have hplace : ∀ kind, e.entry.kind = kind → kind.isContent = true → kind = .ofPath e.entry.path := by
    intro kind hk hc
    refine hk.symm.trans (ScannedEntry.kind_of_isMergeable ?_)
    rw [e.isMergeable_iff, hk]
    simpa [EntryKind.isContent, or_assoc] using hc
  have hseen : Fits p { r with stats := { r.stats with entriesSeen := r.stats.entriesSeen + 1 } } :=
    h.of_slots rfl
  unfold Resolver.ingest
  cases hk : e.entry.kind with
  | directory | signature | manifest => exact h.of_slots rfl
  | classFile | serviceFile | resource => exact hseen.place hp (hplace _ hk rfl) rfl _

theorem Fits.finalize (h : Fits p r) (hm : m ∈ r.finalize.contents.members) :
    p m.path ∧ m.Proper := by
  obtain ⟨⟨slot, hslot, hsettle⟩, hne⟩ := (mem_finalize h.keys).mp hm
  obtain ⟨hp, hfits⟩ := h.held _ _ hslot
  obtain ⟨⟨m', merged⟩, hsome, rfl⟩ := Option.map_eq_some_iff.mp hsettle
  exact ⟨hp, hfits.proper hsome hne⟩

end Resolver

end FatJar.Merge
