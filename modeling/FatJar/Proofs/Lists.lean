import Mathlib.Data.List.Induction
import Mathlib.Data.List.Nodup
import Mathlib.Data.List.Perm.Subperm

namespace FatJar

variable {α β ε : Type}

theorem mapM_eq_ok_iff {f : α → Except ε β} {xs : List α} {ys : List β} :
    xs.mapM f = .ok ys ↔ xs.map f = ys.map .ok := by
  induction xs generalizing ys with
  | nil =>
    constructor
    · intro h
      obtain rfl := Except.ok.inj h
      rfl
    · intro h
      obtain rfl := List.map_eq_nil_iff.mp h.symm
      rfl
  | cons x xs ih =>
    rw [List.mapM_cons, List.map_cons]
    cases hx : f x with
    | error e =>
      constructor
      · intro h
        simp [bind, Except.bind] at h
      · intro h
        cases ys <;> simp at h
    | ok y =>
      constructor
      · intro h
        cases hxs : xs.mapM f with
        | error e => simp [hxs, bind, Except.bind] at h
        | ok zs =>
          simp only [hxs, bind, Except.bind, pure, Except.pure, Except.ok.injEq] at h
          rw [← h, List.map_cons, ih.mp hxs]
      · intro h
        cases ys with
        | nil => simp at h
        | cons z zs =>
          rw [List.map_cons, List.cons.injEq, Except.ok.injEq] at h
          rw [ih.mpr h.2, h.1]
          rfl

theorem exists_map_eq_ok {f : α → Except ε β} {xs : List α} (h : ∀ x ∈ xs, ∃ y, f x = .ok y) :
    ∃ ys : List β, xs.map f = ys.map .ok := by
  induction xs with
  | nil => exact ⟨[], rfl⟩
  | cons x xs ih =>
    obtain ⟨y, hy⟩ := h x List.mem_cons_self
    obtain ⟨ys, hys⟩ := ih fun z hz => h z (List.mem_cons_of_mem _ hz)
    exact ⟨y :: ys, by rw [List.map_cons, hy, hys, List.map_cons]⟩

theorem foldlM_preserves {f : β → α → Except ε β} {p : β → Prop} {xs : List α} {b c : β}
    (hstep : ∀ x ∈ xs, ∀ b c, p b → f b x = .ok c → p c) (hb : p b) (h : xs.foldlM f b = .ok c) :
    p c := by
  induction xs generalizing b with
  | nil =>
    obtain rfl := Except.ok.inj h
    exact hb
  | cons x xs ih =>
    rw [List.foldlM_cons] at h
    cases hx : f b x with
    | error e => simp [hx, bind, Except.bind] at h
    | ok d =>
      rw [hx] at h
      exact ih (fun y hy => hstep y (List.mem_cons_of_mem _ hy)) (hstep x List.mem_cons_self b d hb hx) h

theorem ok_of_mapError {δ : Type} {site : ε → δ} {x : Except ε α} {a : α}
    (h : x.mapError site = .ok a) : x = .ok a := by
  cases x with
  | error e => cases h
  | ok b => rw [Except.ok.inj h]

theorem error_of_mapError {δ : Type} {site : ε → δ} {x : Except ε α} {d : δ}
    (h : x.mapError site = .error d) : ∃ e, x = .error e ∧ site e = d := by
  cases x with
  | error e => exact ⟨e, rfl, Except.error.inj h⟩
  | ok b => cases h

theorem foldlM_mapError {δ : Type} {f g : β → α → Except ε β} {site : ε → δ}
    (h : ∀ b x, (f b x).mapError site = (g b x).mapError site) (xs : List α) (b : β) :
    (xs.foldlM f b).mapError site = (xs.foldlM g b).mapError site := by
  induction xs generalizing b with
  | nil => rfl
  | cons x xs ih =>
    have hx := h b x
    rw [List.foldlM_cons, List.foldlM_cons]
    cases hg : g b x with
    | error e =>
      rw [hg] at hx
      obtain ⟨e', he', hsame⟩ := error_of_mapError hx
      rw [he']
      exact congrArg Except.error hsame
    | ok c =>
      rw [hg] at hx
      rw [ok_of_mapError hx]
      exact ih c

theorem filterMap_of_sole {g : α → Option β} {xs : List α} {x : α} (hn : xs.Nodup) (hx : x ∈ xs)
    (hg : ∀ z ∈ xs, z ≠ x → g z = none) : xs.filterMap g = (g x).toList := by
  obtain ⟨before, after, rfl⟩ := List.append_of_mem hx
  have hmid : x ∉ before ++ after := (List.nodup_middle.mp hn).notMem
  have hnone : ∀ z ∈ before ++ after, g z = none := by
    intro z hz
    have hzx : z ≠ x := fun he => hmid (he ▸ hz)
    exact hg z (by simp only [List.mem_append, List.mem_cons] at hz ⊢; tauto) hzx
  have hbefore : before.filterMap g = [] :=
    List.filterMap_eq_nil_iff.mpr fun z hz => hnone z (List.mem_append_left _ hz)
  have hafter : after.filterMap g = [] :=
    List.filterMap_eq_nil_iff.mpr fun z hz => hnone z (List.mem_append_right _ hz)
  rw [List.filterMap_append, List.filterMap_cons, hbefore, hafter]
  cases g x <;> rfl

theorem exists_append_of_getElem? {xs : List α} {i : Nat} {x : α} (h : xs[i]? = some x) :
    ∃ before after, xs = before ++ x :: after ∧ ∀ y, xs.set i y = before ++ y :: after := by
  induction xs generalizing i with
  | nil => simp at h
  | cons z xs ih =>
    cases i with
    | zero =>
      obtain rfl : z = x := by simpa using h
      exact ⟨[], xs, rfl, fun _ => rfl⟩
    | succ i =>
      obtain ⟨before, after, rfl, hset⟩ := ih (by simpa using h)
      exact ⟨z :: before, after, rfl, fun y => by rw [List.set_cons_succ, hset, List.cons_append]⟩

theorem map_filter_eq_some_iff {f : α → β} {p : α → Bool} {q : β → Prop}
    (h : ∀ a, p a = true ↔ q (f a)) {o : Option α} {b : β} :
    (o.filter p).map f = some b ↔ o.map f = some b ∧ q b := by
  constructor
  · intro hb
    obtain ⟨a, ha, rfl⟩ := Option.map_eq_some_iff.mp hb
    obtain ⟨rfl, hp⟩ := Option.filter_eq_some_iff.mp ha
    exact ⟨rfl, (h a).mp hp⟩
  · rintro ⟨hb, hq⟩
    obtain ⟨a, rfl, rfl⟩ := Option.map_eq_some_iff.mp hb
    rw [Option.filter_some, if_pos ((h a).mpr hq), Option.map_some]

theorem findSome?_eq_some_iff_of_sole {f : α → Option β} {xs : List α} {y : β}
    (h : ∀ a ∈ xs, ∀ b ∈ xs, (f a).isSome → (f b).isSome → a = b) :
    xs.findSome? f = some y ↔ ∃ a ∈ xs, f a = some y := by
  constructor
  · exact List.exists_of_findSome?_eq_some
  · rintro ⟨a, ha, hy⟩
    have hsome : (xs.findSome? f).isSome :=
      List.findSome?_isSome_iff.mpr ⟨a, ha, by simp [hy]⟩
    obtain ⟨z, hz⟩ := Option.isSome_iff_exists.mp hsome
    obtain ⟨b, hb, hbz⟩ := List.exists_of_findSome?_eq_some hz
    obtain rfl := h a ha b hb (by simp [hy]) (by simp [hbz])
    rw [hz, ← hbz, hy]

theorem length_le_one_of_sole {xs : List α} (hn : xs.Nodup) (h : ∀ a ∈ xs, ∀ b ∈ xs, a = b) :
    xs.length ≤ 1 := by
  match xs with
  | [] => exact Nat.zero_le 1
  | [x] => exact Nat.le_refl 1
  | x :: y :: xs =>
    have hxy : x = y := h x List.mem_cons_self y (List.mem_cons_of_mem _ List.mem_cons_self)
    exact absurd (hxy ▸ List.mem_cons_self) (List.nodup_cons.mp hn).1

theorem exists_perm_append_of_subset {xs ys : List α} (hn : xs.Nodup) (h : xs ⊆ ys) :
    ∃ rest, (xs ++ rest).Perm ys := by
  obtain ⟨zs, hzs, hsub⟩ := List.subperm_of_subset hn h
  obtain ⟨rest, hrest⟩ := hsub.exists_perm_append
  exact ⟨rest, (hzs.symm.append_right rest).trans hrest.symm⟩

section Firsts

variable [BEq α] [LawfulBEq α]

theorem eraseDups_concat (xs : List α) (x : α) :
    (xs ++ [x]).eraseDups = if x ∈ xs then xs.eraseDups else xs.eraseDups ++ [x] := by
  rw [List.eraseDups_append]
  by_cases hx : x ∈ xs
  · simp [List.removeAll, hx]
  · simp [List.removeAll, hx, List.eraseDups_cons]

theorem nodup_eraseDups (xs : List α) : xs.eraseDups.Nodup := by
  induction xs using List.reverseRecOn with
  | nil => exact List.nodup_nil
  | append_singleton xs x ih =>
    rw [eraseDups_concat]
    by_cases hx : x ∈ xs
    · rwa [if_pos hx]
    · rw [if_neg hx]
      refine List.Nodup.append ih (List.nodup_singleton x) ?_
      simpa using hx

theorem eraseDups_of_nodup {xs : List α} (h : xs.Nodup) : xs.eraseDups = xs := by
  induction xs using List.reverseRecOn with
  | nil => rfl
  | append_singleton xs x ih =>
    obtain ⟨hxs, -, hx⟩ := List.nodup_append'.mp h
    have hnew : x ∉ xs := by simpa using hx
    rw [eraseDups_concat, if_neg hnew, ih hxs]

theorem eraseDups_append_self (xs : List α) : (xs ++ xs).eraseDups = xs.eraseDups := by
  have hnone : xs.removeAll xs = [] := List.filter_eq_nil_iff.mpr fun x hx => by simpa using hx
  rw [List.eraseDups_append, hnone, List.eraseDups_nil, List.append_nil]

theorem eraseDups_eraseDups_append (xs ys : List α) :
    (xs.eraseDups ++ ys).eraseDups = (xs ++ ys).eraseDups := by
  induction ys using List.reverseRecOn with
  | nil => rw [List.append_nil, List.append_nil, eraseDups_of_nodup (nodup_eraseDups xs)]
  | append_singleton ys y ih =>
    rw [← List.append_assoc, ← List.append_assoc, eraseDups_concat, eraseDups_concat, ih]
    simp only [List.mem_append, List.mem_eraseDups]

theorem eraseDups_append_eraseDups (xs ys : List α) :
    (xs ++ ys.eraseDups).eraseDups = (xs ++ ys).eraseDups := by
  induction ys using List.reverseRecOn with
  | nil => rfl
  | append_singleton ys y ih =>
    rw [eraseDups_concat, ← List.append_assoc, eraseDups_concat]
    by_cases hy : y ∈ ys
    · rw [if_pos hy, if_pos (List.mem_append_right _ hy), ih]
    · rw [if_neg hy, ← List.append_assoc, eraseDups_concat, ih]
      simp only [List.mem_append, List.mem_eraseDups]

theorem eraseDups_flatten (xss : List (List α)) :
    (xss.map List.eraseDups).flatten.eraseDups = xss.flatten.eraseDups := by
  induction xss with
  | nil => rfl
  | cons xs xss ih =>
    rw [List.map_cons, List.flatten_cons, List.flatten_cons, eraseDups_eraseDups_append,
      ← eraseDups_append_eraseDups, ih, eraseDups_append_eraseDups]

end Firsts

end FatJar
