import FatJar.Proofs.Entry.Enclosed
import FatJar.Zip.Entry

namespace FatJar.Zip

variable {a b c : Char} {cs path rest : List Char} {names : List (List Char)}

def withSlashes (path : List Char) : List Char :=
  path.map fun c => if isSeparator c then '/' else c

theorem isSeparator_eq_false (hslash : c ≠ '/') (hback : c ≠ '\\') : isSeparator c = false := by
  simp [isSeparator, hslash, hback]

theorem withSlashes_eq_self (h : '\\' ∉ path) : withSlashes path = path := by
  refine (List.map_congr_left fun c hc => ?_).trans (List.map_id path)
  have hback : c ≠ '\\' := fun heq => h (heq ▸ hc)
  by_cases hslash : c = '/'
  · simp [hslash]
  · rw [isSeparator_eq_false hslash hback]
    rfl

theorem mem_withSlashes_iff (hslash : c ≠ '/') (hsep : isSeparator c = false) :
    c ∈ withSlashes path ↔ c ∈ path := by
  rw [withSlashes, List.mem_map]
  constructor
  · rintro ⟨d, hd, rfl⟩
    split at hslash
    · exact absurd rfl hslash
    · next h => simpa [h] using hd
  · intro h
    exact ⟨c, h, by rw [hsep]; rfl⟩

theorem splitOn_withSlashes (path : List Char) :
    (withSlashes path).splitOn '/' = path.splitOnP isSeparator := by
  induction path with
  | nil => rfl
  | cons c path ih =>
    rw [withSlashes, List.map_cons, List.splitOn_cons_eq_if_modifyHead,
      List.splitOnP_cons_eq_if_modifyHead, ← ih]
    by_cases hc : isSeparator c = true
    · simp [hc, withSlashes]
    · have hne : c ≠ '/' := fun h => hc (h ▸ rfl)
      simp [hc, hne, withSlashes]

theorem relativeNames_eq (path : List Char) :
    relativeNames path = pathNames (withSlashes ((afterVolume? path).getD path)) := by
  rw [relativeNames, pathNames, splitOn_withSlashes]

theorem afterVolume?_cases (h : isSeparator a = false) (path : List Char) :
    afterVolume? (a :: path) = none ∨
      ∃ rest, path = ':' :: rest ∧ afterVolume? (a :: path) = some rest := by
  cases path with
  | nil => exact .inl rfl
  | cons b path =>
    have hdrive : afterVolume? (a :: b :: path) = afterDrive? (a :: b :: path) := by
      simp [afterVolume?.eq_def, h]
    rw [hdrive, afterDrive?.eq_def]
    split
    · next heq =>
      simp only [List.cons.injEq] at heq
      obtain ⟨rfl, rfl, rfl⟩ := heq
      split
      · exact .inr ⟨path, rfl, rfl⟩
      · exact .inl rfl
    · exact .inl rfl

theorem depthAfter?_drive (h : isSeparator a = false) (hdepth : (depthAfter? 0 (pathNames cs)).isSome) :
    (depthAfter? 0 (pathNames (a :: ':' :: cs))).isSome := by
  have ha : a ≠ '/' := by
    rintro rfl
    cases h
  obtain ⟨name, names, hsplit⟩ := List.exists_cons_of_ne_nil (List.splitOn_ne_nil '/' cs)
  have hdrive : depthAfter? 0 (pathNames (a :: ':' :: cs)) =
      depthAfter? 1 (names.filter fun name => !name.isEmpty && name != ['.']) := by
    have hname : a :: ':' :: name ≠ parentName := by simp [parentName]
    simp [pathNames, List.splitOn_cons_eq_if_modifyHead, hsplit, ha, depthAfter?_name hname]
  rw [hdrive]
  rw [pathNames, hsplit, List.filter_cons] at hdepth
  split at hdepth
  · by_cases hparent : name = parentName
    · rw [hparent, depthAfter?_parent_zero] at hdepth
      cases hdepth
    · rwa [depthAfter?_name hparent] at hdepth
  · exact depthAfter?_mono hdepth (Nat.zero_le 1)

/-- A name that is let through stays below the root, but for one that begins with a separator. -/
theorem enclosed_withSlashes_iff {path : String} (h : isEnclosed path = true) :
    Enclosed (String.ofList (withSlashes path.toList)) ↔ path.toList.head?.any isSeparator = false := by
  rw [isEnclosed, Bool.and_eq_true, Bool.not_eq_true', relativeNames_eq] at h
  obtain ⟨hnul, hdepth⟩ := h
  replace hnul : '\x00' ∉ path.toList := by simpa using hnul
  rw [enclosed_iff, String.toList_ofList, mem_withSlashes_iff (by decide) (by decide)]
  generalize path.toList = cs at hnul hdepth ⊢
  cases cs with
  | nil => simp [withSlashes, depthAfter?]
  | cons a cs =>
    cases ha : isSeparator a with
    | true => simp [withSlashes, ha]
    | false =>
      have hhead : (withSlashes (a :: cs)).head? ≠ some '/' := by
        have hne : a ≠ '/' := by
          rintro rfl
          cases ha
        simpa [withSlashes, ha] using hne
      refine iff_of_true ⟨hnul, hhead, ?_⟩ ha
      obtain hnone | ⟨rest, rfl, hsome⟩ := afterVolume?_cases ha cs
      · rwa [hnone] at hdepth
      · rw [hsome] at hdepth
        have hdrive : withSlashes (a :: ':' :: rest) = a :: ':' :: withSlashes rest := by
          simp [withSlashes, ha, isSeparator_eq_false]
        rw [hdrive]
        exact depthAfter?_drive ha hdepth

/-- Of the names without a backslash that are let through just the relative ones are enclosed. -/
theorem enclosed_iff_relative {path : String} (h : isEnclosed path = true) (hback : '\\' ∉ path.toList) :
    Enclosed path ↔ path.toList.head? ≠ some '/' := by
  have hslashes := enclosed_withSlashes_iff h
  rw [withSlashes_eq_self hback, String.ofList_toList] at hslashes
  rw [hslashes]
  generalize path.toList = cs at hback ⊢
  cases cs with
  | nil => simp
  | cons a cs =>
    rw [List.mem_cons, not_or] at hback
    simp [isSeparator, Ne.symm hback.1]

end FatJar.Zip
