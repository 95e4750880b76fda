import FatJar.Archive.Reader
import FatJar.Proofs.Zip.Entry
import Mathlib.Data.List.Basic

namespace FatJar

/-- Whether an entry can be opened, is let through, and is a directory or can be read in full. -/
def Zip.Record.isGood (file : Bytes) (r : Record) : Bool :=
  match r.data? file with
  | none => false
  | some (method, data) => isEnclosed r.name && (r.isDirectory || (r.payload? method data).isSome)

structure Zip.Record.IsEntry (file : Bytes) (r : Record) (e : Entry) : Prop where
  path : e.path = r.name
  isDir : e.isDir = r.isDirectory
  directory : e.isDir = true → e.payload = [] ∧ e.size = 0
  file : e.isDir = false → ∃ method data, r.data? file = some (method, data) ∧
    r.payload? method data = some e.payload ∧ e.size = e.payload.length
  enclosed : isEnclosed e.path = true

/-- What keeps an entry from being read; of several reasons the one that is met first. -/
inductive Zip.Record.IsDefect (file : Bytes) (index : Nat) (r : Record) : Defect → Prop
  | unopenable (hdata : r.data? file = none) : IsDefect file index r (.unopenable index)
  | escaping (hdata : (r.data? file).isSome = true) (hpath : isEnclosed r.name = false) :
    IsDefect file index r (.escaping r.name)
  | unreadable {method : Method} {data : Bytes} (hdata : r.data? file = some (method, data))
      (hpath : isEnclosed r.name = true) (hfile : r.isDirectory = false)
      (hpayload : r.payload? method data = none) :
    IsDefect file index r (.unreadable r.name)

namespace Archive

open Zip (Record isEnclosed)

variable {a : Archive} {file : Bytes} {index i : Nat} {r : Record} {rs : List Record} {e : Entry}
  {es : List Entry} {defect : Defect} {defect? : Option Defect}

theorem readEntry_cases (file : Bytes) (index : Nat) (r : Record) :
    (∃ e, readEntry file index r = .ok e ∧ r.isGood file = true ∧ r.IsEntry file e) ∨
      ∃ defect, readEntry file index r = .error defect ∧ r.isGood file = false ∧
        r.IsDefect file index defect := by
  rw [readEntry, Record.isGood]
  cases hdata : r.data? file with
  | none => exact .inr ⟨_, rfl, rfl, .unopenable hdata⟩
  | some d =>
    obtain ⟨method, data⟩ := d
    dsimp only
    cases hpath : isEnclosed r.name with
    | false => exact .inr ⟨_, rfl, rfl, .escaping (by rw [hdata]; rfl) hpath⟩
    | true =>
      cases hdir : r.isDirectory with
      | true =>
        have hentry : r.IsEntry file ⟨r.name, [], true⟩ :=
          ⟨rfl, hdir.symm, fun _ => ⟨rfl, rfl⟩, fun h => absurd h (by simp), hpath⟩
        exact .inl ⟨_, rfl, rfl, hentry⟩
      | false =>
        cases hpayload : r.payload? method data with
        | none => exact .inr ⟨_, rfl, rfl, .unreadable hdata hpath hdir hpayload⟩
        | some payload =>
          have hentry : r.IsEntry file ⟨r.name, payload, false⟩ :=
            ⟨rfl, hdir.symm, fun h => absurd h (by simp),
              fun _ => ⟨method, data, hdata, hpayload, rfl⟩, hpath⟩
          exact .inl ⟨_, rfl, rfl, hentry⟩

theorem isGood_of_ok (h : readEntry file index r = .ok e) : r.isGood file = true ∧ r.IsEntry file e := by
  obtain ⟨e', he, hgood, hentry⟩ | ⟨defect, herror, -⟩ := readEntry_cases file index r
  · obtain rfl := Except.ok.inj (he.symm.trans h)
    exact ⟨hgood, hentry⟩
  · cases herror.symm.trans h

theorem isDefect_of_error (h : readEntry file index r = .error defect) :
    r.isGood file = false ∧ r.IsDefect file index defect := by
  obtain ⟨e, he, -⟩ | ⟨defect', herror, hgood, hdefect⟩ := readEntry_cases file index r
  · cases he.symm.trans h
  · obtain rfl := Except.error.inj (herror.symm.trans h)
    exact ⟨hgood, hdefect⟩

/-- Records from `index` on are read to their end, or up to a defect. -/
inductive ReadsTo (file : Bytes) : (index : Nat) → List Record → List Entry → Option Defect → Prop
  | done {index : Nat} : ReadsTo file index [] [] none
  | entry {index : Nat} {r : Record} {rs : List Record} {e : Entry} {es : List Entry}
      {defect? : Option Defect} (he : readEntry file index r = .ok e)
      (hrest : ReadsTo file (index + 1) rs es defect?) : ReadsTo file index (r :: rs) (e :: es) defect?
  | defect {index : Nat} {r : Record} {rs : List Record} {defect : Defect}
      (hdefect : readEntry file index r = .error defect) :
    ReadsTo file index (r :: rs) [] (some defect)

theorem exists_readsTo (file : Bytes) (index : Nat) (rs : List Record) (before : List Entry) :
    ∃ es defect?, entriesFrom file index rs before = (before.reverse ++ es, defect?) ∧
      ReadsTo file index rs es defect? := by
  induction rs generalizing index before with
  | nil => exact ⟨[], none, by rw [entriesFrom, List.append_nil], .done⟩
  | cons r rs ih =>
    rw [entriesFrom]
    cases hread : readEntry file index r with
    | error defect => exact ⟨[], some defect, by rw [List.append_nil], .defect hread⟩
    | ok e =>
      obtain ⟨es, defect?, hentries, hrest⟩ := ih (index + 1) (e :: before)
      exact ⟨e :: es, defect?, by simpa using hentries, .entry hread hrest⟩

theorem readsTo_entries (a : Archive) : ReadsTo a.file 0 a.records a.entries.1 a.entries.2 := by
  obtain ⟨es, defect?, hentries, hreads⟩ := exists_readsTo a.file 0 a.records []
  rw [entries, hentries]
  exact hreads

section ReadsTo

variable (h : ReadsTo file index rs es defect?)

include h

theorem ReadsTo.length_eq : es.length = rs.findIdx (!·.isGood file) := by
  induction h with
  | done => rfl
  | entry he _ ih => simp [List.findIdx_cons, (isGood_of_ok he).1, ih]
  | defect hdefect => simp [List.findIdx_cons, (isDefect_of_error hdefect).1]

theorem ReadsTo.getElem? (hi : i < es.length) :
    ∃ r, rs[i]? = some r ∧ readEntry file (index + i) r = .ok es[i] := by
  induction h generalizing i with
  | done => cases hi
  | @entry index r rs e es _ he _ ih =>
    cases i with
    | zero => exact ⟨r, rfl, he⟩
    | succ i =>
      obtain ⟨r', hr', hread⟩ := ih (Nat.lt_of_succ_lt_succ hi)
      exact ⟨r', hr', by rwa [Nat.add_right_comm] at hread⟩
  | defect => cases hi

theorem ReadsTo.stop_cases : (defect? = none ∧ es.length = rs.length) ∨
    ∃ r defect, defect? = some defect ∧ rs[es.length]? = some r ∧
      readEntry file (index + es.length) r = .error defect := by
  induction h with
  | done => exact .inl ⟨rfl, rfl⟩
  | entry _ _ ih =>
    obtain ⟨hnone, hlength⟩ | ⟨r, defect, hsome, hr, hread⟩ := ih
    · exact .inl ⟨hnone, congrArg (· + 1) hlength⟩
    · exact .inr ⟨r, defect, hsome, hr, by rwa [Nat.add_right_comm] at hread⟩
  | @defect _ r _ defect hdefect => exact .inr ⟨r, defect, rfl, rfl, hdefect⟩

end ReadsTo

end Archive

namespace ArchiveReader

variable {r : ArchiveReader} {i n : Nat} {e : Entry} {defect : Defect}

/-- A reader that has been asked `n` times. -/
def after (r : ArchiveReader) : (n : Nat) → ArchiveReader
  | 0 => r
  | n + 1 => r.read.2.after n

/-- The answer when a reader is asked for the time numbered `i`, from zero on. -/
def answer (r : ArchiveReader) (i : Nat) : Option (Except AssemblyError Entry) :=
  (r.after i).read.1

theorem answer_succ (r : ArchiveReader) (n : Nat) : r.answer (n + 1) = r.read.2.answer n :=
  rfl

theorem answer_add (r : ArchiveReader) (m n : Nat) : r.answer (m + n) = (r.after m).answer n := by
  induction m generalizing r with
  | zero => rw [Nat.zero_add, after]
  | succ m ih => rw [Nat.add_right_comm, answer_succ, ih, after]

theorem read_of_ok (hr : r.failed = false) (he : r.archive.entryAt? r.next = some (.ok e)) :
    r.read = (some (.ok e), { r with next := r.next + 1 }) := by
  rw [read, hr, if_neg Bool.false_ne_true, he]

theorem read_of_error (hr : r.failed = false) (he : r.archive.entryAt? r.next = some (.error defect)) :
    r.read = (some (.error (.corrupt r.archive.path defect)),
      { r with next := r.next + 1, failed := true }) := by
  rw [read, hr, if_neg Bool.false_ne_true, he]

def IsFused (r : ArchiveReader) : Prop :=
  r.read = (none, r)

theorem isFused_of_failed (h : r.failed = true) : r.IsFused := by
  rw [IsFused, read, h, if_pos rfl]

theorem isFused_of_end (h : r.archive.entryAt? r.next = none) : r.IsFused := by
  rw [IsFused, read]
  split
  · rfl
  · rw [h]

theorem IsFused.answer_eq_none (h : r.IsFused) (i : Nat) : r.answer i = none := by
  have hafter : r.after i = r := by
    induction i with
    | zero => rfl
    | succ i ih => rw [after, h, ih]
  rw [answer, hafter, h]

theorem after_of_ok (hr : r.failed = false)
    (h : ∀ i < n, ∃ e, r.archive.entryAt? (r.next + i) = some (.ok e)) :
    r.after n = { r with next := r.next + n } := by
  induction n generalizing r with
  | zero => rfl
  | succ n ih =>
    obtain ⟨e, he⟩ := h 0 n.succ_pos
    have hrest : ∀ i < n, ∃ e, r.archive.entryAt? (r.next + 1 + i) = some (.ok e) := by
      intro i hi
      obtain ⟨e, he⟩ := h (i + 1) (Nat.succ_lt_succ hi)
      exact ⟨e, by rwa [Nat.add_assoc, Nat.add_comm 1]⟩
    have hnext := ih (r := { r with next := r.next + 1 }) hr hrest
    rw [after, read_of_ok hr he, hnext, Nat.add_assoc, Nat.add_comm 1]

end ArchiveReader

namespace Archive

open Zip (Record isEnclosed)

def reader (a : Archive) : ArchiveReader :=
  { archive := a }

variable {a : Archive} {i : Nat} {es : List Entry} {defect : Defect} {defect? : Option Defect}

section Answers

variable (h : ReadsTo a.file 0 a.records es defect?)

include h

theorem ReadsTo.entryAt? (hi : i < es.length) : a.entryAt? i = some (.ok es[i]) := by
  obtain ⟨r, hr, hread⟩ := h.getElem? hi
  rw [Archive.entryAt?, hr, Option.map_some, ← hread, Nat.zero_add]

theorem ReadsTo.after_eq (hi : i ≤ es.length) : a.reader.after i = { archive := a, next := i } := by
  have hok : ∀ j < i, ∃ e, a.reader.archive.entryAt? (a.reader.next + j) = some (.ok e) := by
    intro j hj
    exact ⟨_, by rw [reader, Nat.zero_add]; exact h.entryAt? (Nat.lt_of_lt_of_le hj hi)⟩
  rw [ArchiveReader.after_of_ok rfl hok, reader, Nat.zero_add]

theorem ReadsTo.answer_of_lt (hi : i < es.length) : a.reader.answer i = some (.ok es[i]) := by
  rw [ArchiveReader.answer, h.after_eq (Nat.le_of_lt hi), ArchiveReader.read_of_ok rfl (h.entryAt? hi)]

theorem ReadsTo.answer_cases :
    (defect? = none ∧ es.length = a.records.length ∧ ∀ i, es.length ≤ i → a.reader.answer i = none) ∨
      ∃ r defect, defect? = some defect ∧ a.records[es.length]? = some r ∧
        r.IsDefect a.file es.length defect ∧
        a.reader.answer es.length = some (.error (.corrupt a.path defect)) ∧
        ∀ i, es.length < i → a.reader.answer i = none := by
  have hafter := h.after_eq (Nat.le_refl _)
  obtain ⟨hnone, hlength⟩ | ⟨r, defect, hsome, hr, hread⟩ := h.stop_cases
  · refine .inl ⟨hnone, hlength, fun i hi => ?_⟩
    obtain ⟨n, rfl⟩ := Nat.exists_eq_add_of_le hi
    have hend : a.entryAt? es.length = none := by
      rw [Archive.entryAt?, hlength, List.getElem?_length, Option.map_none]
    rw [ArchiveReader.answer_add, hafter]
    exact (ArchiveReader.isFused_of_end hend).answer_eq_none n
  · rw [Nat.zero_add] at hread
    have hat : a.entryAt? es.length = some (.error defect) := by
      rw [Archive.entryAt?, hr, Option.map_some, hread]
    have hfails := ArchiveReader.read_of_error (r := { archive := a, next := es.length }) rfl hat
    refine .inr ⟨r, defect, hsome, hr, (isDefect_of_error hread).2, ?_, fun i hi => ?_⟩
    · rw [ArchiveReader.answer, hafter, hfails]
    · obtain ⟨n, rfl⟩ := Nat.exists_eq_add_of_lt hi
      rw [Nat.add_assoc, ArchiveReader.answer_add, hafter, ArchiveReader.answer_succ, hfails]
      exact (ArchiveReader.isFused_of_failed rfl).answer_eq_none n

end Answers

/-- A reader of the archive answers with `es`, which are the entries before the first record that is not good,
and there is at most one answer behind them. -/
structure ReadsPrefix (a : Archive) (es : List Entry) : Prop where
  length_eq : es.length = a.records.findIdx (!·.isGood a.file)
  entry : ∀ i (hi : i < es.length), a.reader.answer i = some (.ok es[i]) ∧
    ∃ r, a.records[i]? = some r ∧ r.IsEntry a.file es[i]
  atEnd : es.length = a.records.length → ∀ i, es.length ≤ i → a.reader.answer i = none
  atDefect : es.length < a.records.length →
    (∃ r defect, a.records[es.length]? = some r ∧ r.IsDefect a.file es.length defect ∧
      a.reader.answer es.length = some (.error (.corrupt a.path defect))) ∧
    ∀ i, es.length < i → a.reader.answer i = none
  enclosed : ∀ e ∈ es,
    (Enclosed (String.ofList (Zip.withSlashes e.path.toList)) ↔
      e.path.toList.head?.any Zip.isSeparator = false) ∧
    ('\\' ∉ e.path.toList → (Enclosed e.path ↔ e.path.toList.head? ≠ some '/'))

theorem readsPrefix (a : Archive) : a.ReadsPrefix a.entries.1 := by
  have hreads := a.readsTo_entries
  have hentry (i : Nat) (hi : i < a.entries.1.length) :
      ∃ r, a.records[i]? = some r ∧ r.IsEntry a.file a.entries.1[i] := by
    obtain ⟨r, hr, hread⟩ := hreads.getElem? hi
    exact ⟨r, hr, (isGood_of_ok hread).2⟩
  refine ⟨hreads.length_eq, fun i hi => ⟨hreads.answer_of_lt hi, hentry i hi⟩, fun hlength => ?_,
    fun hlength => ?_, fun e he => ?_⟩
  · obtain ⟨-, -, hnone⟩ | ⟨r, defect, -, hr, -⟩ := hreads.answer_cases
    · exact hnone
    · simp [hlength] at hr
  · obtain ⟨-, hsame, -⟩ | ⟨r, defect, -, hr, hdefect, hanswer, hnone⟩ := hreads.answer_cases
    · omega
    · exact ⟨⟨r, defect, hr, hdefect, hanswer⟩, hnone⟩
  · obtain ⟨i, hi, rfl⟩ := List.getElem_of_mem he
    obtain ⟨r, -, hentry⟩ := hentry i hi
    exact ⟨Zip.enclosed_withSlashes_iff hentry.enclosed, Zip.enclosed_iff_relative hentry.enclosed⟩

end Archive

end FatJar
