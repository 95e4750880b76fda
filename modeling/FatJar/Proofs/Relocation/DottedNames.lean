import FatJar.Proofs.Entry.Providers
import FatJar.Proofs.Relocation.ClassNames

namespace FatJar.Relocation

/-- Parts of names with dots between them; nothing is asked of the parts. -/
def IsDotted (name : List Char) : Prop :=
  ∀ c ∈ name, c = '.' ∨ isClassNameChar c = true

instance (name : List Char) : Decidable (IsDotted name) :=
  List.decidableBAll (fun c => c = '.' ∨ isClassNameChar c = true) name

/-- The new form of a name, or itself when it lies in no source namespace. -/
def RuleSet.newName (rs : RuleSet) (name : String) : String :=
  (rs.relocateName name).getD name

def renamed (rs : RuleSet) (name : List Char) : List Char :=
  (rs.newName (String.ofList name)).toList

def IsInside (b : UInt8) : Prop :=
  isNameByte b = true ∨ b = dot

variable {rs : RuleSet} {r : Rule} {pre bs rest out : Bytes} {name tail : List Char}
  {names : List (List Char)} {b : UInt8}

theorem inside_of_mem_encode (h : IsDotted name) (hb : b ∈ Utf8.encode name) : IsInside b :=
  isNameByte_or_sep (by decide) h hb

theorem inside_of_mem_spell (hr : r ∈ rs.rules) (hb : b ∈ spell dot r.source.toList) : IsInside b :=
  (eq_sep_or_isNameByte (.of_isNamespace (rs.isNamespace_source hr)) hb).symm

theorem slash_notMem_encode (h : IsDotted name) : slash ∉ Utf8.encode name := by
  intro hmem
  obtain hb | hb := inside_of_mem_encode h hmem <;> exact absurd hb (by decide)

theorem encode_newline : Utf8.encode ['\n'] = [0x0A] := by
  decide

theorem slash_notMem_render (h : ∀ name ∈ names, IsDotted name) :
    slash ∉ Registrations.render names := by
  induction names with
  | nil => exact List.not_mem_nil
  | cons name names ih =>
    obtain ⟨hname, hnames⟩ := List.forall_mem_cons.mp h
    rw [Registrations.render_cons, Utf8.encode_append, List.mem_append,
      Utf8.encode_cons_ascii (by decide)]
    rintro (hmem | hmem)
    · exact slash_notMem_encode hname hmem
    · exact ih hnames ((List.mem_cons.mp hmem).resolve_left (by decide))

section References

theorem not_refers_slash (hslash : slash ∉ spell slash r.source.toList ++ rest) :
    ¬ Refers rs slash r pre rest := by
  intro h
  obtain hhead | ⟨-, hdots⟩ := closesBefore_slash_iff.mp h.closes
  · obtain ⟨more, rfl⟩ := List.head?_eq_some_iff.mp hhead
    exact hslash (List.mem_append_right _ List.mem_cons_self)
  · have hmem := (sep_mem_spell_iff (.inl rfl) (.of_isNamespace (rs.isNamespace_source h.mem))).mpr hdots
    exact hslash (List.mem_append_left _ hmem)

theorem noReferenceAt_inside (hslash : slash ∉ bs) (hlast : pre.getLast? = some b) (hb : IsInside b) :
    NoReferenceAt rs pre bs := by
  rintro sep r rest rfl h
  obtain rfl | rfl := h.isSeparator
  · exact not_refers_slash hslash h
  · obtain ⟨hname, hdot⟩ := opensAfter_dot_iff.mp h.opens b hlast
    obtain hb | hb := hb
    · rw [hname] at hb
      cases hb
    · exact hdot hb

theorem exists_tail_of_prefix {source : String} (hsource : isNamespace source = true) {more : List Char}
    (htext : Utf8.encode (name ++ '\n' :: more) = spell dot source.toList ++ rest) :
    ∃ tail, name = source.toList ++ tail ∧ rest = Utf8.encode (tail ++ '\n' :: more) := by
  rw [← utf8_eq_spell hsource] at htext
  obtain ⟨es, hcut, rfl⟩ := Utf8.exists_of_encode_eq_append (fun c => ascii_of_isNamespace hsource) htext
  obtain ⟨excess, hexcess, hes⟩ | ⟨tail, rfl, rfl⟩ := List.append_eq_append_iff.mp hcut
  · have hfeed : '\n' ∉ source.toList := notMem_of_isNamespace hsource (by decide) (by decide)
    cases excess with
    | nil => exact ⟨[], by rw [hexcess, List.append_nil, List.append_nil], by rw [hes]; rfl⟩
    | cons c excess =>
      obtain ⟨rfl, -⟩ := List.cons.inj hes
      exact absurd (hexcess ▸ List.mem_append_right _ List.mem_cons_self) hfeed
  · exact ⟨tail, rfl, rfl⟩

theorem utf8EncodeChar_ne_nil (c : Char) : String.utf8EncodeChar c ≠ [] := by
  intro hnil
  have hempty : Utf8.encode [c] = [] := by
    rw [Utf8.encode_cons, hnil]
    rfl
  exact absurd (Utf8.encode_eq_nil_iff.mp hempty) (List.cons_ne_nil c [])

theorem exists_tail_of_refers (hname : IsDotted name) {more : List Char} (h : Refers rs dot r pre rest)
    (htext : Utf8.encode (name ++ '\n' :: more) = spell dot r.source.toList ++ rest) :
    ∃ tail, r.tail? (String.ofList name) = some tail := by
  obtain ⟨tail, rfl, rfl⟩ := exists_tail_of_prefix (rs.isNamespace_source h.mem) htext
  refine ⟨tail, Rule.tail?_eq_some_iff.mpr ⟨String.toList_ofList, fun c hc => ?_⟩⟩
  obtain ⟨tail, rfl⟩ := List.head?_eq_some_iff.mp hc
  refine (hname c (by simp)).resolve_right fun hchar => ?_
  obtain ⟨b, bs, hb⟩ := List.exists_cons_of_ne_nil (utf8EncodeChar_ne_nil c)
  have hclosed := closesBefore_dot_iff.mp h.closes b (by
    rw [List.cons_append, Utf8.encode_cons, hb, List.cons_append, List.head?_cons]
    exact rfl)
  have hinside := isNameByte_of_isClassNameChar hchar (hb ▸ List.mem_cons_self)
  rw [hclosed.1] at hinside
  cases hinside

theorem noReferenceAt_line (hname : IsDotted name) {more : List Char}
    (hslash : slash ∉ Utf8.encode (name ++ '\n' :: more))
    (hnone : rs.relocateName (String.ofList name) = none) :
    NoReferenceAt rs pre (Utf8.encode (name ++ '\n' :: more)) := by
  intro sep r rest htext h
  obtain rfl | rfl := h.isSeparator
  · exact not_refers_slash (htext ▸ hslash) h
  · obtain ⟨tail, htail⟩ := exists_tail_of_refers hname h htext
    have hsome : rs.relocateName (String.ofList name) = some (String.ofList (r.target.toList ++ tail)) :=
      RuleSet.relocateName_eq_some_iff.mpr ⟨r, h.mem, tail, htail, String.toList_ofList⟩
    rw [hnone] at hsome
    cases hsome

end References

theorem Rewrites.of_line (h : Rewrites rs pre (Utf8.encode (tail ++ ['\n']) ++ rest) out)
    (htail : IsDotted tail) (hslash : slash ∉ Utf8.encode (tail ++ ['\n']) ++ rest)
    (hhere : NoReferenceAt rs pre (Utf8.encode (tail ++ ['\n']) ++ rest)) :
    ∃ out', out = Utf8.encode (tail ++ ['\n']) ++ out' ∧
      Rewrites rs (pre ++ Utf8.encode (tail ++ ['\n'])) rest out' := by
  refine h.of_noReference fun before after hpassed hne => ?_
  obtain rfl | ⟨init, b, rfl⟩ := List.eq_nil_or_concat' before
  · rw [List.append_nil, ← List.nil_append after, ← hpassed]
    exact hhere
  · have hkept : (init ++ [b]) ++ after = Utf8.encode tail ++ [0x0A] := by
      rw [← hpassed, Utf8.encode_append, encode_newline]
    obtain ⟨after, z, rfl⟩ := (List.eq_nil_or_concat' after).resolve_left hne
    have hinit : init ++ [b] ++ after = Utf8.encode tail := by
      have hdrop := congrArg List.dropLast hkept
      rwa [← List.append_assoc, List.dropLast_concat, List.dropLast_concat] at hdrop
    have hb : b ∈ Utf8.encode tail := by
      rw [← hinit]
      simp
    refine noReferenceAt_inside (fun hmem => hslash ?_) (b := b) (by simp) (inside_of_mem_encode htail hb)
    rw [hpassed, List.append_assoc]
    exact List.mem_append_right _ hmem

/-- The beginning of a line. -/
def AtLine (pre : Bytes) : Prop :=
  ∀ b ∈ pre.getLast?, b = 0x0A

theorem AtLine.opens (h : AtLine pre) : OpensAfter dot pre := by
  refine opensAfter_dot_iff.mpr fun b hb => ?_
  rw [h b hb]
  decide

theorem closes_of_tail (hdot : ∀ c ∈ tail.head?, c = '.') (source : List Char) (rest : Bytes) :
    ClosesBefore dot source (Utf8.encode (tail ++ ['\n']) ++ rest) := by
  rw [closesBefore_dot_iff]
  cases tail with
  | nil =>
    rw [List.nil_append, encode_newline]
    intro b hb
    obtain rfl : 0x0A = b := Option.some.inj hb
    decide
  | cons c tail =>
    obtain rfl := hdot c rfl
    rw [List.cons_append, Utf8.encode_cons_ascii (by decide)]
    intro b hb
    obtain rfl : dot = b := Option.some.inj hb
    decide

theorem encode_line (cs more : List Char) :
    Utf8.encode (cs ++ '\n' :: more) = Utf8.encode (cs ++ ['\n']) ++ Utf8.encode more := by
  rw [← Utf8.encode_append, List.append_assoc]
  rfl

theorem Rewrites.line_of_source {more : List Char} (hr : r ∈ rs.rules) (hdot : ∀ c ∈ tail.head?, c = '.')
    (h : Rewrites rs pre (Utf8.encode (r.source.toList ++ (tail ++ '\n' :: more))) out)
    (hpre : AtLine pre) (htail : IsDotted tail)
    (hslash : slash ∉ Utf8.encode (r.source.toList ++ (tail ++ '\n' :: more))) :
    ∃ out', out = Utf8.encode (r.target.toList ++ (tail ++ ['\n'])) ++ out' ∧
      Rewrites rs (pre ++ Utf8.encode (r.source.toList ++ (tail ++ ['\n']))) (Utf8.encode more) out' := by
  have hspell : ∀ {name : String}, isNamespace name = true → ∀ cs : List Char,
      Utf8.encode (name.toList ++ cs) = spell dot name.toList ++ Utf8.encode cs := by
    intro name hname cs
    rw [Utf8.encode_append, ← utf8_eq_spell hname, utf8]
  have hsource := hspell (rs.isNamespace_source hr)
  rw [hsource, encode_line] at h hslash
  have hrefers : Refers rs dot r pre (Utf8.encode (tail ++ ['\n']) ++ Utf8.encode more) :=
    ⟨hr, .inr rfl, hpre.opens, closes_of_tail hdot _ _⟩
  obtain ⟨out', rfl, hout⟩ := h.of_refers hrefers rfl
  obtain ⟨init, b, hlast⟩ := (List.eq_nil_or_concat' _).resolve_left (spell_source_ne_nil hr dot)
  have hb : IsInside b := inside_of_mem_spell hr (hlast ▸ List.mem_append_right _ List.mem_cons_self)
  have hclean : slash ∉ Utf8.encode (tail ++ ['\n']) ++ Utf8.encode more :=
    fun hmem => hslash (List.mem_append_right _ hmem)
  have hhere : NoReferenceAt rs (pre ++ spell dot r.source.toList)
      (Utf8.encode (tail ++ ['\n']) ++ Utf8.encode more) :=
    noReferenceAt_inside hclean (by rw [hlast, ← List.append_assoc, List.getLast?_concat]) hb
  obtain ⟨out'', rfl, hrest⟩ := hout.of_line htail hclean hhere
  refine ⟨out'', ?_, ?_⟩
  · rw [hspell (rs.isNamespace_target hr), List.append_assoc]
  · rwa [hsource, ← List.append_assoc]

theorem Rewrites.line {more : List Char} (h : Rewrites rs pre (Utf8.encode (name ++ '\n' :: more)) out)
    (hpre : AtLine pre) (hname : IsDotted name)
    (hslash : slash ∉ Utf8.encode (name ++ '\n' :: more)) :
    ∃ out', out = Utf8.encode (renamed rs name ++ ['\n']) ++ out' ∧
      Rewrites rs (pre ++ Utf8.encode (name ++ ['\n'])) (Utf8.encode more) out' := by
  rw [renamed, RuleSet.newName]
  cases hmoved : rs.relocateName (String.ofList name) with
  | none =>
    rw [Option.getD_none, String.toList_ofList]
    have hhere : NoReferenceAt rs pre (Utf8.encode (name ++ '\n' :: more)) :=
      noReferenceAt_line hname hslash hmoved
    rw [encode_line] at h hslash hhere
    exact h.of_line hname hslash hhere
  | some name' =>
    obtain ⟨r, hr, tail, htail, hname'⟩ := RuleSet.relocateName_eq_some_iff.mp hmoved
    obtain ⟨hcut, hdot⟩ := Rule.tail?_eq_some_iff.mp htail
    obtain rfl : name = r.source.toList ++ tail := by rw [← hcut, String.toList_ofList]
    rw [List.append_assoc] at h hslash
    rw [Option.getD_some, hname', List.append_assoc, List.append_assoc]
    exact h.line_of_source hr hdot hpre (fun c hc => hname c (List.mem_append_right _ hc)) hslash

theorem Rewrites.lines (h : Rewrites rs pre (Registrations.render names) out) (hpre : AtLine pre)
    (hnames : ∀ name ∈ names, IsDotted name) : out = Registrations.render (names.map (renamed rs)) := by
  induction names generalizing pre out with
  | nil =>
    refine h.eq_self fun passed rest hnil => ?_
    obtain ⟨rfl, rfl⟩ := List.append_eq_nil_iff.mp hnil.symm
    exact noReferenceAt_nil _
  | cons name names ih =>
    obtain ⟨hname, hlater⟩ := List.forall_mem_cons.mp hnames
    have hslash := slash_notMem_render hnames
    rw [Registrations.render_cons] at h hslash
    obtain ⟨out', rfl, hrest⟩ := h.line hpre hname hslash
    have hnext : AtLine (pre ++ Utf8.encode (name ++ ['\n'])) := by
      intro b hb
      rw [Utf8.encode_append, encode_newline, ← List.append_assoc, List.getLast?_concat] at hb
      exact (Option.some.inj hb).symm
    rw [ih hrest hnext hlater, List.map_cons, Registrations.render_cons, Registrations.render,
      ← Utf8.encode_append, List.append_assoc]
    rfl

theorem replace_render (rs : RuleSet) (hnames : ∀ name ∈ names, IsDotted name) :
    (rs.replace (Registrations.render names)).getD (Registrations.render names) =
      Registrations.render (names.map (renamed rs)) :=
  (rs.rewrites_replace _).lines (fun b hb => by cases hb) hnames

end FatJar.Relocation
