import FatJar.Proofs.Relocation.Paths
import FatJar.Proofs.Relocation.Rewriting

namespace FatJar.Relocation

def isClassNameChar (c : Char) : Bool :=
  isSegmentChar c || 0x80 ≤ c.toNat

/-- Class names as class files spell them: non-empty parts with slashes between them. -/
def IsClassName (name : String) : Prop :=
  Joined '/' isClassNameChar name.toList

/-- Names in which a source can only be the directory that the class lies in. -/
structure Plain (rs : RuleSet) (name : String) : Prop where
  notSource : ∀ r ∈ rs.rules, name ≠ r.slashedSource
  notDescribed : ∀ r ∈ rs.rules, ¬ 'L' :: r.slashedSource.toList ++ ['/'] <:+: name.toList
  notDescribedLast : ∀ r ∈ rs.rules, '.' ∈ r.source.toList →
    ¬ 'L' :: r.slashedSource.toList <:+ name.toList
  notLast : ∀ r ∈ rs.rules, '.' ∉ r.source.toList → ¬ '/' :: r.source.toList <:+ name.toList

section Bytes

variable {name : String} {b : UInt8}

theorem ascii_of_mem_slashed {c : Char} (h : isNamespace name = true)
    (hc : c ∈ (slashed name).toList) : c.toNat < 0x80 := by
  rw [toList_slashed] at hc
  obtain ⟨d, hd, rfl⟩ := List.mem_map.mp hc
  split
  · decide
  · exact ascii_of_isNamespace h hd

theorem encode_slashed (h : isNamespace name = true) :
    Utf8.encode (slashed name).toList = spell slash name.toList :=
  utf8_slashed_eq_spell h

theorem isNameByte_of_isClassNameChar {c : Char} (h : isClassNameChar c = true)
    (hb : b ∈ String.utf8EncodeChar c) : isNameByte b = true := by
  by_cases hwide : 0x80 ≤ c.toNat
  · have hle := Utf8.le_of_mem_encodeChar hwide hb
    simp [isNameByte, UInt8.le_iff_toNat_le, hle]
  · rw [Utf8.encodeChar_ascii (Nat.lt_of_not_le hwide), List.mem_singleton] at hb
    have hsegment : isSegmentChar c = true := by simpa [isClassNameChar, hwide] using h
    exact hb ▸ isNameByte_of_isSegmentChar hsegment

theorem isNameByte_or_sep {sep : Char} {cs : List Char} (hsep : sep.toNat < 0x80)
    (h : ∀ c ∈ cs, c = sep ∨ isClassNameChar c = true) (hb : b ∈ Utf8.encode cs) :
    isNameByte b = true ∨ b = UInt8.ofNat sep.toNat := by
  obtain ⟨c, hc, hbc⟩ := List.mem_flatMap.mp hb
  obtain rfl | hchar := h c hc
  · rw [Utf8.encodeChar_ascii hsep, List.mem_singleton] at hbc
    exact .inr hbc
  · exact .inl (isNameByte_of_isClassNameChar hchar hbc)

theorem isNameByte_or_slash (hn : IsClassName name) (hb : b ∈ utf8 name) :
    isNameByte b = true ∨ b = slash :=
  isNameByte_or_sep (by decide) (fun _ => hn.of_mem) hb

theorem utf8_ne_slash_cons (hn : IsClassName name) (rest : Bytes) : utf8 name ≠ slash :: rest := by
  intro h
  have hfirst : Utf8.encode name.toList = [] ++ slash :: rest := h
  obtain ⟨ds, es, hname, hds, -⟩ := Utf8.exists_of_encode_eq_append_cons hfirst (by decide)
  obtain rfl := Utf8.encode_eq_nil_iff.mp hds
  unfold IsClassName at hn
  rw [hname] at hn
  exact absurd hn.of_cons (by decide)

end Bytes

section Cuts

variable {source name : String} {before after : Bytes}

theorem encode_described (h : isNamespace source = true) :
    Utf8.encode ('L' :: (slashed source).toList) = 0x4C :: spell slash source.toList := by
  rw [Utf8.encode_cons_ascii (by decide), encode_slashed h]
  rfl

theorem suffix_of_described (h : isNamespace source = true)
    (hname : utf8 name = before ++ 0x4C :: spell slash source.toList) :
    'L' :: (slashed source).toList <:+ name.toList := by
  have hascii : ∀ c ∈ 'L' :: (slashed source).toList, c.toNat < 0x80 :=
    List.forall_mem_cons.mpr ⟨by decide, fun c => ascii_of_mem_slashed h⟩
  have hcut : Utf8.encode name.toList =
      before ++ Utf8.encode ('L' :: (slashed source).toList) ++ [] := by
    rw [encode_described h, List.append_nil]
    exact hname
  obtain ⟨fs, es, hcs, -, hes⟩ := Utf8.exists_of_encode_eq_append_append hascii (by simp) hcut
  obtain rfl := Utf8.encode_eq_nil_iff.mp hes
  exact ⟨fs, by rw [hcs, List.append_nil]⟩

theorem infix_of_described (h : isNamespace source = true)
    (hname : utf8 name = before ++ 0x4C :: (spell slash source.toList ++ slash :: after)) :
    'L' :: (slashed source).toList ++ ['/'] <:+: name.toList := by
  have hascii : ∀ c ∈ 'L' :: (slashed source).toList ++ ['/'], c.toNat < 0x80 := by
    rw [List.forall_mem_append, List.forall_mem_cons, List.forall_mem_singleton]
    exact ⟨⟨by decide, fun c => ascii_of_mem_slashed h⟩, by decide⟩
  have hslash : Utf8.encode ['/'] = [slash] := by decide
  have hcut : Utf8.encode name.toList =
      before ++ Utf8.encode ('L' :: (slashed source).toList ++ ['/']) ++ after := by
    rw [Utf8.encode_append, encode_described h, hslash]
    exact hname.trans (by simp)
  obtain ⟨fs, es, hcs, -, -⟩ := Utf8.exists_of_encode_eq_append_append hascii (by simp) hcut
  exact ⟨fs, es, hcs.symm⟩

theorem suffix_of_last (h : isNamespace source = true)
    (hname : utf8 name = before ++ slash :: spell dot source.toList) :
    '/' :: source.toList <:+ name.toList := by
  have hascii : ∀ c ∈ '/' :: source.toList, c.toNat < 0x80 :=
    List.forall_mem_cons.mpr ⟨by decide, fun c => ascii_of_isNamespace h⟩
  have hcut : Utf8.encode name.toList = before ++ Utf8.encode ('/' :: source.toList) ++ [] := by
    have hsource : Utf8.encode source.toList = spell dot source.toList := utf8_eq_spell h
    rw [Utf8.encode_cons_ascii (by decide), hsource, List.append_nil]
    exact hname
  obtain ⟨fs, es, hcs, -, hes⟩ := Utf8.exists_of_encode_eq_append_append hascii (by simp) hcut
  obtain rfl := Utf8.encode_eq_nil_iff.mp hes
  exact ⟨fs, by rw [hcs, List.append_nil]⟩

end Cuts

variable {rs : RuleSet} {r : Rule} {sep : UInt8} {pre rest out : Bytes} {name : String}

theorem eq_slash_of_mem {b : UInt8} (hn : IsClassName name) (hb : b ∈ utf8 name)
    (hnot : isNameByte b = false) : b = slash := by
  obtain hb | hb := isNameByte_or_slash hn hb
  · rw [hnot] at hb
    exact absurd hb (by decide)
  · exact hb

theorem Plain.ne_spell_source (hp : Plain rs name) (hr : r ∈ rs.rules) :
    utf8 name ≠ spell slash r.source.toList := by
  rw [← utf8_slashed_eq_spell (rs.isNamespace_source hr)]
  exact fun hsame => hp.notSource r hr (utf8_injective hsame)

/-- A reference with slashes begins the name: what opens it elsewhere is the letter of a descriptor. -/
theorem Plain.opens_slash (hp : Plain rs name) (hn : IsClassName name)
    (h : Refers rs slash r pre rest)
    (hname : utf8 name = pre ++ (spell slash r.source.toList ++ rest)) : pre = [] := by
  have hsource := rs.isNamespace_source h.mem
  obtain hnil | ⟨init, b, rfl⟩ := List.eq_nil_or_concat' pre
  · exact hnil
  · exfalso
    have hbyte : b ∈ utf8 name := by simp [hname]
    rw [List.append_assoc, List.singleton_append] at hname
    -- An absolute name would begin with a slash; else a descriptor is what `Plain` rules out.
    obtain hsole | hlast := opensAfter_slash_iff.mp h.opens
    · have hinit : init = [] ∧ b = slash := by simpa [List.append_eq_singleton_iff] using hsole
      rw [hinit.1, hinit.2] at hname
      exact utf8_ne_slash_cons hn _ hname
    · obtain rfl | ⟨hnot, -, hslash⟩ := hlast b List.getLast?_concat
      · obtain hslash | ⟨rfl, hdots⟩ := closesBefore_slash_iff.mp h.closes
        · obtain ⟨after, rfl⟩ := List.head?_eq_some_iff.mp hslash
          exact hp.notDescribed r h.mem (infix_of_described hsource hname)
        · rw [List.append_nil] at hname
          exact hp.notDescribedLast r h.mem hdots (suffix_of_described hsource hname)
      · exact hslash (eq_slash_of_mem hn hbyte hnot)

theorem Plain.not_refers_dot (hp : Plain rs name) (hn : IsClassName name)
    (hname : utf8 name = pre ++ (spell dot r.source.toList ++ rest)) : ¬ Refers rs dot r pre rest := by
  intro h
  have hsource := rs.isNamespace_source h.mem
  have hbyte : ∀ b ∈ pre ++ (spell dot r.source.toList ++ rest), isNameByte b = false → b = slash :=
    fun b hb => eq_slash_of_mem hn (hname ▸ hb)
  have hdots : '.' ∉ r.source.toList := by
    intro hmem
    have hdot := (sep_mem_spell_iff (.inr rfl) (.of_isNamespace hsource)).mpr hmem
    exact absurd (hbyte dot (by simp [hdot]) (by decide)) (by decide)
  have hrest : rest = [] := by
    cases rest with
    | nil => rfl
    | cons b rest =>
      obtain ⟨hnot, hslash⟩ := closesBefore_dot_iff.mp h.closes b rfl
      exact absurd (hbyte b (by simp) hnot) hslash
  rw [hrest, List.append_nil] at hname
  obtain rfl | ⟨init, b, rfl⟩ := List.eq_nil_or_concat' pre
  · rw [List.nil_append, spell_eq_of_notMem hdots dot slash] at hname
    exact hp.ne_spell_source h.mem hname
  · obtain ⟨hnot, -⟩ := opensAfter_dot_iff.mp h.opens b List.getLast?_concat
    obtain rfl := hbyte b (by simp) hnot
    rw [List.append_assoc, List.singleton_append] at hname
    exact hp.notLast r h.mem hdots (suffix_of_last hsource hname)

theorem Plain.reference (hp : Plain rs name) (hn : IsClassName name)
    (h : Refers rs sep r pre rest) (hname : utf8 name = pre ++ (spell sep r.source.toList ++ rest)) :
    pre = [] ∧ sep = slash ∧ rest.head? = some slash := by
  obtain rfl | rfl := h.isSeparator
  · obtain rfl := hp.opens_slash hn h hname
    refine ⟨rfl, rfl, (closesBefore_slash_iff.mp h.closes).resolve_right ?_⟩
    rintro ⟨rfl, -⟩
    exact hp.ne_spell_source h.mem (by simpa using hname)
  · exact absurd h (hp.not_refers_dot hn hname)

/-- The name of a class that lies below a source is rewritten as its directory is moved. -/
theorem Plain.replace_below (hp : Plain rs name) (hn : IsClassName name) (hr : r ∈ rs.rules)
    {below : List Char} (hname : name.toList = r.slashedSource.toList ++ '/' :: below) :
    rs.replace (utf8 name) =
      some (Utf8.encode (r.slashedTarget.toList ++ '/' :: below)) := by
  have hslash : ∀ cs, Utf8.encode ('/' :: cs) = slash :: Utf8.encode cs :=
    fun cs => Utf8.encode_cons_ascii (by decide) cs
  have hbytes : utf8 name = spell slash r.source.toList ++ slash :: Utf8.encode below := by
    rw [utf8, hname, Utf8.encode_append, hslash, Rule.slashedSource,
      encode_slashed (rs.isNamespace_source hr)]
  have hrefers : Refers rs slash r [] (slash :: Utf8.encode below) :=
    ⟨hr, .inl rfl, by simp [OpensAfter], by simp [ClosesBefore]⟩
  have hsome : rs.replace (utf8 name) ≠ none := by
    rw [Ne, rs.replace_eq_none_iff, RuleSet.find_eq_none_iff_noReferenceAt]
    exact fun hno => hno [] _ rfl _ _ _ hbytes hrefers
  obtain ⟨out, hout⟩ := Option.ne_none_iff_exists'.mp hsome
  obtain ⟨out', rfl, htail⟩ := (RuleSet.rewrites_of_replace hout).of_refers hrefers hbytes
  have hrest : out' = slash :: Utf8.encode below := by
    apply htail.eq_self
    intro passed rest hpassed sep' r' rest' hrest hrefers'
    have hplace : utf8 name = spell slash r.source.toList ++ passed ++
        (spell sep' r'.source.toList ++ rest') := by
      rw [hbytes, hpassed, hrest, List.append_assoc]
    obtain ⟨hnil, -⟩ := hp.reference hn hrefers' hplace
    exact spell_source_ne_nil hr slash (List.append_eq_nil_iff.mp hnil).1
  rw [hout, hrest, Utf8.encode_append, hslash, Rule.slashedTarget,
    encode_slashed (rs.isNamespace_target hr)]

theorem Plain.exists_below (hp : Plain rs name) (hn : IsClassName name)
    (h : rs.replace (utf8 name) ≠ none) :
    ∃ r ∈ rs.rules, ∃ below, name.toList = r.slashedSource.toList ++ '/' :: below := by
  rw [Ne, rs.replace_eq_none_iff, RuleSet.find_eq_none_iff_noReferenceAt] at h
  unfold NoReferenceAt at h
  push Not at h
  obtain ⟨pre, rest, hname, sep, r, after, hrest, hrefers⟩ := h
  rw [hrest] at hname
  obtain ⟨rfl, rfl, hslash⟩ := hp.reference hn hrefers hname
  obtain ⟨more, rfl⟩ := List.head?_eq_some_iff.mp hslash
  have hsource := rs.isNamespace_source hrefers.mem
  have hcut : Utf8.encode name.toList =
      Utf8.encode (slashed r.source).toList ++ slash :: more := by
    rw [encode_slashed hsource]
    exact hname
  obtain ⟨es, hes, hmore⟩ :=
    Utf8.exists_of_encode_eq_append (fun c => ascii_of_mem_slashed hsource) hcut
  have hfirst : Utf8.encode es = [] ++ slash :: more := hmore
  obtain ⟨ds, below, rfl, hds, -⟩ := Utf8.exists_of_encode_eq_append_cons hfirst (by decide)
  obtain rfl := Utf8.encode_eq_nil_iff.mp hds
  exact ⟨r, hrefers.mem, below, hes⟩

theorem Plain.replace_eq_some_iff (hp : Plain rs name) (hn : IsClassName name) :
    rs.replace (utf8 name) = some out ↔
      ∃ r ∈ rs.rules, ∃ below, name.toList = r.slashedSource.toList ++ '/' :: below ∧
        out = Utf8.encode (r.slashedTarget.toList ++ '/' :: below) := by
  constructor
  · intro h
    obtain ⟨r, hr, below, hname⟩ := hp.exists_below hn (by simp [h])
    rw [hp.replace_below hn hr hname] at h
    exact ⟨r, hr, below, hname, (Option.some.inj h).symm⟩
  · rintro ⟨r, hr, below, hname, hout⟩
    rw [hout]
    exact hp.replace_below hn hr hname

section Files

variable {path : String} {mark : List Char}

def classSuffix : String := ".class"

theorem exists_below_of_append_classSuffix {dir cs below : List Char}
    (h : cs ++ classSuffix.toList = dir ++ '/' :: below) :
    ∃ below', cs = dir ++ '/' :: below' ∧ below = below' ++ classSuffix.toList := by
  have hslash : '/' ∉ classSuffix.toList := by decide
  obtain ⟨more, -, hsuffix⟩ | ⟨more, rfl, hbelow⟩ := List.append_eq_append_iff.mp h
  · exact absurd (hsuffix ▸ List.mem_append_right _ List.mem_cons_self) hslash
  · cases more with
    | nil =>
      rw [List.nil_append] at hbelow
      exact absurd (hbelow ▸ List.mem_cons_self) hslash
    | cons c more =>
      obtain ⟨rfl, htail⟩ := List.cons.inj hbelow
      exact ⟨more, rfl, htail⟩

theorem splitVersioned_of_className (hn : IsClassName name)
    (hmark : mark = [] ∨ IsVersionMark mark) :
    splitVersioned (mark ++ (name.toList ++ classSuffix.toList)) =
      (mark, name.toList ++ classSuffix.toList) := by
  obtain rfl | hmark := hmark
  · rcases splitVersioned_cases (name.toList ++ classSuffix.toList) with
      ⟨mark, rest, ⟨version, -, -, hmark⟩, hpath, -⟩ | hsplit
    · have hhyphen : '-' ∈ name.toList ++ classSuffix.toList := by
        rw [hpath, hmark]
        simp [versionsDir]
      obtain hmem | hmem := List.mem_append.mp hhyphen
      · obtain hc | hc := hn.of_mem hmem
        · exact absurd hc (by decide)
        · exact absurd hc (by decide)
      · exact absurd hmem (by decide)
    · exact hsplit
  · exact splitVersioned_of_mark hmark _

theorem relocatePath_className_iff (hn : IsClassName name) {path path' : String}
    (hmark : mark = [] ∨ IsVersionMark mark)
    (hpath : path.toList = mark ++ (name.toList ++ classSuffix.toList)) :
    rs.relocatePath path = some path' ↔
      ∃ r ∈ rs.rules, ∃ below, name.toList = r.slashedSource.toList ++ '/' :: below ∧
        path'.toList =
          mark ++ (r.slashedTarget.toList ++ '/' :: below ++ classSuffix.toList) := by
  rw [RuleSet.relocatePath_eq_some_iff, hpath, splitVersioned_of_className hn hmark]
  refine exists_congr fun r => and_congr_right fun _ => ?_
  constructor
  · rintro ⟨mark', below, hsplit, hpath'⟩
    obtain ⟨rfl, hdir⟩ := Prod.mk.inj hsplit
    obtain ⟨below', hname, rfl⟩ := exists_below_of_append_classSuffix hdir
    exact ⟨below', hname, by rw [hpath']; simp⟩
  · rintro ⟨below, hname, hpath'⟩
    refine ⟨mark, below ++ classSuffix.toList, ?_, ?_⟩
    · rw [hname]
      simp
    · rw [hpath']
      simp

end Files

/-- For a plain name, renaming the class and moving its file agree: the one happens where the other does, and
the file then has the path of the new name. -/
theorem rename_iff_move (hn : IsClassName name) (hp : Plain rs name) {mark : String}
    (hmark : mark = "" ∨ IsVersionMark mark.toList) :
    (∀ m, rs.replace (utf8 name) = some (utf8 m) ↔
        rs.relocatePath (mark ++ (name ++ classSuffix)) = some (mark ++ (m ++ classSuffix))) ∧
      (∀ out, rs.replace (utf8 name) = some out → ∃ m, out = utf8 m) ∧
      ∀ path, rs.relocatePath (mark ++ (name ++ classSuffix)) = some path →
        ∃ m, path = mark ++ (m ++ classSuffix) := by
  have hmark' : mark.toList = [] ∨ IsVersionMark mark.toList := hmark.imp_left fun h => by simp [h]
  have hpath : (mark ++ (name ++ classSuffix)).toList =
      mark.toList ++ (name.toList ++ classSuffix.toList) := by simp
  refine ⟨fun m => ?_, fun out hout => ?_, fun path hmoved => ?_⟩
  · rw [hp.replace_eq_some_iff hn, relocatePath_className_iff hn hmark' hpath]
    refine exists_congr fun r => and_congr_right fun _ => exists_congr fun below =>
      and_congr_right fun _ => ?_
    rw [String.toList_append, String.toList_append, List.append_cancel_left_eq,
      List.append_cancel_right_eq]
    exact ⟨fun h => Utf8.encode_injective h, fun h => congrArg Utf8.encode h⟩
  · obtain ⟨r, -, below, -, hm⟩ := (hp.replace_eq_some_iff hn).mp hout
    exact ⟨String.ofList (r.slashedTarget.toList ++ '/' :: below), by rw [hm]; simp [utf8]⟩
  · obtain ⟨r, -, below, -, hmoved⟩ := (relocatePath_className_iff hn hmark' hpath).mp hmoved
    refine ⟨String.ofList (r.slashedTarget.toList ++ '/' :: below), String.toList_inj.mp ?_⟩
    rw [hmoved]
    simp

def vendoring : RuleSet :=
  ⟨[⟨"com.vendor.lib", "shaded.vendor.lib"⟩], by decide⟩

theorem util_renamed_and_moved :
    IsClassName "com/vendor/lib/Util" ∧ Plain vendoring "com/vendor/lib/Util" ∧
      IsVersionMark "META-INF/versions/9/".toList ∧
      vendoring.replace (utf8 "com/vendor/lib/Util") = some (utf8 "shaded/vendor/lib/Util") ∧
      vendoring.relocatePath ("META-INF/versions/9/" ++ ("com/vendor/lib/Util" ++ classSuffix)) =
        some ("META-INF/versions/9/" ++ ("shaded/vendor/lib/Util" ++ classSuffix)) := by
  have hn : IsClassName "com/vendor/lib/Util" := by
    unfold IsClassName
    decide +kernel
  have hp : Plain vendoring "com/vendor/lib/Util" := by
    constructor <;> decide +kernel
  have hmark : IsVersionMark "META-INF/versions/9/".toList :=
    ⟨['9'], by simp, by simp, by decide +kernel⟩
  have hrenamed : vendoring.replace (utf8 "com/vendor/lib/Util") =
      some (utf8 "shaded/vendor/lib/Util") := by
    decide +kernel
  exact ⟨hn, hp, hmark, hrenamed, ((rename_iff_move hn hp (.inr hmark)).1 _).mp hrenamed⟩

/-- All of the namespace `lib`, which has one part, goes below `shaded`. -/
def shadingLib : RuleSet :=
  ⟨[⟨"lib", "shaded.lib"⟩], by decide⟩

/-- Whether a class gets a name and the file of the class does not get the path of that name. -/
def RenamedAlone (rs : RuleSet) (name m : String) : Prop :=
  ¬ (rs.replace (utf8 name) = some (utf8 m) ↔
    rs.relocatePath (name ++ classSuffix) = some (m ++ classSuffix))

instance (rs : RuleSet) (name m : String) : Decidable (RenamedAlone rs name m) :=
  inferInstanceAs (Decidable (¬ _))

/-- Names that are rewritten while their files stay. The bare name of a namespace and, behind an `L`, what
passes for the beginning of a descriptor are meant to be rewritten. A source of one part at the end of a name is
not: it passes for a name with dots although a slash stands before it. -/
theorem source_renamed_and_not_moved :
    (∀ name ∈ ["com/vendor/lib", "SQLcom/vendor/lib/Util", "SQLcom/vendor/lib", "org/lib"],
        IsClassName name) ∧
      RenamedAlone vendoring "com/vendor/lib" "shaded/vendor/lib" ∧
      RenamedAlone vendoring "SQLcom/vendor/lib/Util" "SQLshaded/vendor/lib/Util" ∧
      RenamedAlone vendoring "SQLcom/vendor/lib" "SQLshaded/vendor/lib" ∧
      RenamedAlone shadingLib "org/lib" "org/shaded.lib" := by
  constructor
  · unfold IsClassName
    decide +kernel
  · decide +kernel

end FatJar.Relocation
