import FatJar.Proofs.Entry.Kind
import FatJar.Proofs.Entry.Proper
import FatJar.Proofs.Relocation.Conservation
import FatJar.Proofs.Relocation.Moves
import FatJar.Proofs.Relocation.Paths
import FatJar.Proofs.Relocation.Rewriting

namespace FatJar.Relocation

section Paths

variable {rs : RuleSet} {path path' name name' : String}

theorem not_inMetaInf_of_isNamespace (h : isNamespace name = true) {rest : List Char}
    (hpath : path.toList = (slashed name).toList ++ '/' :: rest) : ¬ InMetaInf path := by
  have hlower : Ascii.lower path =
      (slashed name).toList.map Char.toLower ++ '/' :: rest.map Char.toLower := by
    simp [Ascii.lower, hpath]
  -- The hyphen of `META-INF` is in no namespace, nor is there a letter that it is the lower case of.
  have hhyphen : '-' ∉ (slashed name).toList.map Char.toLower := by
    intro hmem
    obtain ⟨c, hc, hlow⟩ := List.mem_map.mp hmem
    rw [toList_slashed, List.mem_map] at hc
    obtain ⟨d, hd, rfl⟩ := hc
    split at hlow
    · exact absurd hlow (by decide)
    · next hdot =>
      have hd := ((isNamespace_iff.mp h).of_mem hd).resolve_left hdot
      exact of_isSegmentChar (p := fun c => c.toLower ≠ '-') (by decide) hd hlow
  intro hin
  unfold InMetaInf at hin
  rw [hlower] at hin
  have hword : Ascii.lower "META-INF" <+: Ascii.lower metaInf := by decide
  exact not_prefix_append_cons (c := '-') (by decide) (by decide) hhyphen _ (hword.trans hin)

/-- Behind a mark, or behind no mark, a path in a namespace is of the kind that its end tells. -/
theorem ofPath_below {mark : List Char} (hmark : mark = [] ∨ IsVersionMark mark)
    (h : isNamespace name = true) {rest : List Char}
    (hpath : path.toList = mark ++ ((slashed name).toList ++ '/' :: rest)) :
    EntryKind.ofPath path = endKind path := by
  obtain rfl | ⟨version, -, -, rfl⟩ := hmark
  · exact ofPath_of_not_inMetaInf (not_inMetaInf_of_isNamespace h hpath)
  · refine ofPath_of_version (String.ofList (version ++ '/' :: ((slashed name).toList ++ '/' :: rest))) ?_
    rw [← String.toList_inj, hpath]
    simp [versionsDir]

theorem ofPath_relocatePath (h : rs.relocatePath path = some path') :
    EntryKind.ofPath path' = EntryKind.ofPath path := by
  obtain ⟨r, hr, mark, rest, hsplit, hpath'⟩ := RuleSet.relocatePath_eq_some_iff.mp h
  obtain ⟨hmark, hpath⟩ := mark_of_splitVersioned hsplit
  rw [List.append_assoc] at hpath'
  rw [ofPath_below hmark (rs.isNamespace_target hr) hpath',
    ofPath_below hmark (rs.isNamespace_source hr) hpath]
  rw [← List.append_assoc] at hpath hpath'
  exact endKind_congr hpath' hpath

theorem ofPath_relocateName (h : rs.relocateName name = some name') (hslash : '/' ∉ name.toList) :
    EntryKind.ofPath (servicesDir ++ name') = .serviceFile := by
  obtain ⟨c, cs, hname', -⟩ := RuleSet.exists_cons_of_relocateName h
  apply ofPath_service
  · rintro rfl
    simp at hname'
  · exact RuleSet.notMem_of_relocateName h (by decide) (by decide) hslash

end Paths

section Payloads

variable {rs : RuleSet} {bs out : Bytes}

theorem exists_of_replace (h : rs.replace bs = some out) :
    ∃ c, isSegmentChar c = true ∧ UInt8.ofNat c.toNat ∈ out := by
  have hfind : rs.find bs ≠ none := by
    rw [Ne, ← rs.replace_eq_none_iff, h]
    simp
  rw [Ne, RuleSet.find_eq_none_iff_noReferenceAt] at hfind
  push Not at hfind
  obtain ⟨passed, rest, hbs, href⟩ := hfind
  obtain ⟨sep, -, r, hr, hsub⟩ := (RuleSet.rewrites_of_replace h).exists_target hbs href
  obtain ⟨c, cs, hc, hsegment⟩ := exists_cons_of_isNamespace (rs.isNamespace_target hr)
  refine ⟨c, hsegment, hsub ?_⟩
  rw [hc, spell_cons, if_neg (ne_dot_of_isSegmentChar hsegment)]
  exact List.mem_cons_self

theorem mem_of_mem_replace (h : rs.replace bs = some out) {b : UInt8} (hb : b ∈ out)
    (hname : isNameByte b = false) (hsep : ¬ IsSeparator b) : b ∈ bs := by
  obtain hb | ⟨sep, hsep', r, hr, hb⟩ := (RuleSet.rewrites_of_replace h).mem_or hb
  · exact hb
  · have hspellable := Spellable.of_isNamespace (rs.isNamespace_target hr)
    obtain rfl | hb := eq_sep_or_isNameByte hspellable hb
    · exact absurd hsep' hsep
    · rw [hname] at hb
      exact absurd hb (by decide)

theorem registers_replace (h : rs.replace bs = some out) (hbs : Registrations.Registers bs) :
    Registrations.Registers out where
  noComment hmem := by
    refine hbs.noComment (mem_of_mem_replace h hmem (by decide) ?_)
    unfold IsSeparator
    decide
  named := by
    obtain ⟨c, hc, hmem⟩ := exists_of_replace h
    have hlt := toNat_lt_of_isSegmentChar hc
    have hbyte : (UInt8.ofNat c.toNat).toNat = c.toNat := Utf8.toNat_ofNat_lt (by omega)
    refine ⟨c, ?_, of_isSegmentChar (p := fun c => isBlank c = false) (by decide) hc⟩
    have hread := Utf8.mem_decodeLossy_of_byte hmem (by rw [UInt8.lt_iff_toNat_lt, hbyte]; exact hlt)
    rwa [hbyte, Char.ofNat_toNat] at hread

theorem not_clean_nil : ¬ Clean rs [] := by
  rintro ⟨values, hvalues, -⟩
  simp [ClassFile.utf8Constants, ClassFile.Pool.ofBytes, Bytes.cut?, Except.map] at hvalues

end Payloads

variable {accepts : Bytes → Bool} {rs : RuleSet} {m : Member} {out : Bytes} {r : Relocated} {c : Contents}
  {o o' : Outcome}

theorem kind_of_relocated_path (h : relocateMember accepts rs m = .ok r) (hm : m.Proper) :
    m.kind = .ofPath r.member.path := by
  obtain hpath | ⟨-, hpath⟩ | ⟨hk, name, name', hname, hname', hpath⟩ := path_of_relocateMember h
  · rw [hpath]
    exact hm.kind
  · rw [ofPath_relocatePath hpath]
    exact hm.kind
  · obtain ⟨-, -, hslash⟩ := serviceName?_eq_some_iff.mp hname
    rw [hpath, ofPath_relocateName hname' hslash]
    exact hk

theorem NewPayload.ne_nil (h : NewPayload rs m out) (hm : m.Proper) : out ≠ [] := by
  cases h with
  | clean hk h =>
    rintro rfl
    exact not_clean_nil h
  | replaced hk h =>
    obtain ⟨c, -, hmem⟩ := exists_of_replace h
    exact List.ne_nil_of_mem hmem
  | @providers content hk h =>
    have hcontent : content ∈ [content] := List.mem_cons_self
    exact Registrations.merge_ne_nil hcontent (registers_replace h (hm.registers hk))

theorem NewPayload.registers (h : NewPayload rs m out) (hm : m.Proper)
    (hservice : m.kind = .serviceFile) : Registrations.Registers out := by
  have hne := h.ne_nil hm
  cases h with
  | clean hk h => exact absurd (hk.symm.trans hservice) (by decide)
  | replaced hk h => exact absurd (hk.symm.trans hservice) (by decide)
  | providers hk h => exact Registrations.registers_merge hne

theorem proper_relocateMember (h : relocateMember accepts rs m = .ok r) (hm : m.Proper) :
    r.member.Proper := by
  have hk := kind_of_relocateMember h
  have hpayload : r.member.payload ≠ [] ∧
      (m.kind = .serviceFile → Registrations.Registers r.member.payload) := by
    obtain hsame | hnew := payload_of_relocateMember h
    · rw [hsame]
      exact ⟨hm.nonempty, hm.registers⟩
    · exact ⟨hnew.ne_nil hm, hnew.registers hm⟩
  constructor
  · rw [hk]
    exact kind_of_relocated_path h hm
  · rw [hk]
    exact hm.content
  · exact hpayload.1
  · rw [hk]
    exact hpayload.2

theorem Outcome.proper_add (h : o.add rs r = .ok o') (ho : ∀ m ∈ o.contents.members, m.Proper)
    (hr : r.member.Proper) : ∀ m ∈ o'.contents.members, m.Proper := by
  unfold Outcome.add at h
  cases hi : o.contents.insert? r.member with
  | some contents =>
    rw [hi] at h
    obtain rfl := Except.ok.inj h
    intro m hm
    obtain rfl | hm := (Contents.mem_of_insert? hi).mp hm
    · exact hr
    · exact ho m hm
  | none =>
    obtain ⟨x, hx⟩ := Contents.insert?_eq_none_iff.mp hi
    rw [hi, hx] at h
    dsimp only at h
    split at h
    · next hk =>
      obtain rfl := Except.ok.inj h
      obtain ⟨hxmem, hxpath⟩ := Contents.get?_eq_some_iff.mp hx
      have hservices : x.kind = .serviceFile ∧ r.member.kind = .serviceFile := by simpa using hk
      intro m hm
      obtain hm | ⟨y, hy, hypath, rfl⟩ := Contents.mem_of_mem_setPayload hm
      · exact ho m hm
      · obtain rfl := Contents.eq_of_path hy hxmem (hypath.trans hxpath.symm)
        exact (ho y hy).join hservices.1 _
    · simp at h

theorem proper_relocateWith (h : relocateWith accepts rs c = .ok o)
    (hc : ∀ m ∈ c.members, m.Proper) : ∀ m ∈ o.contents.members, m.Proper := by
  obtain ⟨all, hall, hpass⟩ := relocateWith_eq_ok h
  refine foldlM_preserves (p := fun o => ∀ m ∈ o.contents.members, m.Proper) ?_ (by simp) hpass
  intro r hr o o' ho hadd
  have hmem : Except.ok r ∈ c.members.map (relocateMember accepts rs) :=
    hall ▸ List.mem_map_of_mem ((stayedFirst_perm all).mem_iff.mp hr)
  obtain ⟨e, he, hrelocated⟩ := List.mem_map.mp hmem
  exact o.proper_add hadd ho (proper_relocateMember hrelocated (hc e he))

end FatJar.Relocation
