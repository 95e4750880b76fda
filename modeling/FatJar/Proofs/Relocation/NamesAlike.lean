import FatJar.Manifest.Synthesis
import FatJar.Proofs.Relocation.LineBreaks
import FatJar.Proofs.Relocation.Providers

namespace FatJar.Relocation

variable {rs : RuleSet} {r : Rule} {sep : UInt8} {pre bs rest : Bytes} {name : String}

section Alone

theorem spelling_of_notMem (h : slash ∉ bs) {o : Occurrence} (ho : o ∈ selectedAfter rs pre bs) :
    o.spelling = .dotted := by
  obtain ⟨passed, rest, rfl, hat⟩ := mem_occurrencesAfter_iff.mp (mem_of_mem_selectFrom ho)
  obtain ⟨l, after, rfl, -, rfl⟩ := exists_of_occurrenceAt? hat
  have htext : slash ∉ l.text := fun hmem => h (by simp [hmem])
  have hafter : after.head? ≠ some slash := by
    intro hhead
    obtain ⟨more, rfl⟩ := List.head?_eq_some_iff.mp hhead
    exact h (by simp)
  simp [occurrence, Occurrence.spelling, htext, hafter]

theorem slash_notMem_utf8 (h : IsDotted name.toList) : slash ∉ utf8 name :=
  slash_notMem_encode h

theorem utf8_append_newline (name : String) :
    utf8 name ++ [newline] = Registrations.render [name.toList] := by
  rw [Registrations.render, List.flatMap_singleton, Utf8.encode_append, encode_newline]
  rfl

theorem rewrites_line (h : IsDotted name.toList) (hpre : AtLine pre) :
    Rewrites rs pre (utf8 name ++ [newline]) (utf8 (rs.newName name) ++ [newline]) := by
  have hpass : Rewrites rs pre (utf8 name ++ [newline]) _ := rewrites_spliceFrom pre _
  rw [utf8_append_newline] at hpass ⊢
  have hlines := hpass.lines hpre (List.forall_mem_singleton.mpr h)
  rw [hlines, List.map_singleton, renamed, String.ofList_toList] at hpass
  rwa [utf8_append_newline]

theorem rewritten_dotted (h : IsDotted name.toList) :
    rs.rewritten (utf8 name) = utf8 (rs.newName name) := by
  have hend := (rs.rewrites_rewritten (utf8 name)).append_newline fun o ho _ =>
    spelling_of_notMem (slash_notMem_utf8 h) ho
  have hline : Rewrites rs [] (utf8 name ++ [newline]) (utf8 (rs.newName name) ++ [newline]) :=
    rewrites_line h fun b hb => nomatch hb
  exact List.append_cancel_right (hline.unique hend)

theorem refers_of_tail? (hr : r ∈ rs.rules) {tail : List Char} (h : r.tail? name = some tail) :
    Refers rs dot r [] (Utf8.encode tail) := by
  have hdot := (Rule.tail?_eq_some_iff.mp h).2
  refine (Refers.before_newline_iff (fun _ => rfl) []).mp ⟨hr, .inr rfl, ?_, ?_⟩
  · exact opensAfter_dot_iff.mpr fun b hb => nomatch hb
  · have hcloses := closes_of_tail hdot r.source.toList []
    rwa [List.append_nil, Utf8.encode_append, encode_newline] at hcloses

theorem noReferenceAt_dotted (h : IsDotted name.toList) (hnone : rs.relocateName name = none)
    (hcut : utf8 name = pre ++ bs) : NoReferenceAt rs pre bs := by
  have hslash : slash ∉ bs := fun hmem =>
    slash_notMem_utf8 h (hcut ▸ List.mem_append_right pre hmem)
  obtain rfl | ⟨init, b, rfl⟩ := List.eq_nil_or_concat' pre
  · intro sep r rest hbs hrefers
    have hline : NoReferenceAt rs [] (Utf8.encode (name.toList ++ '\n' :: [])) := by
      refine noReferenceAt_line h ?_ (by rwa [String.ofList_toList])
      have hno := slash_notMem_render (List.forall_mem_singleton.mpr h)
      rwa [Registrations.render_cons] at hno
    have hdotted : rest = [] → sep = dot := by
      intro _
      refine hrefers.isSeparator.resolve_left ?_
      rintro rfl
      exact not_refers_slash (hbs ▸ hslash) hrefers
    refine hline sep r (rest ++ newline :: []) ?_ ((Refers.before_newline_iff hdotted []).mpr hrefers)
    rw [Utf8.encode_append, encode_newline, ← List.append_assoc, ← hbs]
    exact congrArg (· ++ [newline]) hcut
  · refine noReferenceAt_inside hslash (List.getLast?_concat) (inside_of_mem_encode h (b := b) ?_)
    have hmem : b ∈ utf8 name := by simp [hcut]
    exact hmem

theorem replace_dotted_eq_none_iff (h : IsDotted name.toList) :
    rs.replace (utf8 name) = none ↔ rs.relocateName name = none := by
  rw [rs.replace_eq_none_iff, RuleSet.find_eq_none_iff_noReferenceAt]
  constructor
  · intro hno
    rw [Option.eq_none_iff_forall_ne_some]
    intro name' hmoved
    obtain ⟨r, hr, tail, htail, -⟩ := RuleSet.relocateName_eq_some_iff.mp hmoved
    have hname : utf8 name = spell dot r.source.toList ++ Utf8.encode tail := by
      rw [← utf8_eq_spell (rs.isNamespace_source hr), utf8, (Rule.tail?_eq_some_iff.mp htail).1,
        Utf8.encode_append, utf8]
    exact hno [] (utf8 name) rfl dot r _ hname (refers_of_tail? hr htail)
  · exact fun hnone pre bs hcut => noReferenceAt_dotted h hnone hcut

theorem replace_dotted (h : IsDotted name.toList) :
    rs.replace (utf8 name) = (rs.relocateName name).map utf8 := by
  have hnone : rs.replace (utf8 name) = none ↔ rs.relocateName name = none :=
    replace_dotted_eq_none_iff h
  have hnew : rs.rewritten (utf8 name) = utf8 (rs.newName name) := rewritten_dotted h
  rw [RuleSet.rewritten, RuleSet.newName] at hnew
  cases hmoved : rs.relocateName name with
  | none => exact hnone.mpr hmoved
  | some name' =>
    obtain ⟨out, hout⟩ : ∃ out, rs.replace (utf8 name) = some out := by
      rw [← Option.ne_none_iff_exists', Ne, hnone, hmoved]
      exact Option.some_ne_none name'
    rw [hmoved, hout, Option.getD_some, Option.getD_some] at hnew
    rw [hout, hnew, Option.map_some]

theorem textOf_utf8 (text : String) : textOf (utf8 text) = text := by
  rw [textOf, utf8, Utf8.decodeLossy_encode, String.ofList_toList]

theorem replaceInText_dotted (h : IsDotted name.toList) : rs.replaceInText name = rs.newName name := by
  rw [RuleSet.replaceInText, replace_dotted h, RuleSet.newName]
  cases rs.relocateName name with
  | none => rfl
  | some name' => exact textOf_utf8 name'

end Alone

/-- The line of a name is given its new form, and the lines above and below become what they become
without it. -/
theorem rewritten_line (h : IsDotted name.toList) {above : Bytes} (habove : AtLine above) (below : Bytes) :
    ∃ below', rs.rewritten (newline :: below) = newline :: below' ∧
      rs.rewritten (above ++ (utf8 name ++ newline :: below)) =
        rs.rewritten above ++ (utf8 (rs.newName name) ++ newline :: below') := by
  obtain ⟨below', hbelow, hlast⟩ :=
    (rs.rewrites_rewritten (newline :: below)).of_keep (noReferenceAt_newline [] below)
  have hline : Rewrites rs above _ _ := rewrites_line h habove
  have hlines := hline.append_lines (atLine_concat _) <|
    by simpa only [List.append_assoc] using hlast.after_newline (above ++ utf8 name)
  have hall := (rs.rewrites_rewritten above).append_lines habove hlines
  simp only [List.append_assoc, List.singleton_append] at hall
  exact ⟨below', hbelow, RuleSet.rewritten_of_rewrites hall⟩

/-- Wherever a dotted name stands, it is given the same new form or stays as it is. -/
structure RenamedAlike (rs : RuleSet) (name : String) : Prop where
  alone : rs.replace (utf8 name) = (rs.relocateName name).map utf8
  entryPoint : ∀ m : OutputManifest, m.entryPoint = name →
    (m.relocate rs).entryPoint = rs.newName name
  value : ∀ m : OutputManifest, ∀ key, (key, name) ∈ m.attributes.pairs →
    (key, rs.newName name) ∈ (m.relocate rs).attributes.pairs
  service : ∀ m : Member, serviceName? m.path = some name →
    (relocateServiceFile rs m).member.path = servicesDir ++ rs.newName name
  line : ∀ above below : Bytes, AtLine above → ∃ below',
    rs.rewritten (newline :: below) = newline :: below' ∧
      rs.rewritten (above ++ (utf8 name ++ newline :: below)) =
        rs.rewritten above ++ (utf8 (rs.newName name) ++ newline :: below')

/-- A name with dots between its parts is renamed alike as text and as a name. -/
theorem renamed_alike (rs : RuleSet) (h : IsDotted name.toList) : RenamedAlike rs name where
  alone := replace_dotted h
  entryPoint m hm := by
    rw [OutputManifest.relocate, hm, replaceInText_dotted h]
  value m key hkey := by
    rw [← replaceInText_dotted h]
    exact List.mem_map_of_mem (f := fun p => (p.1, rs.replaceInText p.2)) hkey
  service m hm := path_relocateServiceFile hm
  line above below habove := rewritten_line h habove below

def nestedSources : RuleSet :=
  ⟨[⟨"lib", "shaded.lib"⟩, ⟨"com.vendor", "shaded.vendor"⟩], by decide⟩

/-- The source that a name begins with is replaced, and the one inside of it is not. -/
theorem nested_renamed_alike :
    IsDotted "lib.com.vendor.Übung$1".toList ∧
      nestedSources.relocateName "lib.com.vendor.Übung$1" = some "shaded.lib.com.vendor.Übung$1" ∧
      RenamedAlike nestedSources "lib.com.vendor.Übung$1" := by
  have h : IsDotted "lib.com.vendor.Übung$1".toList := by decide +kernel
  exact ⟨h, by decide +kernel, renamed_alike nestedSources h⟩

end FatJar.Relocation
