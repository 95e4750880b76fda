import FatJar.Proofs.Relocation.Conservation

namespace FatJar.Relocation

variable {accepts : Bytes → Bool} {rs : RuleSet} {m : Member} {r : Relocated} {c : Contents}
  {o : Outcome}

/-- A class comes out free of references, or as it is where its constants cannot be read. -/
theorem relocateMember_class (h : relocateMember accepts rs m = .ok r) (hk : m.kind = .classFile) :
    Clean rs r.member.payload ∨
      (∃ e, ClassFile.utf8Constants m.payload = .error e) ∧ r.member = m ∧
        rs.find m.payload = none ∧ rs.relocatePath m.path = none := by
  unfold relocateMember at h
  rw [hk] at h
  obtain ⟨out, hout, rfl⟩ := relocateClass_eq_ok_iff.mp h
  rw [alter_payload]
  rcases replaceInClass_eq_ok_iff.mp hout with
    ⟨rfl, bytes, hreplace⟩ | ⟨rfl, hmoving, hfind, e, hreplace⟩ | ⟨bytes, n, rfl, -, -, hclean, -⟩
  · left
    obtain ⟨values, hvalues, hnone⟩ := ClassFile.utf8Constants_of_unreplaced hreplace
    exact ⟨values, hvalues, fun v hv => (rs.replace_eq_none_iff v).mp (hnone v hv)⟩
  · right
    have hpath : rs.relocatePath m.path = none := by simpa using hmoving
    refine ⟨⟨e, ClassFile.utf8Constants_of_pool_error hreplace⟩, ?_, hfind, hpath⟩
    rw [hpath]
    rfl
  · exact .inl hclean

theorem replaceInClass_of_accepts {moving : Bool} {out : Option (Bytes × Nat)}
    (h : replaceInClass accepts rs m moving = .ok out) :
    replaceInClass (fun _ => true) rs m moving = .ok out := by
  rw [replaceInClass_eq_ok_iff] at h ⊢
  obtain h | h | ⟨bytes, n, hout, hzero, hreplace, hclean, -⟩ := h
  · exact .inl h
  · exact .inr (.inl h)
  · exact .inr (.inr ⟨bytes, n, hout, hzero, hreplace, hclean, rfl⟩)

theorem relocateMember_of_accepts (h : relocateMember accepts rs m = .ok r) :
    relocateMember (fun _ => true) rs m = .ok r := by
  unfold relocateMember at h ⊢
  cases hk : m.kind with
  | classFile =>
    rw [hk] at h
    obtain ⟨out, hout, rfl⟩ := relocateClass_eq_ok_iff.mp h
    exact relocateClass_eq_ok_iff.mpr ⟨out, replaceInClass_of_accepts hout, rfl⟩
  | serviceFile | resource | directory | signature | manifest =>
    rw [hk] at h
    exact h

theorem relocateWith_of_accepts (h : relocateWith accepts rs c = .ok o) :
    relocateWith (fun _ => true) rs c = .ok o := by
  obtain ⟨all, hall, hpass⟩ := relocateWith_eq_ok h
  have hsame : c.members.map (relocateMember (fun _ => true) rs) = all.map .ok := by
    rw [← hall]
    refine List.map_congr_left fun e he => ?_
    have hmem : relocateMember accepts rs e ∈ all.map Except.ok := hall ▸ List.mem_map_of_mem he
    obtain ⟨r, -, hr⟩ := List.mem_map.mp hmem
    rw [← hr, relocateMember_of_accepts hr.symm]
  rw [relocateWith_eq hsame]
  exact hpass

/-- Each class in the output is free of references to a source namespace; one whose constants cannot
be read is the one of the input, in which no reference is found either. -/
theorem relocated_classes_clean (h : relocateWith accepts rs c = .ok o) :
    relocateWith (fun _ => true) rs c = .ok o ∧
      ∀ m ∈ o.contents.members, m.kind = .classFile →
        Clean rs m.payload ∨
          (∃ e, ClassFile.utf8Constants m.payload = .error e) ∧ m ∈ c.members ∧
            rs.find m.payload = none ∧ rs.relocatePath m.path = none := by
  refine ⟨relocateWith_of_accepts h, fun m hm hk => ?_⟩
  have hconserves := conserves_of_relocateWith h
  obtain ⟨e, he, r, hr, hp, hek⟩ := hconserves.nothingElse m hm
  obtain ⟨r', hr', hget⟩ := hconserves.kept e he
  obtain rfl := Except.ok.inj (hr.symm.trans hr')
  have hmr : r.member = m := by
    have hfound := hget (by rw [hek, hk]; decide)
    rw [hp, Contents.get?_eq_some_iff.mpr ⟨hm, rfl⟩] at hfound
    exact (Option.some.inj hfound).symm
  obtain hclean | ⟨hpool, hsame, hfind, hpath⟩ := relocateMember_class hr (hek.trans hk)
  · left
    rw [← hmr]
    exact hclean
  · right
    obtain rfl : e = m := hsame.symm.trans hmr
    exact ⟨hpool, he, hfind, hpath⟩

/-- A class file with the constants `lib/A` and the class of that name. -/
def classBytes : Bytes :=
  [0xCA, 0xFE, 0xBA, 0xBE, 0, 0, 0, 52, 0, 3, 1, 0, 5] ++ utf8 "lib/A" ++ [7, 0, 1] ++
    [0, 33, 0, 2, 0, 0, 0, 0, 0, 0, 0, 0, 0, 0]

def classes : Contents :=
  ⟨[⟨"app/B.class", .classFile, [0], { name := "app" }⟩,
    ⟨"lib/A.class", .classFile, classBytes, { name := "lib" }⟩], by unfold InOrder; decide⟩

theorem two_classes_clean :
    ∃ o, relocateWith ClassFile.isWellFormed shading classes = .ok o ∧
      o.contents.paths = ["app/B.class", "shaded/A.class"] ∧
      ∀ m ∈ o.contents.members, m.kind = .classFile →
        Clean shading m.payload ∨
          (∃ e, ClassFile.utf8Constants m.payload = .error e) ∧ m ∈ classes.members ∧
            shading.find m.payload = none ∧ shading.relocatePath m.path = none := by
  have hrun : (relocateWith ClassFile.isWellFormed shading classes).toOption.map
      (·.contents.paths) = some ["app/B.class", "shaded/A.class"] := by
    decide +kernel
  cases ho : relocateWith ClassFile.isWellFormed shading classes with
  | error f => simp [ho, Except.toOption] at hrun
  | ok o =>
    rw [ho] at hrun
    exact ⟨o, rfl, Option.some.inj hrun, (relocated_classes_clean ho).2⟩

end FatJar.Relocation
