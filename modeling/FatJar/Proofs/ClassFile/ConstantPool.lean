import FatJar.Proofs.ClassFile.Replacing

namespace FatJar.ClassFile

variable {f : Bytes → Option Bytes} {bs : Bytes} {values : List Bytes} {e : PoolError}

theorem replaceUtf8_of_readable (f : Bytes → Option Bytes) (h : utf8Constants bs = .ok values) :
    (∃ out, replaceUtf8 f bs = .ok ⟨out, values.countP fun v => (f v).isSome⟩) ∨
      ∃ index length, replaceUtf8 f bs = .error (.utf8TooLong index length) := by
  obtain ⟨header, cs, rest, hlaid, rfl⟩ := exists_isLaidOut h
  obtain hfits | ⟨index, length, hfirst⟩ := fits_or_firstTooLong f cs
  · exact .inl ⟨_, replaceUtf8_of_fits hlaid hfits⟩
  · refine .inr ⟨index, length, replaceUtf8_of_firstTooLong ?_⟩
    rwa [Pool.isLaidOut_iff.mp hlaid]

theorem replaceUtf8_of_unreadable (f : Bytes → Option Bytes) (h : utf8Constants bs = .error e) :
    replaceUtf8 f bs = .error (.pool e) ∨
      ∃ index length, replaceUtf8 f bs = .error (.utf8TooLong index length) := by
  obtain ⟨header, cs, -, hpool⟩ := exists_breaksOff h
  obtain hfits | ⟨index, length, hfirst⟩ := fits_or_firstTooLong f cs
  · exact .inl (replaceUtf8_of_broken hpool hfits)
  · refine .inr ⟨index, length, replaceUtf8_of_firstTooLong ?_⟩
    rwa [hpool]

theorem utf8Constants_of_replaced {out : Replaced} (h : replaceUtf8 f bs = .ok out) :
    ∃ values, utf8Constants bs = .ok values ∧
      out.replaced = values.countP fun v => (f v).isSome := by
  cases hread : utf8Constants bs with
  | ok values =>
    obtain ⟨out', hout⟩ | ⟨index, length, htooLong⟩ := replaceUtf8_of_readable f hread
    · obtain rfl := Except.ok.inj (hout.symm.trans h)
      exact ⟨values, rfl, rfl⟩
    · cases htooLong.symm.trans h
  | error e =>
    obtain hpool | ⟨index, length, htooLong⟩ := replaceUtf8_of_unreadable f hread
    · cases hpool.symm.trans h
    · cases htooLong.symm.trans h

/-- A class file in which nothing is replaced can be read, and `f` gives nothing for its constants. -/
theorem utf8Constants_of_unreplaced {out : Bytes} (h : replaceUtf8 f bs = .ok ⟨out, 0⟩) :
    ∃ values, utf8Constants bs = .ok values ∧ ∀ v ∈ values, f v = none := by
  obtain ⟨values, hvalues, hcount⟩ := utf8Constants_of_replaced h
  refine ⟨values, hvalues, fun v hv => ?_⟩
  rw [← Option.not_isSome_iff_eq_none]
  exact List.countP_eq_zero.mp hcount.symm v hv

theorem utf8Constants_of_pool_error (h : replaceUtf8 f bs = .error (.pool e)) :
    utf8Constants bs = .error e := by
  cases hread : utf8Constants bs with
  | ok values =>
    obtain ⟨out, hout⟩ | ⟨index, length, htooLong⟩ := replaceUtf8_of_readable f hread
    · cases hout.symm.trans h
    · cases htooLong.symm.trans h
  | error e' =>
    obtain hpool | ⟨index, length, htooLong⟩ := replaceUtf8_of_unreadable f hread
    · cases hpool.symm.trans h
      rfl
    · cases htooLong.symm.trans h

end FatJar.ClassFile
