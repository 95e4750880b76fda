import FatJar.Merge.Policy
import FatJar.Proofs.Glob.Expr

namespace FatJar.Glob

open FatJar.Glob.Expr

variable {c : Char} {cs ds : List Char} {pre w : Bytes} {t dirs : Token} {ts us : List Token}
  {p q : Parsed} {open? : Option OpenClass} {prev : Option Char}

theorem matches_literal_iff : Matches (Token.literal c).expr w ↔ w = String.utf8EncodeChar c := by
  rw [Token.expr, matches_bytes_iff]

@[simp]
theorem matches_slashByte_iff : Matches slashByte w ↔ w = [0x2F] :=
  matches_bytes_iff

theorem matches_append_iff : Matches (exprOfSequence (ts ++ us)) w ↔
    ∃ u v, Matches (exprOfSequence ts) u ∧ Matches (exprOfSequence us) v ∧ w = u ++ v := by
  induction ts generalizing w with
  | nil => simp [exprOfSequence]
  | cons t ts ih =>
    rw [List.cons_append, exprOfSequence, exprOfSequence, matches_seq_iff]
    constructor
    · rintro ⟨u, _, ht, hrest, rfl⟩
      obtain ⟨v, x, hts, hus, rfl⟩ := ih.mp hrest
      exact ⟨u ++ v, x, .seq ht hts, hus, (List.append_assoc u v x).symm⟩
    · rintro ⟨_, x, hfirst, hus, rfl⟩
      obtain ⟨u, v, ht, hts, rfl⟩ := matches_seq_iff.mp hfirst
      exact ⟨u, v ++ x, ht, ih.mpr ⟨v, x, hts, hus, rfl⟩, List.append_assoc u v x⟩

theorem matches_concat_iff : Matches (exprOfSequence (ts ++ [t])) w ↔
    ∃ u v, Matches (exprOfSequence ts) u ∧ Matches t.expr v ∧ w = u ++ v := by
  simp [matches_append_iff, exprOfSequence, matches_seq_iff]

theorem matches_map_literal_iff : Matches (exprOfSequence (cs.map .literal)) w ↔ w = Utf8.encode cs := by
  induction cs generalizing w with
  | nil => exact matches_empty_iff
  | cons c cs ih =>
    simp only [List.map_cons, exprOfSequence, matches_seq_iff, ih, matches_literal_iff, Utf8.encode_cons]
    constructor
    · rintro ⟨_, _, rfl, rfl, rfl⟩
      rfl
    · rintro rfl
      exact ⟨_, _, rfl, rfl, rfl⟩

namespace Parsed

def base (p : Parsed) : List Token :=
  match p.groups.getLast? with
  | none => p.tokens
  | some g => g.before

theorem base_eq_tokens (h : p.groups = []) : p.base = p.tokens := by
  rw [base, h, List.getLast?_nil]

theorem base_cons (g : Group) (gs : List Group) (ts us : List Token) :
    base ⟨ts, g :: gs⟩ = base ⟨us, g :: gs⟩ := by
  simp [base, List.getLast?_cons]

theorem base_cons_cons (g h : Group) (gs : List Group) (ts us : List Token) :
    base ⟨ts, g :: h :: gs⟩ = base ⟨us, h :: gs⟩ := by
  simp [base, List.getLast?_cons]

/-- Whether all that the tokens outside of groups match begins with `pre`. -/
def Begins (pre : Bytes) (p : Parsed) : Prop :=
  ∀ w, Matches (exprOfSequence p.base.reverse) w → pre <+: w

theorem Begins.of_eq (h : p.Begins pre) (hq : q.base = p.base) : q.Begins pre := by
  rwa [Begins, hq]

theorem Begins.of_cons (h : p.Begins pre) (hq : q.base = t :: p.base) : q.Begins pre := by
  intro w hw
  rw [hq, List.reverse_cons, matches_concat_iff] at hw
  obtain ⟨u, v, hu, -, rfl⟩ := hw
  exact (h u hu).trans (List.prefix_append u v)

theorem Begins.push (h : p.Begins pre) (t : Token) : (p.push t).Begins pre := by
  obtain ⟨tokens, _ | ⟨g, gs⟩⟩ := p
  · exact h.of_cons rfl
  · exact h.of_eq (base_cons g gs _ _)

theorem Begins.pushTwoStars (h : p.Begins pre) : p.pushTwoStars.Begins pre :=
  (h.push .star).push .star

theorem Begins.openGroup (h : p.Begins pre) : p.openGroup.Begins pre := by
  obtain ⟨tokens, _ | ⟨g, gs⟩⟩ := p
  · exact h.of_eq rfl
  · exact h.of_eq (base_cons_cons _ g gs _ _)

theorem Begins.nextBranch (h : p.Begins pre) : p.nextBranch.Begins pre := by
  obtain ⟨tokens, _ | ⟨g, _ | ⟨g', gs⟩⟩⟩ := p
  · exact h.push (.literal ',')
  · exact h.of_eq rfl
  · exact h.of_eq ((base_cons_cons _ g' gs _ tokens).trans (base_cons_cons g g' gs _ _).symm)

theorem Begins.closeGroup (h : p.Begins pre) (hq : p.closeGroup = .ok q) : q.Begins pre := by
  obtain ⟨tokens, _ | ⟨g, _ | ⟨g', gs⟩⟩⟩ := p
  · cases hq
  · obtain rfl := Except.ok.inj hq
    exact h.of_cons rfl
  · obtain rfl := Except.ok.inj hq
    exact h.of_eq (base_cons_cons g g' gs _ _).symm

/-- Whether the last token, if it stands outside of groups, can be just a slash. -/
def CanEndInSlash (p : Parsed) : Prop :=
  p.groups = [] → ∀ t ∈ p.tokens.head?, Matches t.expr [0x2F]

theorem canEndInSlash_push (h : Matches t.expr [0x2F]) : (p.push t).CanEndInSlash := by
  rintro - _ ⟨⟩
  exact h

theorem canEndInSlash_literal (h : some c = some '/') : (p.push (.literal c)).CanEndInSlash := by
  obtain rfl := Option.some.inj h
  exact canEndInSlash_push (matches_literal_iff.mpr rfl)

theorem canEndInSlash_leadingDirs : (p.push .leadingDirs).CanEndInSlash :=
  canEndInSlash_push (by simp [Token.expr])

def IsSlashed (t : Token) : Prop :=
  Matches t.expr [0x2F] ∧ ∀ w, Matches t.expr w → [0x2F] <+: w

theorem isSlashed_closingDirs : IsSlashed .closingDirs := by
  constructor
  · exact .seq (matches_slashByte_iff.mpr rfl) .none
  · intro w hw
    obtain ⟨u, v, hslash, -, rfl⟩ := matches_seq_iff.mp hw
    rw [matches_slashByte_iff.mp hslash]
    exact List.prefix_append _ v

theorem isSlashed_innerDirs : IsSlashed .innerDirs := by
  constructor
  · exact .left (matches_slashByte_iff.mpr rfl)
  · intro w hw
    obtain hslash | hdirs := matches_alt_iff.mp hw
    · exact (matches_slashByte_iff.mp hslash) ▸ List.prefix_rfl
    · obtain ⟨u, v, hslash, -, rfl⟩ := matches_seq_iff.mp hdirs
      rw [matches_slashByte_iff.mp hslash]
      exact List.prefix_append _ v

theorem pushDirs_cases (p : Parsed) (dirs : Token) : p.pushDirs dirs = p ∨
    ∃ t ts, p.tokens = t :: ts ∧ p.pushDirs dirs = ⟨dirs :: ts, p.groups⟩ := by
  rw [pushDirs]
  split
  · exact .inl rfl
  · exact .inl rfl
  · next t ts _ _ htokens => exact .inr ⟨t, ts, htokens, rfl⟩
  · exact .inl rfl

theorem Begins.pushDirs (h : p.Begins pre) (hp : p.CanEndInSlash) (hdirs : IsSlashed dirs) :
    (p.pushDirs dirs).Begins pre := by
  obtain hsame | ⟨t, ts, htokens, hpush⟩ := pushDirs_cases p dirs
  · rwa [hsame]
  rw [hpush]
  obtain ⟨tokens, _ | ⟨g, gs⟩⟩ := p
  · obtain rfl : tokens = t :: ts := htokens
    intro w hw
    obtain ⟨u, v, hu, hv, rfl⟩ := matches_concat_iff.mp (List.reverse_cons ▸ hw)
    -- With just a slash for what `dirs` has replaced, the beginning is there already.
    have hslash : Matches (exprOfSequence (t :: ts).reverse) (u ++ [0x2F]) := by
      rw [List.reverse_cons, matches_concat_iff]
      exact ⟨u, _, hu, hp rfl t rfl, rfl⟩
    exact (h _ hslash).trans ((List.prefix_append_right_inj u).mpr (hdirs.2 v hv))
  · exact h.of_eq (base_cons g gs _ _)

theorem CanEndInSlash.pushDirs (hp : p.CanEndInSlash) (hdirs : IsSlashed dirs) :
    (p.pushDirs dirs).CanEndInSlash := by
  obtain hsame | ⟨t, ts, -, hpush⟩ := pushDirs_cases p dirs
  · rwa [hsame]
  · rw [hpush]
    exact canEndInSlash_push (p := ⟨ts, p.groups⟩) hdirs.1

/-- The invariant of reading on: what is outside of groups begins with `pre`, and a slash before what is to be
read has a token which can be just that. -/
structure Keeps (pre : Bytes) (p : Parsed) (open? : Option OpenClass) (prev : Option Char) : Prop where
  begins : p.Begins pre
  slash : open? = none → prev = some '/' → p.CanEndInSlash

theorem Begins.keeps (h : p.Begins pre) (hc : c ≠ '/') : p.Keeps pre open? (some c) :=
  ⟨h, fun _ hsome => absurd (Option.some.inj hsome) hc⟩

theorem Begins.keeps_inClass {k : OpenClass} (h : p.Begins pre) : p.Keeps pre (some k) prev :=
  ⟨h, nofun⟩

theorem Keeps.literal (h : p.Keeps pre open? prev) (c : Char) :
    (p.push (.literal c)).Keeps pre none (some c) :=
  ⟨h.begins.push _, fun _ => canEndInSlash_literal⟩

/-- Two stars take the place of a token outside of groups only where a slash is before them. -/
theorem Keeps.canEndInSlash (h : p.Keeps pre none prev)
    (hprev : (decide (prev = some '/') ||
      (!p.groups.isEmpty && (decide (prev = some ',') || decide (prev = some '{')))) = true) :
    p.CanEndInSlash := by
  intro hgroups
  have hslash : prev = some '/' := by simpa [hgroups] using hprev
  exact h.slash rfl hslash hgroups

end Parsed

open Parsed

theorem begins_of_parseFrom (h : parseFrom p open? prev cs = .ok q) (hp : p.Keeps pre open? prev) :
    q.Begins pre := by
  fun_induction parseFrom p open? prev cs with
  -- The end of the pattern.
  | case1 => cases h
  | case2 p => exact Except.ok.inj h ▸ hp.begins
  -- Inside of a class.
  | case3 p prev c cs k hclose ih =>
    refine ih h ((hp.begins.push k.close).keeps ?_)
    rintro rfl
    simp at hclose
  | case4 p prev c cs k _ _ ih => exact ih h hp.begins.keeps_inClass
  | case5 => cases h
  | case6 p prev c cs k _ _ k' _ ih => exact ih h hp.begins.keeps_inClass
  | case7 p prev cs ih => exact ih h ((hp.begins.push .any).keeps (by decide))
  -- The beginning of a class.
  | case8 p prev cs ih => exact ih h hp.begins.keeps_inClass
  | case9 p prev cs ih => exact ih h hp.begins.keeps_inClass
  | case10 p prev cs _ _ ih => exact ih h hp.begins.keeps_inClass
  -- Groups and their branches.
  | case11 p prev cs ih => exact ih h (hp.begins.openGroup.keeps (by decide))
  | case12 => cases h
  | case13 p prev cs p' hclose ih => exact ih h ((hp.begins.closeGroup hclose).keeps (by decide))
  | case14 p prev cs ih => exact ih h (hp.begins.nextBranch.keeps (by decide))
  -- Escapes.
  | case15 => cases h
  | case16 p prev d cs ih => exact ih h (hp.literal d)
  -- Two stars at the beginning.
  | case17 p prev _ ih => exact ih h ((hp.begins.push .leadingDirs).keeps (by decide))
  | case18 p prev _ cs ih =>
    exact ih h ⟨hp.begins.push .leadingDirs, fun _ _ => canEndInSlash_leadingDirs⟩
  | case19 p prev _ cs _ _ ih => exact ih h (hp.begins.pushTwoStars.keeps (by decide))
  -- Two stars between slashes or in a group.
  | case20 p prev _ hprev ih =>
    exact ih h ((hp.begins.pushDirs (hp.canEndInSlash hprev) isSlashed_closingDirs).keeps (by decide))
  | case21 p prev _ hprev cs ih =>
    have hslash := hp.canEndInSlash hprev
    exact ih h ⟨hp.begins.pushDirs hslash isSlashed_innerDirs,
      fun _ _ => hslash.pushDirs isSlashed_innerDirs⟩
  | case22 p prev _ hprev d cs _ _ ih =>
    exact ih h ((hp.begins.pushDirs (hp.canEndInSlash hprev) isSlashed_closingDirs).keeps (by decide))
  | case23 p prev _ _ d cs _ _ ih => exact ih h (hp.begins.pushTwoStars.keeps (by decide))
  -- All others.
  | case24 p prev cs _ _ ih => exact ih h (hp.begins.pushTwoStars.keeps (by decide))
  | case25 p prev cs _ ih => exact ih h ((hp.begins.push .star).keeps (by decide))
  | case26 p prev c cs =>
    rename_i ih
    exact ih h (hp.literal c)

/-- Outside of groups a character that is not special stands for itself, but for a brace that closes none. -/
theorem parseFrom_literal (hc : Merge.isGlobChar c = false) (hgroups : p.groups = []) :
    parseFrom p none prev (c :: cs) =
      if c = '}' then .error .unopenedAlternates else parseFrom (p.push (.literal c)) none (some c) cs := by
  rw [parseFrom.eq_def]
  dsimp only
  split
  case h_6 => simp [closeGroup, hgroups]
  case h_7 => simp [nextBranch, hgroups]
  case h_12 => rw [if_neg ‹_›]
  all_goals exact absurd hc (by decide)

theorem parseFrom_literals (hcs : ∀ c ∈ cs, Merge.isGlobChar c = false) (hgroups : p.groups = [])
    (h : parseFrom p none prev (cs ++ ds) = .ok q) :
    parseFrom ⟨(cs.map .literal).reverse ++ p.tokens, []⟩ none (cs.getLast?.or prev) ds = .ok q := by
  induction cs generalizing p prev with
  | nil =>
    obtain ⟨tokens, groups⟩ := p
    obtain rfl : groups = [] := hgroups
    exact h
  | cons c cs ih =>
    rw [List.cons_append, parseFrom_literal (hcs c List.mem_cons_self) hgroups] at h
    split at h
    · cases h
    · have hread := ih (p := p.push (.literal c)) (fun d hd => hcs d (List.mem_cons_of_mem c hd)) hgroups h
      simpa [push, List.getLast?_cons, Option.or_some] using hread

theorem keeps_literals (cs : List Char) :
    Keeps (Utf8.encode cs) ⟨(cs.map .literal).reverse, []⟩ none cs.getLast? := by
  constructor
  · intro w hw
    rw [base_eq_tokens rfl, List.reverse_reverse, matches_map_literal_iff] at hw
    exact hw ▸ List.prefix_rfl
  · rintro - hlast - t ht
    rw [List.head?_reverse, List.getLast?_map, hlast] at ht
    obtain rfl := Option.some.inj ht
    exact matches_literal_iff.mpr rfl

section Pattern

variable {pattern path : String} {g : Glob}

theorem parse_eq_ok (h : parse pattern = .ok ts) :
    ∃ q, parseFrom {} none none pattern.toList = .ok q ∧ q.base.reverse = ts := by
  rw [parse] at h
  split at h
  · cases h
  · next q hq =>
    split at h
    · next hgroups =>
      refine ⟨q, hq, ?_⟩
      rw [base_eq_tokens (List.isEmpty_iff.mp hgroups)]
      exact Except.ok.inj h
    · cases h

/-- What stands before the first special character of a pattern begins all that it matches. -/
theorem prefix_of_parse (hcs : ∀ c ∈ cs, Merge.isGlobChar c = false) (hpattern : pattern.toList = cs ++ ds)
    (h : parse pattern = .ok ts) (hw : Matches (exprOfSequence ts) w) : Utf8.encode cs <+: w := by
  obtain ⟨q, hq, rfl⟩ := parse_eq_ok h
  rw [hpattern] at hq
  have hread := parseFrom_literals hcs rfl hq
  rw [List.append_nil, Option.or_none] at hread
  exact begins_of_parseFrom hread (keeps_literals cs) w hw

theorem parse_literals (hpattern : ∀ c ∈ pattern.toList, Merge.isGlobChar c = false)
    (h : parse pattern = .ok ts) : ts = pattern.toList.map .literal := by
  obtain ⟨q, hq, rfl⟩ := parse_eq_ok h
  rw [← List.append_nil pattern.toList] at hq
  have hread := parseFrom_literals hpattern rfl hq
  obtain rfl := Except.ok.inj hread
  simp [base]

theorem parse_of_ofText (h : ofText pattern = .ok g) : parse pattern = .ok g.tokens := by
  rw [ofText] at h
  cases hparse : parse pattern with
  | error fault =>
    rw [hparse] at h
    cases h
  | ok tokens =>
    rw [hparse] at h
    rw [← Except.ok.inj h]

theorem prefix_of_matchesPath (hcs : ∀ c ∈ cs, Merge.isGlobChar c = false)
    (hpattern : pattern.toList = cs ++ ds) (h : ofText pattern = .ok g) (hpath : g.matchesPath path = true) :
    Utf8.encode cs <+: utf8 path := by
  have hparse := parse_of_ofText h
  rw [matchesPath, Bool.and_eq_true, matchesBytes_iff] at hpath
  by_cases hdirs : g.tokens = [.leadingDirs]
  · -- A lone `**` has nothing before it, or else what is before it would begin the empty text.
    have hnil : Matches (exprOfSequence g.tokens) [] := by
      rw [hdirs]
      exact .seq (.left (.left .empty)) .empty
    exact (prefix_of_parse hcs hpattern hparse hnil).trans List.nil_prefix
  · refine prefix_of_parse hcs hpattern hparse ?_
    rw [← patternExpr.eq_2 g.tokens hdirs]
    exact hpath.1

theorem matchesPath_iff_of_literals (hpattern : ∀ c ∈ pattern.toList, Merge.isGlobChar c = false)
    (h : ofText pattern = .ok g) : g.matchesPath path = true ↔ path = pattern := by
  have htokens : g.tokens = pattern.toList.map .literal := parse_literals hpattern (parse_of_ofText h)
  have hexpr : patternExpr g.tokens = exprOfSequence (pattern.toList.map .literal) := by
    rw [htokens]
    refine patternExpr.eq_2 _ fun hdirs => ?_
    obtain ⟨c, -, hc⟩ := List.mem_map.mp (hdirs ▸ List.mem_singleton_self Token.leadingDirs)
    cases hc
  have hfile : namesFile g.tokens = false := by
    rw [htokens]
    cases pattern.toList <;> simp [namesFile, Token.isLiteral]
  rw [matchesPath, hexpr, hfile, Bool.false_and, Bool.not_false, Bool.and_true, matchesBytes_iff,
    matches_map_literal_iff]
  exact ⟨fun hbytes => String.toList_inj.mp (Utf8.encode_injective hbytes), fun heq => heq ▸ rfl⟩

end Pattern

end FatJar.Glob
