import FatJar.Proofs.Relocation.Overlaps
import FatJar.Proofs.Relocation.Paths
import Mathlib.Data.List.Infix

namespace FatJar.Relocation

/-- What a descriptor that begins with the letter `L` may read of a name. -/
def described? : List Char → Option (List Char)
  | 'L' :: c :: cs => some (c :: cs)
  | _ => none

/-- What a reference may read of a name: all of it, or what follows a letter `L` in it. -/
def readings (name : List Char) : List (List Char) :=
  name :: name.tails.filterMap described?

/-- Rules whose targets are not read together with a source. -/
structure Settled (rs : RuleSet) : Prop where
  target : ∀ a ∈ rs.rules, ∀ b ∈ rs.rules, ∀ x ∈ readings a.target.toList,
    ¬ Related x b.source.toList
  source : ∀ a ∈ rs.rules, ∀ b ∈ rs.rules, ∀ y ∈ readings b.source.toList,
    ¬ Related a.target.toList y
  targetLast : ∀ a ∈ rs.rules, ∀ b ∈ rs.rules, '.' ∉ a.target.toList →
    ¬ '.' :: a.target.toList <:+ b.source.toList
  sourceLast : ∀ a ∈ rs.rules, ∀ b ∈ rs.rules, '.' ∉ b.source.toList → '.' ∈ a.source.toList →
    ¬ '.' :: b.source.toList <:+ a.target.toList

instance (rs : RuleSet) : Decidable (Settled rs) :=
  decidable_of_iff (_ ∧ _ ∧ _ ∧ _)
    ⟨fun h => Settled.mk h.1 h.2.1 h.2.2.1 h.2.2.2, fun h => ⟨h.1, h.2, h.3, h.4⟩⟩

section Readings

variable {x name : List Char}

theorem self_mem_readings (name : List Char) : name ∈ readings name :=
  List.mem_cons_self

theorem mem_readings_of_suffix (hx : x ≠ []) (h : 'L' :: x <:+ name) : x ∈ readings name := by
  refine List.mem_cons_of_mem _ (List.mem_filterMap.mpr ⟨'L' :: x, (List.mem_tails _ _).mpr h, ?_⟩)
  obtain ⟨c, cs, rfl⟩ := List.exists_cons_of_ne_nil hx
  rfl

end Readings

variable {rs : RuleSet} {a b r : Rule} {sep : UInt8} {pre pre' bs rest tail out : Bytes}

section Closing

theorem ClosesBefore.head {name : List Char} (h : ClosesBefore sep name rest) :
    ∀ c ∈ rest.head?, isNameByte c = false := by
  intro c hc
  unfold ClosesBefore at h
  split at h
  · obtain h | ⟨rfl, -⟩ := h
    · rw [h] at hc
      obtain rfl := Option.some.inj hc
      decide
    · simp at hc
  · exact (h c hc).1

theorem Rewrites.head?_eq (h : Rewrites rs pre bs out)
    (hnot : (∀ c ∈ bs.head?, isNameByte c = false) ∨ ∀ c ∈ out.head?, isNameByte c = false) :
    out.head? = bs.head? := by
  cases h with
  | done => rfl
  | keep => rfl
  | @swap _ _ _ sep r hrefers _ =>
    obtain ⟨c, cs, hsource, hc⟩ := head_spell (rs.isNamespace_source hrefers.mem) sep
    obtain ⟨d, ds, htarget, hd⟩ := head_spell (rs.isNamespace_target hrefers.mem) sep
    rw [hsource, htarget] at hnot
    obtain hnot | hnot := hnot
    · rw [hnot c rfl] at hc
      exact absurd hc (by decide)
    · rw [hnot d rfl] at hd
      exact absurd hd (by decide)

end Closing

/-- What stands at the head of a rewritten text stood there before, or is met by the first reference. -/
theorem Rewrites.prefix_cases {y : Bytes} (h : Rewrites rs pre bs out) (hout : out = y ++ tail) :
    (∃ rest, bs = y ++ rest ∧ Rewrites rs (pre ++ y) rest tail) ∨
      ∃ y₁ y₂ sep r rest out', y = y₁ ++ y₂ ∧ y₂ ≠ [] ∧
        bs = y₁ ++ (spell sep r.source.toList ++ rest) ∧ Refers rs sep r (pre ++ y₁) rest ∧
        spell sep r.target.toList ++ out' = y₂ ++ tail ∧
        Rewrites rs (pre ++ y₁ ++ spell sep r.source.toList) rest out' := by
  induction h generalizing y with
  | done pre =>
    obtain ⟨rfl, rfl⟩ := List.append_eq_nil_iff.mp hout.symm
    exact .inl ⟨[], rfl, by simpa using Rewrites.done pre⟩
  | @keep pre bs out c hno htail ih =>
    cases y with
    | nil =>
      rw [List.nil_append] at hout
      rw [← hout, List.append_nil]
      exact .inl ⟨c :: bs, rfl, .keep hno htail⟩
    | cons d y =>
      obtain ⟨rfl, hrest⟩ := List.cons.inj hout
      have hassoc : ∀ z, pre ++ [c] ++ z = pre ++ c :: z := by simp
      rcases ih hrest with ⟨rest, rfl, hrest⟩ |
        ⟨y₁, y₂, sep, r, rest, out', rfl, hne, rfl, hrefers, htarget, hrest⟩
      · exact .inl ⟨rest, rfl, by rwa [hassoc] at hrest⟩
      · refine .inr ⟨c :: y₁, y₂, sep, r, rest, out', rfl, hne, rfl, ?_, htarget, ?_⟩
        · rwa [hassoc] at hrefers
        · rwa [hassoc] at hrest
  | @swap pre rest out sep r hrefers htail ih =>
    cases y with
    | nil =>
      rw [List.nil_append] at hout
      rw [← hout, List.append_nil]
      exact .inl ⟨_, rfl, .swap hrefers htail⟩
    | cons d y =>
      refine .inr ⟨[], d :: y, sep, r, rest, out, rfl, by simp, rfl, ?_, hout, ?_⟩
      · rwa [List.append_nil]
      · rwa [List.append_nil]

/-- No reference begins inside a target that was put in. Here `rest` follows the text that was swapped,
and `out` is what came of `rest`. -/
theorem Settled.noReference_in_target (hs : Settled rs) {before x : Bytes} {t : UInt8}
    (ha : Refers rs sep a pre rest) (hrest : Rewrites rs pre' rest out)
    (hcut : spell sep a.target.toList = before ++ x) (hx : x ≠ [])
    (hb : Refers rs t b (bs ++ before) tail)
    (hmeet : x ++ out = spell t b.source.toList ++ tail) : False := by
  have htarget := rs.isNamespace_target ha.mem
  have hspell := Spellable.of_isNamespace htarget
  have hspell' := Spellable.of_isNamespace (rs.isNamespace_source hb.mem)
  have hout : out.head? = rest.head? := hrest.head?_eq (.inl ha.closes.head)
  have hcloses := (closesBefore_congr hout).mpr ha.closes
  by_cases hbefore : before = []
  · rw [hbefore, List.nil_append] at hcut
    rw [← hcut] at hmeet
    exact hs.target a ha.mem b hb.mem _ (self_mem_readings _)
      (related_of_overlap hspell hspell' ha.isSeparator hb.isSeparator hmeet hcloses.head
        hb.closes.head)
  · obtain ⟨y, rfl, hwhere⟩ :=
      opens_inside htarget ha.isSeparator hb.isSeparator hcut hbefore hb.opens
    have hy : y ≠ [] := by simpa using hx
    obtain ⟨-, hsuffix⟩ | ⟨rfl, rfl, hsuffix⟩ := hwhere
    · have hspell_y : Spellable y := fun c hc => hspell c (hsuffix.subset (by simp [hc]))
      exact hs.target a ha.mem b hb.mem y (mem_readings_of_suffix hy hsuffix)
        (related_of_overlap hspell_y hspell' ha.isSeparator hb.isSeparator hmeet hcloses.head
          hb.closes.head)
    · have hspell_y : Spellable y := fun c hc => hspell c (hsuffix.subset (by simp [hc]))
      obtain ⟨rfl, hone, rfl⟩ := eq_of_mixed_overlap hspell_y hspell' hmeet
        ((closesBefore_slash_iff.mp hcloses).imp_right And.left) (closesBefore_dot_iff.mp hb.closes)
      have hseveral : '.' ∈ a.source.toList :=
        ((closesBefore_slash_iff.mp hcloses).resolve_left (by simp)).2
      exact hs.sourceLast a ha.mem b hb.mem hone hseveral hsuffix

theorem Settled.noReference_into_target (hs : Settled rs) {before x : Bytes} {t : UInt8}
    (hb : Refers rs t b pre' tail) (hcut : spell t b.source.toList = before ++ x)
    (hbefore : before ≠ []) (hx : x ≠ []) (ha : Refers rs sep a (pre ++ before) rest)
    (hrest : Rewrites rs bs rest out)
    (hmeet : spell sep a.target.toList ++ out = x ++ tail) : False := by
  have hsource := rs.isNamespace_source hb.mem
  have hspell := Spellable.of_isNamespace hsource
  have hspell' := Spellable.of_isNamespace (rs.isNamespace_target ha.mem)
  have hout : out.head? = rest.head? := hrest.head?_eq (.inl ha.closes.head)
  have hcloses := (closesBefore_congr hout).mpr ha.closes
  obtain ⟨y, rfl, hwhere⟩ :=
    opens_inside hsource hb.isSeparator ha.isSeparator hcut hbefore ha.opens
  have hy : y ≠ [] := by simpa using hx
  obtain ⟨-, hsuffix⟩ | ⟨rfl, rfl, hsuffix⟩ := hwhere
  · have hspell_y : Spellable y := fun c hc => hspell c (hsuffix.subset (by simp [hc]))
    exact hs.source a ha.mem b hb.mem y (mem_readings_of_suffix hy hsuffix)
      (related_of_overlap hspell' hspell_y ha.isSeparator hb.isSeparator hmeet hcloses.head
        hb.closes.head)
  · have hspell_y : Spellable y := fun c hc => hspell c (hsuffix.subset (by simp [hc]))
    obtain ⟨rfl, hone, -⟩ := eq_of_mixed_overlap hspell_y hspell' hmeet.symm
      ((closesBefore_slash_iff.mp hb.closes).imp_right And.left) (closesBefore_dot_iff.mp hcloses)
    exact hs.targetLast a ha.mem b hb.mem hone hsuffix

/-- What has been passed and what came of it let the same references follow before `bs`. -/
structure Aligned (pre pre' bs : Bytes) : Prop where
  nil : pre = [] ↔ pre' = []
  opens : (∀ sep, IsSeparator sep → OpensAfter sep pre' → OpensAfter sep pre) ∨
    ∀ c ∈ bs.head?, isNameByte c = false

namespace Aligned

theorem append_singleton (h : Aligned pre pre' bs) (c : UInt8) (rest : Bytes) :
    Aligned (pre ++ [c]) (pre' ++ [c]) rest where
  nil := by simp
  opens := by
    have hsole : ∀ p : Bytes, p ++ [c] = [slash] ↔ p = [] ∧ c = slash := by
      simp [List.append_eq_singleton_iff]
    left
    rintro sep (rfl | rfl) hopens
    · rw [opensAfter_slash_iff, hsole, List.getLast?_concat] at hopens ⊢
      rwa [h.nil]
    · rw [opensAfter_dot_iff, List.getLast?_concat] at hopens ⊢
      exact hopens

theorem append_swapped (hr : Refers rs sep r pre rest) (pre' : Bytes) :
    Aligned (pre ++ spell sep r.source.toList) (pre' ++ spell sep r.target.toList) rest where
  nil := by
    have hsource := spell_source_ne_nil hr.mem sep
    have htarget := spell_target_ne_nil hr.mem sep
    rw [List.append_eq_nil_iff, List.append_eq_nil_iff]
    exact ⟨fun h => absurd h.2 hsource, fun h => absurd h.2 htarget⟩
  opens := .inr hr.closes.head

end Aligned

theorem Settled.noReferenceAt_kept (hs : Settled rs) {c : UInt8} (h : Rewrites rs pre bs out)
    (hno : NoReferenceAt rs pre bs) (hbs : bs.head? = some c) (hout : out.head? = some c)
    (hpre : Aligned pre pre' bs) : NoReferenceAt rs pre' out := by
  intro t b tail hmeet hb
  have hsource := rs.isNamespace_source hb.mem
  obtain ⟨d, ds, hspell, hname⟩ := head_spell hsource t
  have hopens : OpensAfter t pre := by
    refine hpre.opens.resolve_right (fun hnot => ?_) t hb.isSeparator hb.opens
    have hc : d = c := by simpa [hmeet, hspell] using hout
    rw [hc, hnot c hbs] at hname
    exact absurd hname (by decide)
  -- A reference here stood here before, or runs into the first target that was put in.
  rcases h.prefix_cases hmeet with ⟨rest, hrest, hrewrites⟩ |
    ⟨y₁, y₂, sep, a, rest, out', hcut, hx, hfirst, ha, htarget, hrewrites⟩
  · have hhead := (hrewrites.head?_eq (.inr hb.closes.head)).symm
    exact hno t b rest hrest ⟨hb.mem, hb.isSeparator, hopens, (closesBefore_congr hhead).mpr hb.closes⟩
  · by_cases hbefore : y₁ = []
    · rw [hbefore, List.append_nil] at ha
      exact hno sep a rest (by rw [hfirst, hbefore, List.nil_append]) ha
    · exact hs.noReference_into_target hb hcut hbefore hx ha hrewrites htarget

theorem Settled.noReferenceAt (hs : Settled rs) (h : Rewrites rs pre bs out)
    (hpre : Aligned pre pre' bs) {passed suffix : Bytes} (hout : out = passed ++ suffix) :
    NoReferenceAt rs (pre' ++ passed) suffix := by
  -- Along the pass; `Aligned` carries what stands before over to what came of it.
  induction h generalizing pre' passed suffix with
  | done =>
    obtain ⟨rfl, rfl⟩ := List.append_eq_nil_iff.mp hout.symm
    exact noReferenceAt_nil _
  | @keep pre bs out c hno htail ih =>
    cases passed with
    | nil =>
      rw [List.nil_append] at hout
      rw [List.append_nil, ← hout]
      exact hs.noReferenceAt_kept (.keep hno htail) hno rfl rfl hpre
    | cons d passed =>
      obtain ⟨rfl, hrest⟩ := List.cons.inj hout
      rw [List.append_cons]
      exact ih (hpre.append_singleton c bs) hrest
  | @swap pre rest out sep a ha htail ih =>
    -- A place behind the target is one of what follows; inside it no reference can begin.
    have hlater := Aligned.append_swapped ha pre'
    obtain ⟨more, rfl, hrest⟩ | ⟨more, hcut, rfl⟩ := List.append_eq_append_iff.mp hout
    · rw [← List.append_assoc]
      exact ih hlater hrest
    · by_cases hmore : more = []
      · have hhere : NoReferenceAt rs (pre' ++ spell sep a.target.toList ++ []) out :=
          ih hlater rfl
        rw [hmore, List.append_nil] at hcut
        rw [List.append_nil, hcut] at hhere
        rwa [hmore, List.nil_append]
      · intro t b tail hmeet hb
        exact hs.noReference_in_target ha htail hcut hmore hb hmeet

theorem Settled.find_replace (hs : Settled rs) (h : rs.replace bs = some out) :
    rs.find out = none := by
  have hpre : Aligned [] [] bs := ⟨Iff.rfl, .inl fun _ _ => id⟩
  exact RuleSet.find_eq_none_iff_noReferenceAt.mpr fun _ _ hout =>
    hs.noReferenceAt (RuleSet.rewrites_of_replace h) hpre hout

def NoTargetAbove (rs : RuleSet) : Prop :=
  ∀ a ∈ rs.rules, ∀ b ∈ rs.rules, ¬ Above a.target.toList b.source.toList

theorem Settled.noTargetAbove (hs : Settled rs) : NoTargetAbove rs :=
  fun a ha b hb habove => hs.target a ha b hb _ (self_mem_readings _) (.inl habove)

section Targets

variable {x y z : List Char} {name : String} {tail : List Char}

theorem related_of_above (hx : Above x z) (hy : Above y z) : Related x y :=
  List.prefix_or_prefix_of_prefix hx hy

theorem above_of_tail? (h : r.tail? name = some tail) : Above r.source.toList name.toList := by
  obtain ⟨hname, hdot⟩ := Rule.tail?_eq_some_iff.mp h
  rw [hname]
  exact above_append_tail _ hdot

theorem related_of_slashed {s t : String} (hs : isNamespace s = true) (ht : isNamespace t = true)
    {below below' : List Char}
    (h : (slashed s).toList ++ '/' :: below = (slashed t).toList ++ '/' :: below') :
    Related s.toList t.toList := by
  have hread : ∀ {name : String}, isNamespace name = true →
      ((slashed name).toList ++ ['/']).map (fun c => if c = '/' then '.' else c) =
        name.toList ++ ['.'] := by
    intro name hname
    rw [List.map_append, map_slashed hname]
    rfl
  have hbegins : ∀ u v : List Char, u ++ ['/'] <+: u ++ '/' :: v := fun u v => ⟨v, by simp⟩
  unfold Related Above
  rw [← hread hs, ← hread ht]
  obtain h | h := List.prefix_or_prefix_of_prefix (hbegins _ below) (h ▸ hbegins _ below')
  · exact .inl (h.map _)
  · exact .inr (h.map _)

theorem exists_below_both {s t : String} (h : Above s.toList t.toList) :
    ∃ below below', (slashed s).toList ++ '/' :: below = (slashed t).toList ++ '/' :: below' := by
  obtain ht | ⟨rest, ht⟩ := h.eq_or_exists
  · exact ⟨[], [], by rw [toList_slashed, toList_slashed, ht]⟩
  · refine ⟨(rest.map fun c => if c = '.' then '/' else c) ++ ['/'], [], ?_⟩
    rw [toList_slashed, toList_slashed, ht]
    simp

theorem above_of_related (ha : a ∈ rs.rules) (hb : b ∈ rs.rules)
    (h : Related a.target.toList b.source.toList) : Above a.target.toList b.source.toList := by
  refine h.resolve_right fun habove => ?_
  have hcovers : b.covers a.target = true :=
    Rule.covers_iff.mpr (habove.eq_or_exists.imp_left String.toList_inj.mp)
  rw [rs.target_not_covered hb ha] at hcovers
  exact absurd hcovers (by decide)

/-- A path moves no second time, whatever it is, exactly when no target lies above a source. -/
theorem relocatePath_settles_iff :
    (∀ path path', rs.relocatePath path = some path' → rs.relocatePath path' = none) ↔
      NoTargetAbove rs := by
  constructor
  · intro h a ha b hb habove
    obtain ⟨below, below', hmeet⟩ := exists_below_both habove
    have hstays := h _ _ (RuleSet.relocatePath_below ha below)
    rw [Rule.slashedTarget, hmeet] at hstays
    have hmoves := RuleSet.relocatePath_below hb below'
    rw [Rule.slashedSource, hstays] at hmoves
    exact absurd hmoves (by simp)
  · intro h path path' hmoved
    rw [Option.eq_none_iff_forall_ne_some]
    intro path'' hagain
    obtain ⟨a, ha, mark, below, hsplit, hpath'⟩ := RuleSet.relocatePath_eq_some_iff.mp hmoved
    obtain ⟨b, hb, mark', below', hsplit', -⟩ := RuleSet.relocatePath_eq_some_iff.mp hagain
    have htarget := rs.isNamespace_target ha
    rw [hpath', List.append_assoc, Rule.slashedTarget,
      splitVersioned_below (mark_of_splitVersioned hsplit).1 htarget] at hsplit'
    exact h a ha b hb (above_of_related ha hb
      (related_of_slashed htarget (rs.isNamespace_source hb) (Prod.mk.inj hsplit').2))

theorem relocateName_settles_iff :
    (∀ name name', rs.relocateName name = some name' → rs.relocateName name' = none) ↔
      NoTargetAbove rs := by
  constructor
  · intro h a ha b hb habove
    obtain ⟨tail, hsource, hdot⟩ := habove.exists_tail
    have hmoved : rs.relocateName (String.ofList (a.source.toList ++ tail)) = some b.source :=
      RuleSet.relocateName_eq_some_iff.mpr ⟨a, ha, tail,
        Rule.tail?_eq_some_iff.mpr ⟨String.toList_ofList, hdot⟩, hsource⟩
    have hagain : rs.relocateName b.source = some b.target :=
      RuleSet.relocateName_eq_some_iff.mpr ⟨b, hb, [],
        Rule.tail?_eq_some_iff.mpr ⟨by simp, by simp⟩, by simp⟩
    rw [h _ _ hmoved] at hagain
    exact absurd hagain (by simp)
  · intro h name name' hmoved
    rw [Option.eq_none_iff_forall_ne_some]
    intro name'' hagain
    obtain ⟨a, ha, tail, htail, hname'⟩ := RuleSet.relocateName_eq_some_iff.mp hmoved
    obtain ⟨b, hb, tail', htail', -⟩ := RuleSet.relocateName_eq_some_iff.mp hagain
    have htarget : Above a.target.toList name'.toList := by
      rw [hname']
      exact above_append_tail _ (Rule.tail?_eq_some_iff.mp htail).2
    exact h a ha b hb (above_of_related ha hb (related_of_above htarget (above_of_tail? htail')))

end Targets

/-- One pass of accepted rules is enough for paths and for names exactly when no target lies above a
source, and for texts when no target is read together with a source. -/
theorem one_pass_settles (rs : RuleSet) :
    ((∀ path path', rs.relocatePath path = some path' → rs.relocatePath path' = none) ↔
        NoTargetAbove rs) ∧
      ((∀ name name', rs.relocateName name = some name' → rs.relocateName name' = none) ↔
        NoTargetAbove rs) ∧
      (Settled rs → NoTargetAbove rs ∧
        ∀ bs out, rs.replace bs = some out → rs.find out = none) :=
  ⟨relocatePath_settles_iff, relocateName_settles_iff,
    fun hs => ⟨hs.noTargetAbove, fun _ _ => hs.find_replace⟩⟩

def vendored : RuleSet :=
  ⟨[⟨"com.vendor.lib", "shaded.vendor.lib"⟩, ⟨"org.other", "shaded.other"⟩], by decide⟩

theorem vendored_settled :
    Settled vendored ∧
      vendored.replace (utf8 "com.vendor.lib.Util") = some (utf8 "shaded.vendor.lib.Util") ∧
      vendored.find (utf8 "shaded.vendor.lib.Util") = none := by
  have hs : Settled vendored := by decide +kernel
  have hreplace : vendored.replace (utf8 "com.vendor.lib.Util") =
      some (utf8 "shaded.vendor.lib.Util") := by
    decide +kernel
  exact ⟨hs, hreplace, ((one_pass_settles vendored).2.2 hs).2 _ _ hreplace⟩

/-- What the first rule puts in stands above the source of the second. -/
def cascading : RuleSet :=
  ⟨[⟨"a", "x"⟩, ⟨"x.y", "z"⟩], by decide⟩

theorem cascading_not_settled :
    cascading.replace (utf8 "a.y.Foo") = some (utf8 "x.y.Foo") ∧
      cascading.find (utf8 "x.y.Foo") = some ⟨"x.y", "z"⟩ ∧
      cascading.relocatePath "a/y/Foo.class" = some "x/y/Foo.class" ∧
      cascading.relocatePath "x/y/Foo.class" = some "z/Foo.class" ∧
      cascading.relocateName "a.y.Foo" = some "x.y.Foo" ∧
      cascading.relocateName "x.y.Foo" = some "z.Foo" := by
  decide +kernel

end FatJar.Relocation
