import FatJar.Proofs.Entry.Registrations
import FatJar.Proofs.Lists
import FatJar.Proofs.Text.Lines

namespace FatJar.Registrations

variable {name : List Char} {names : List (List Char)} {payload : Bytes} {payloads : List Bytes}

structure Readable (name : List Char) : Prop where
  ne_nil : name ≠ []
  noComment : '#' ∉ name
  noFeed : '\n' ∉ name
  trimmed : trim name = name

theorem Readable.provider_eq (h : Readable name) : provider name = name := by
  rw [provider, upTo_eq_self h.noComment, h.trimmed]

theorem render_cons (name : List Char) (names : List (List Char)) :
    render (name :: names) =
      Utf8.encode (name ++ '\n' :: names.flatMap fun name => name ++ ['\n']) := by
  rw [render, List.flatMap_cons, List.append_assoc]
  rfl

theorem splitOn_lines (h : ∀ name ∈ names, '\n' ∉ name) :
    (names.flatMap fun name => name ++ ['\n']).splitOn '\n' = names ++ [[]] := by
  induction names with
  | nil => rfl
  | cons name names ih =>
    obtain ⟨hname, hnames⟩ := List.forall_mem_cons.mp h
    rw [List.flatMap_cons, List.append_assoc, List.singleton_append,
      List.splitOn_append_cons_self_of_not_mem hname, ih hnames, List.cons_append]

theorem providers_render (h : ∀ name ∈ names, Readable name) : providers (render names) = names := by
  have hread : names.map provider = names :=
    (List.map_congr_left fun name hname => (h name hname).provider_eq).trans (List.map_id names)
  have hkept : names.filter (fun name => !name.isEmpty) = names :=
    List.filter_eq_self.mpr fun name hname => by simpa using (h name hname).ne_nil
  have hlast : ([[]].map provider).filter (fun name => !name.isEmpty) = [] := rfl
  rw [providers, render, Utf8.decodeLossy_encode, splitOn_lines fun name hname => (h name hname).noFeed,
    List.map_append, hread, List.filter_append, hkept, hlast, List.append_nil]

theorem merge_singleton_render (h : ∀ name ∈ names, Readable name) :
    merge [render names] = render names.eraseDups := by
  rw [merge, List.flatMap_singleton, providers_render h]

theorem merge_pair_render {more : List (List Char)} (h : ∀ name ∈ names, Readable name)
    (hmore : ∀ name ∈ more, Readable name) :
    merge [render names, render more] = render (names ++ more).eraseDups := by
  rw [merge, List.flatMap_cons, List.flatMap_singleton, providers_render h, providers_render hmore]

theorem foldl_merge_render {lists : List (List (List Char))} (hnodup : names.Nodup)
    (h : ∀ name ∈ names, Readable name) (hlists : ∀ more ∈ lists, ∀ name ∈ more, Readable name) :
    lists.foldl (fun payload more => merge [payload, render more]) (render names) =
      render (names ++ lists.flatten).eraseDups := by
  induction lists generalizing names with
  | nil => rw [List.flatten_nil, List.append_nil, eraseDups_of_nodup hnodup, List.foldl_nil]
  | cons more lists ih =>
    obtain ⟨hmore, hlists⟩ := List.forall_mem_cons.mp hlists
    have hboth : ∀ name ∈ (names ++ more).eraseDups, Readable name := by
      intro name hname
      obtain hname | hname := List.mem_append.mp (List.mem_eraseDups.mp hname)
      · exact h name hname
      · exact hmore name hname
    rw [List.foldl_cons, merge_pair_render h hmore, ih (nodup_eraseDups _) hboth hlists,
      eraseDups_eraseDups_append, List.flatten_cons, List.append_assoc]

section Grouping

theorem readable_of_mem_providers (h : name ∈ providers payload) : Readable name := by
  obtain ⟨hcomment, -⟩ := of_mem_providers h
  obtain ⟨hname, hne⟩ := List.mem_filter.mp h
  obtain ⟨line, hline, rfl⟩ := List.mem_map.mp hname
  refine ⟨by simpa using hne, hcomment, fun hfeed => ?_, trim_trim _⟩
  have hmem : '\n' ∈ line := (List.takeWhile_sublist _).subset (mem_of_mem_trim hfeed)
  exact (part_of_mem hline).1 hmem

theorem readable_of_mem_flatMap (h : name ∈ (payloads.flatMap providers).eraseDups) : Readable name := by
  obtain ⟨payload, -, hmem⟩ := List.mem_flatMap.mp (List.mem_eraseDups.mp h)
  exact readable_of_mem_providers hmem

theorem providers_merge (payloads : List Bytes) :
    providers (merge payloads) = (payloads.flatMap providers).eraseDups :=
  providers_render fun _ => readable_of_mem_flatMap

theorem merge_append_merge (before xs after : List Bytes) :
    merge (before ++ merge xs :: after) = merge (before ++ xs ++ after) := by
  have hnames : (before.flatMap providers ++ (xs.flatMap providers).eraseDups ++
        after.flatMap providers).eraseDups =
      (before.flatMap providers ++ xs.flatMap providers ++ after.flatMap providers).eraseDups := by
    rw [← eraseDups_eraseDups_append, eraseDups_append_eraseDups, eraseDups_eraseDups_append]
  rw [merge, List.flatMap_append, List.flatMap_cons, providers_merge, ← List.append_assoc, hnames,
    ← List.flatMap_append, ← List.flatMap_append]
  rfl

theorem merge_append (xs ys : List Bytes) : merge (xs ++ ys) = merge [merge xs, merge ys] := by
  have hfirst := merge_append_merge [] xs [merge ys]
  have hsecond := merge_append_merge xs ys []
  rw [List.append_nil] at hsecond
  rw [← hsecond]
  exact hfirst.symm

theorem merge_append_self (payloads : List Bytes) : merge (payloads ++ payloads) = merge payloads := by
  rw [merge, List.flatMap_append, eraseDups_append_self]
  rfl

/-- A file that names a provider on each line, no two the same. -/
structure Listing (payload : Bytes) (names : List (List Char)) : Prop where
  distinct : names.Nodup
  readable : ∀ name ∈ names, Readable name
  written : payload = Utf8.encode (names.flatMap fun name => name ++ ['\n'])

theorem listing_merge (payloads : List Bytes) :
    Listing (merge payloads) (payloads.flatMap providers).eraseDups where
  distinct := nodup_eraseDups _
  readable _ := readable_of_mem_flatMap
  written := rfl

/-- However service files are grouped, merging comes to the same. What it makes is text of one name on each
line and no name twice, which merging again leaves as it is. -/
theorem merge_regroups :
    (∀ xs ys, merge (xs ++ ys) = merge [merge xs, merge ys]) ∧
      (∀ x y z, merge [merge [x, y], z] = merge [x, merge [y, z]]) ∧
      (∀ xs, merge [merge xs] = merge xs ∧ merge [merge xs, merge xs] = merge xs) ∧
      ∀ xs, Utf8.isValid (merge xs) = true ∧ ∃ names, Listing (merge xs) names := by
  refine ⟨merge_append, fun x y z => ?_, fun xs => ⟨?_, ?_⟩, fun xs => ⟨?_, ?_⟩⟩
  · have hleft := merge_append_merge [] [x, y] [z]
    have hright := merge_append_merge [x] [y, z] []
    exact hleft.trans hright.symm
  · have halone := merge_append_merge [] xs []
    rwa [List.nil_append, List.append_nil] at halone
  · rw [← merge_append, merge_append_self]
  · rw [(listing_merge xs).written, Utf8.isValid_encode]
  · exact ⟨_, listing_merge xs⟩

example :
    merge ["a.B # old\r\n\ta.C".toUTF8.toList, [0xFF, 0x0A] ++ "a.B\n".toUTF8.toList] =
      "a.B\na.C\n\uFFFD\n".toUTF8.toList := by
  decide +kernel

end Grouping

end FatJar.Registrations
