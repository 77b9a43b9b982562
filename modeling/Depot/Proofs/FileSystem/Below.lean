import Depot.FileSystem.Basic
import Mathlib.Data.List.Nodup
/-!
# What stands below a position

The entries below a position are found in the order in which the file system keeps them.  No change
reorders them: a new entry comes first, and what is left after a removal stays as it was.

* `mem_below`, `pairwise_below` — the entries below a position;
* `namesBelow_bind`, `namesBelow_unbind` — how a change puts their names in order;
* `namesBelow_of_sublist` — after removals the names are those that are left, in their order.
-/

namespace Depot

namespace FileSystem

variable {fs fs' st st' : FileSystem} {pos pos' names : Position} {entry : Entry}

def namesFrom? (pos pos' : Position) : Option Position :=
  if pos.isPrefixOf pos' && pos' ≠ pos then some (pos'.drop pos.length) else none

theorem namesFrom?_eq_some_iff :
    namesFrom? pos pos' = some names ↔ names ≠ [] ∧ pos' = pos ++ names := by
  rw [namesFrom?]
  constructor
  · intro h
    split at h
    · rename_i hcond
      rw [Bool.and_eq_true, List.isPrefixOf_iff_prefix, decide_eq_true_eq] at hcond
      obtain ⟨⟨rest, rfl⟩, hne⟩ := hcond
      rw [List.drop_left, Option.some.injEq] at h
      subst h
      exact ⟨fun hnil => hne (by rw [hnil, List.append_nil]), rfl⟩
    · cases h
  · rintro ⟨hne, rfl⟩
    have hstarts : pos.isPrefixOf (pos ++ names) = true :=
      List.isPrefixOf_iff_prefix.2 (List.prefix_append ..)
    rw [hstarts, if_pos (by simp [hne]), List.drop_left]

theorem namesFrom?_append (hne : names ≠ []) : namesFrom? pos (pos ++ names) = some names :=
  namesFrom?_eq_some_iff.2 ⟨hne, rfl⟩

theorem below_eq (fs : FileSystem) (pos : Position) :
    fs.below pos =
      fs.entries.pairs.filterMap fun kv =>
        (namesFrom? pos kv.1).map fun names => (names, kv.2) := by
  rw [below]
  apply List.filterMap_congr
  intro kv _
  rw [namesFrom?]
  split
  · rfl
  · rfl

theorem mem_below :
    (names, entry) ∈ fs.below pos ↔ names ≠ [] ∧ fs.at? (pos ++ names) = some entry := by
  rw [below_eq, List.mem_filterMap]
  constructor
  · rintro ⟨⟨pos', entry'⟩, hmem, hsome⟩
    obtain ⟨names', hnames, heq⟩ := Option.map_eq_some_iff.1 hsome
    obtain ⟨hne, rfl⟩ := namesFrom?_eq_some_iff.1 hnames
    cases heq
    refine ⟨hne, ?_⟩
    rw [at?, if_neg (by simp [hne])]
    exact Table.mem_pairs.1 hmem
  · rintro ⟨hne, he⟩
    rw [at?, if_neg (by simp [hne])] at he
    refine ⟨(pos ++ names, entry), Table.mem_pairs.2 he, ?_⟩
    rw [namesFrom?_append hne]
    rfl

theorem pairwise_below (fs : FileSystem) (pos : Position) :
    (fs.below pos).Pairwise fun found found' => found.1 ≠ found'.1 := by
  rw [below_eq, List.pairwise_filterMap]
  refine (List.pairwise_map.1 fs.entries.nodup).imp ?_
  intro kv kv' hne found hfound found' hfound' heq
  obtain ⟨names, hnames, rfl⟩ := Option.map_eq_some_iff.1 hfound
  obtain ⟨names', hnames', rfl⟩ := Option.map_eq_some_iff.1 hfound'
  obtain rfl : names = names' := heq
  exact hne ((namesFrom?_eq_some_iff.1 hnames).2.trans (namesFrom?_eq_some_iff.1 hnames').2.symm)

/-! ## Their names in order -/

/-- The names of the entries below a position, in the order of the file system. -/
def namesBelow (fs : FileSystem) (pos : Position) : List Position := (fs.below pos).map Prod.fst

theorem namesBelow_eq (fs : FileSystem) (pos : Position) :
    fs.namesBelow pos = fs.entries.keys.filterMap (namesFrom? pos) := by
  rw [namesBelow, below_eq, List.map_filterMap, Table.keys, List.filterMap_map]
  apply List.filterMap_congr
  intro kv _
  rw [Function.comp_apply]
  cases namesFrom? pos kv.1 <;> rfl

theorem nodup_namesBelow (fs : FileSystem) (pos : Position) : (fs.namesBelow pos).Nodup :=
  List.pairwise_map.2 (pairwise_below fs pos)

theorem mem_namesBelow :
    names ∈ fs.namesBelow pos ↔ names ≠ [] ∧ fs.at? (pos ++ names) ≠ none := by
  rw [namesBelow, List.mem_map, Option.ne_none_iff_exists']
  constructor
  · rintro ⟨⟨names, entry⟩, hmem, rfl⟩
    obtain ⟨hne, he⟩ := mem_below.1 hmem
    exact ⟨hne, entry, he⟩
  · rintro ⟨hne, entry, he⟩
    exact ⟨(names, entry), mem_below.2 ⟨hne, he⟩, rfl⟩

theorem namesBelow_append (fs : FileSystem) (pos base : Position) :
    fs.namesBelow (pos ++ base) = (fs.namesBelow pos).filterMap (namesFrom? base) := by
  rw [namesBelow_eq, namesBelow_eq, List.filterMap_filterMap]
  apply List.filterMap_congr
  intro pos' _
  apply Option.ext
  intro names
  rw [Option.bind_eq_some_iff, namesFrom?_eq_some_iff]
  constructor
  · rintro ⟨hne, rfl⟩
    rw [List.append_assoc]
    exact ⟨base ++ names, namesFrom?_append (by simp [hne]), namesFrom?_append hne⟩
  · rintro ⟨mid, hmid, hnames⟩
    obtain ⟨-, rfl⟩ := namesFrom?_eq_some_iff.1 hmid
    obtain ⟨hne, rfl⟩ := namesFrom?_eq_some_iff.1 hnames
    exact ⟨hne, (List.append_assoc ..).symm⟩

theorem namesBelow_unbind (fs : FileSystem) (pos names : Position) (hne : names ≠ []) :
    (fs.unbind (pos ++ names)).namesBelow pos = (fs.namesBelow pos).filter (· ≠ names) := by
  have hkeys : (fs.unbind (pos ++ names)).entries.keys =
      fs.entries.keys.filter (· ≠ pos ++ names) := by
    rw [Table.keys, Table.keys, List.filter_map]
    rfl
  rw [namesBelow_eq, namesBelow_eq, hkeys, List.filterMap_filter, List.filter_filterMap]
  apply List.filterMap_congr
  intro pos' _
  by_cases heq : pos' = pos ++ names
  · rw [if_neg (by simp [heq]), heq, namesFrom?_append hne, Option.filter_some, if_neg (by simp)]
  · rw [if_pos (by simp [heq])]
    cases hnames : namesFrom? pos pos' with
    | none => rfl
    | some names' =>
        have hother : names' ≠ names := by
          rintro rfl
          exact heq (namesFrom?_eq_some_iff.1 hnames).2
        rw [Option.filter_some, if_pos (by simp [hother])]

theorem namesBelow_bind (fs : FileSystem) (pos names : Position) (hne : names ≠ [])
    (entry : Entry) :
    (fs.bind (pos ++ names) entry).namesBelow pos =
      names :: (fs.namesBelow pos).filter (· ≠ names) := by
  have hkeys : (fs.bind (pos ++ names) entry).entries.keys =
      (pos ++ names) :: (fs.unbind (pos ++ names)).entries.keys := rfl
  rw [← namesBelow_unbind fs pos names hne, namesBelow_eq, namesBelow_eq, hkeys,
    List.filterMap_cons, namesFrom?_append hne]

theorem namesBelow_allocate (fs : FileSystem) (pos : Position) (f : File) :
    (fs.allocate f).1.namesBelow pos = fs.namesBelow pos := rfl

theorem namesBelow_of_sublist (hsame : fs'.namesBelow pos = fs.namesBelow pos)
    (hst : st.entries.pairs.Sublist fs.entries.pairs)
    (hst' : st'.entries.pairs.Sublist fs'.entries.pairs)
    (hleft : ∀ names, st'.at? (pos ++ names) = none ↔ st.at? (pos ++ names) = none) :
    st'.namesBelow pos = st.namesBelow pos := by
  have hfilter {fs st : FileSystem} (hst : st.entries.pairs.Sublist fs.entries.pairs) :
      st.namesBelow pos = (fs.namesBelow pos).filter (· ∈ st.namesBelow pos) := by
    have hsub : (st.namesBelow pos).Sublist (fs.namesBelow pos) := by
      rw [namesBelow_eq, namesBelow_eq]
      exact (hst.map _).filterMap _
    have hkept := hsub.filter (· ∈ st.namesBelow pos)
    rw [List.filter_eq_self.2 (by simp)] at hkept
    refine hkept.eq_of_length_le ?_
    refine ((nodup_namesBelow fs pos).filter _).length_le_of_subset fun names hnames => ?_
    simpa using (List.mem_filter.1 hnames).2
  have hmem (names : Position) : names ∈ st'.namesBelow pos ↔ names ∈ st.namesBelow pos := by
    rw [mem_namesBelow, mem_namesBelow, ne_eq, ne_eq, hleft]
  rw [hfilter hst', hfilter hst, hsame]
  simp only [hmem]

end FileSystem

end Depot
