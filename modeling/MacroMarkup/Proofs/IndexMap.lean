import MacroMarkup.Proofs.NodeArena
import Mathlib.Data.List.Dedup

/-! An index that insertions built is the map of what was inserted: it gives back the last
value of every name, lists each name once, in order, and finds the longest name in front of
a text. So does the array of nodes that the same insertions built. -/
namespace MacroMarkup

namespace Forest

variable {α : Type}

/-- The empty name is in no forest. -/
theorem exists_cons_of_get? {forest : Forest α} {name : List Char} {value : α}
    (hGet : forest.get? name = some value) : ∃ c rest, name = c :: rest := by
  refine List.exists_cons_of_ne_nil ?_
  rintro rfl
  rw [get?_nil_name] at hGet
  cases hGet

/-- Every name in a forest that is above a character starts with a greater one. -/
theorem lt_of_get? {c d : Char} {forest : Forest α} (hAbove : forest.Above c)
    (hSorted : forest.Sorted) {rest : List Char} {value : α}
    (hGet : forest.get? (d :: rest) = some value) : c < d := by
  by_contra hNot
  have hBelow : forest.Above d := by
    cases forest with
    | nil => trivial
    | node key _ _ _ => exact lt_of_le_of_lt (not_lt.mp hNot) hAbove
  rw [get?_of_above hBelow hSorted] at hGet
  cases hGet

/-- The listed names are the path to the forest with the names that it holds behind it. -/
theorem mem_toList {forest : Forest α} (hSorted : forest.Sorted) {path name : List Char} {value : α} :
    (name, value) ∈ forest.toList path ↔
      ∃ rest, name = path.reverse ++ rest ∧ forest.get? rest = some value := by
  induction forest generalizing path name with
  | nil => simp [toList, get?_nil]
  | node key held children next ihChildren ihNext =>
      obtain ⟨hAbove, hChildren, hNext⟩ := hSorted
      rw [toList, List.mem_append, List.mem_append, ihChildren hChildren, ihNext hNext]
      constructor
      · rintro ((hOwn | ⟨rest, rfl, hGet⟩) | ⟨rest, rfl, hGet⟩)
        · obtain ⟨value', rfl, hPair⟩ := Option.map_eq_some_iff.mp (Option.mem_toList.mp hOwn)
          cases hPair
          refine ⟨[key], List.reverse_cons, ?_⟩
          rw [get?_cons, if_pos rfl, if_pos rfl]
        · obtain ⟨c, more, rfl⟩ := exists_cons_of_get? hGet
          refine ⟨key :: c :: more, by simp, ?_⟩
          rw [get?_cons, if_pos rfl, if_neg (List.cons_ne_nil c more), hGet]
        · obtain ⟨c, more, rfl⟩ := exists_cons_of_get? hGet
          have hKey : c ≠ key := ne_of_gt (lt_of_get? hAbove hNext hGet)
          exact ⟨c :: more, rfl, by rw [get?_cons, if_neg hKey, hGet]⟩
      · rintro ⟨rest, rfl, hGet⟩
        obtain ⟨c, more, rfl⟩ := exists_cons_of_get? hGet
        rw [get?_cons] at hGet
        split at hGet
        · rename_i hKey
          subst hKey
          split at hGet
          · rename_i hMore
            subst hMore
            refine .inl (.inl ?_)
            rw [hGet]
            simp
          · exact .inl (.inr ⟨more, by simp, hGet⟩)
        · exact .inr ⟨c :: more, rfl, hGet⟩

/-- The names are listed in strictly increasing order. -/
theorem toList_increasing {forest : Forest α} (hSorted : forest.Sorted) (path : List Char) :
    (forest.toList path).Pairwise fun entry later => entry.1 < later.1 := by
  induction forest generalizing path with
  | nil => exact .nil
  | node key held children next ihChildren ihNext =>
      obtain ⟨hAbove, hChildren, hNext⟩ := hSorted
      have hOwn : ∀ entry ∈ (held.map ((key :: path).reverse, ·)).toList,
          entry.1 = path.reverse ++ [key] := by
        intro entry hMem
        obtain ⟨value, -, rfl⟩ := Option.map_eq_some_iff.mp (Option.mem_toList.mp hMem)
        exact List.reverse_cons
      have hBelow : ∀ entry ∈ children.toList (key :: path), ∃ c rest,
          entry.1 = path.reverse ++ key :: c :: rest := by
        rintro ⟨name, value⟩ hMem
        obtain ⟨rest, rfl, hGet⟩ := (mem_toList hChildren).mp hMem
        obtain ⟨c, more, rfl⟩ := exists_cons_of_get? hGet
        exact ⟨c, more, by simp⟩
      have hBehind : ∀ entry ∈ next.toList path, ∃ c rest,
          entry.1 = path.reverse ++ c :: rest ∧ key < c := by
        rintro ⟨name, value⟩ hMem
        obtain ⟨rest, rfl, hGet⟩ := (mem_toList hNext).mp hMem
        obtain ⟨c, more, rfl⟩ := exists_cons_of_get? hGet
        exact ⟨c, more, rfl, lt_of_get? hAbove hNext hGet⟩
      rw [toList, List.pairwise_append, List.pairwise_append]
      refine ⟨⟨by cases held <;> simp, ihChildren hChildren (key :: path), ?_⟩, ihNext hNext path, ?_⟩
      · intro entry hEntry later hLater
        obtain ⟨c, rest, hName⟩ := hBelow later hLater
        rw [hOwn entry hEntry, hName]
        exact List.append_left_lt (List.cons_lt_cons_iff.mpr (.inr ⟨rfl, List.nil_lt_cons c rest⟩))
      · intro entry hEntry later hLater
        obtain ⟨c, rest, hName, hLess⟩ := hBehind later hLater
        have hSide : ∃ more, entry.1 = path.reverse ++ key :: more := by
          rcases List.mem_append.mp hEntry with hEntry | hEntry
          · exact ⟨[], hOwn entry hEntry⟩
          · obtain ⟨d, more, hMore⟩ := hBelow entry hEntry
            exact ⟨d :: more, hMore⟩
        obtain ⟨more, hMore⟩ := hSide
        rw [hMore, hName]
        exact List.append_left_lt (List.cons_lt_cons_iff.mpr (.inl hLess))

/-- The listing has an entry for each value that is stored. -/
theorem length_toList (forest : Forest α) (path : List Char) :
    (forest.toList path).length = forest.size := by
  induction forest generalizing path with
  | nil => rfl
  | node key held children next ihChildren ihNext =>
      rw [toList, List.length_append, List.length_append, ihChildren, ihNext, size]
      cases held <;> rfl

end Forest

namespace PrefixIndex

variable {α : Type} {index : PrefixIndex α}

/-- The listing holds what can be looked up. -/
theorem mem_toList (hSorted : index.forest.Sorted) {name : List Char} {value : α} :
    (name, value) ∈ index.toList ↔ index.get? name = some value := by
  rw [toList, List.mem_append, Forest.mem_toList hSorted, Option.mem_toList]
  cases name with
  | nil => simp [get?, Forest.get?_nil_name]
  | cons c rest => simp [get?]

/-- The listing is ordered by the names. -/
theorem toList_increasing (hSorted : index.forest.Sorted) :
    index.toList.Pairwise fun entry later => entry.1 < later.1 := by
  rw [toList, List.pairwise_append]
  refine ⟨by cases index.empty <;> simp, Forest.toList_increasing hSorted [], ?_⟩
  rintro entry hEntry ⟨name, value⟩ hLater
  obtain ⟨value', -, rfl⟩ := Option.map_eq_some_iff.mp (Option.mem_toList.mp hEntry)
  obtain ⟨rest, rfl, hGet⟩ := (Forest.mem_toList hSorted).mp hLater
  obtain ⟨c, more, rfl⟩ := Forest.exists_cons_of_get? hGet
  exact List.nil_lt_cons c more

theorem length_toList (index : PrefixIndex α) : index.toList.length = index.size := by
  rw [toList, List.length_append, Forest.length_toList, size]
  cases index.empty <;> rfl

/-- No name is listed twice. -/
theorem nodup_names (hSorted : index.forest.Sorted) : (index.toList.map Prod.fst).Nodup := by
  rw [List.Nodup, List.pairwise_map]
  refine (toList_increasing hSorted).imp fun hLess hSame => ?_
  rw [hSame] at hLess
  exact List.lt_irrefl _ hLess

/-- The names of the listing are those that can be looked up. -/
theorem mem_names (hSorted : index.forest.Sorted) {name : List Char} :
    name ∈ index.toList.map Prod.fst ↔ (index.get? name).isSome := by
  rw [List.mem_map, Option.isSome_iff_exists]
  constructor
  · rintro ⟨⟨name, value⟩, hMem, rfl⟩
    exact ⟨value, (mem_toList hSorted).mp hMem⟩
  · rintro ⟨value, hGet⟩
    exact ⟨(name, value), (mem_toList hSorted).mpr hGet, rfl⟩

/-- There are as many names as were inserted, each counted once. -/
theorem size_ofEntries (entries : List (List Char × α)) :
    (ofEntries entries).size = (entries.map Prod.fst).dedup.length := by
  have hSorted := sorted_ofEntries entries
  have hSame : ((ofEntries entries).toList.map Prod.fst).Perm (entries.map Prod.fst).dedup := by
    rw [List.perm_ext_iff_of_nodup (nodup_names hSorted) (List.nodup_dedup _)]
    intro name
    rw [mem_names hSorted, get?_ofEntries, List.lookup_isSome_iff, List.mem_dedup, List.mem_map]
    simp only [List.mem_reverse, beq_iff_eq]
    exact exists_congr fun entry => and_congr_right fun _ => eq_comm
  rw [← length_toList, ← hSame.length_eq, List.length_map]

end PrefixIndex

/-- An arena that holds the same bindings as an index, and has counted them. -/
structure NodeArena.Refines {α : Type} (arena : NodeArena α) (index : PrefixIndex α) : Prop where
  wellFormed : arena.WellFormed
  sorted : index.forest.Sorted
  get? : ∀ name, arena.get? name = index.get? name
  size : arena.size = index.size

namespace NodeArena.Refines

variable {α : Type} {arena : NodeArena α} {index : PrefixIndex α}

/-- The empty arena is the empty index. -/
theorem nil : (NodeArena.nil : NodeArena α).Refines .nil where
  wellFormed := .nil
  sorted := trivial
  get? name := by
    cases name with
    | nil => rfl
    | cons c rest =>
        rw [NodeArena.get?, find?, NodeArena.nil, child?]
        rfl
  size := rfl

/-- One insertion in both gives back the same value, and the arena keeps up with the
index. -/
theorem insert (h : arena.Refines index) (name : List Char) (value : α) :
    (arena.insert name value).1 = (index.insert name value).1 ∧
      (arena.insert name value).2.Refines (index.insert name value).2 := by
  obtain ⟨hReplaced, hWellFormed, hGet, hSize⟩ := h.wellFormed.insert_ok name value
  refine ⟨hReplaced.trans (h.get? name), hWellFormed, PrefixIndex.sorted_insert h.sorted name value,
    fun other => ?_, ?_⟩
  · rw [hGet, PrefixIndex.get?_insert h.sorted, h.get?]
  · rw [hSize, PrefixIndex.size_insert h.sorted, h.get?, h.size]

/-- The run law: by induction on the insertions. -/
theorem ofEntries (entries : List (List Char × α)) :
    (NodeArena.ofEntries entries).Refines (PrefixIndex.ofEntries entries) := by
  induction entries using List.reverseRecOn with
  | nil => exact nil
  | append_singleton entries entry ih =>
      obtain ⟨name, value⟩ := entry
      rw [NodeArena.ofEntries_append_singleton, PrefixIndex.ofEntries_append_singleton]
      exact (ih.insert name value).2

/-- The walk over the stack lists the names in the order of the forest: both lists increase
and have the same members. -/
theorem toList (h : arena.Refines index) : arena.toList = index.toList := by
  obtain ⟨hSorted, hMem⟩ := h.wellFormed.toList_ok
  refine List.Perm.eq_of_pairwise (fun entry later _ _ hLess hMore => ?_) hSorted
    (PrefixIndex.toList_increasing h.sorted) ?_
  · exact absurd (List.lt_trans hLess hMore) (List.lt_irrefl _)
  · refine (List.perm_ext_iff_of_nodup (hSorted.imp ?_)
      ((PrefixIndex.toList_increasing h.sorted).imp ?_)).mpr fun entry => ?_
    · exact fun hLess hSame => List.lt_irrefl _ (hSame ▸ hLess)
    · exact fun hLess hSame => List.lt_irrefl _ (hSame ▸ hLess)
    · rw [hMem entry.1 entry.2, PrefixIndex.mem_toList h.sorted, h.get?]

end NodeArena.Refines

namespace PrefixIndex

variable {α : Type}

/-- An index that insertions built is a map, in which the last value of a name counts.
One more insertion gives back the value that it replaces. Lookups find what the map holds,
and the names are counted and listed once each, in lexicographic order. In front of a text
the longest nonempty name is found, as the text up to a character boundary, or none if no
name stands there. The array of nodes that the same insertions built gives the same
answers, though it finds names by its links, counts them as it goes, and lists them from a
stack. -/
theorem insertions_map (entries : List (List Char × α)) :
    let index := ofEntries entries
    let value? := fun name => entries.reverse.lookup name
    (∀ name value, index.insert name value = (value? name, ofEntries (entries ++ [(name, value)]))) ∧
    (∀ name, index.get? name = value? name ∧ index.contains name = (value? name).isSome) ∧
    index.size = (entries.map Prod.fst).dedup.length ∧
    (index.toList.Pairwise fun entry later => entry.1 < later.1) ∧
    (∀ name value, (name, value) ∈ index.toList ↔ value? name = some value) ∧
    (∀ text : String,
      (∀ length value, index.longest? text.toList = some (length, value) ↔
        ∃ name after, text = String.ofList name ++ after ∧ name.length = length ∧
          String.Pos.Raw.IsValid text ⟨(String.ofList name).utf8ByteSize⟩ ∧
          LongestBound value? text.toList name value) ∧
      (index.longest? text.toList = none ↔
        ∀ name, name ≠ [] → name <+: text.toList → value? name = none)) ∧
    let arena := NodeArena.ofEntries entries
    (∀ name value, arena.insert name value =
      (value? name, NodeArena.ofEntries (entries ++ [(name, value)]))) ∧
    (∀ name, arena.get? name = value? name ∧ arena.contains name = (value? name).isSome) ∧
    arena.size = index.size ∧ arena.isEmpty = index.isEmpty ∧ arena.toList = index.toList ∧
    ∀ text, arena.longest? text = index.longest? text := by
  intro index value?
  have hSorted : index.forest.Sorted := sorted_ofEntries entries
  have hValue : value? = index.get? := funext fun name => (get?_ofEntries entries name).symm
  clear_value value?
  subst hValue
  have hRefines := NodeArena.Refines.ofEntries entries
  refine ⟨fun name value => ?_, fun name => ⟨rfl, rfl⟩, size_ofEntries entries,
    toList_increasing hSorted, fun name value => mem_toList hSorted, fun text =>
    ⟨fun length value => ?_, longest?_eq_none_iff⟩, fun name value => ?_, fun name => ?_,
    hRefines.size, ?_, hRefines.toList, NodeArena.longest?_eq _ _ hRefines.get?⟩
  · rw [ofEntries_append_singleton]
    rfl
  · rw [longest?_eq_some_iff]
    constructor
    · rintro ⟨name, hLongest, hLength⟩
      obtain ⟨after, hAfter⟩ := hLongest.matched
      have hText : text = String.ofList name ++ String.ofList after := by
        rw [← String.ofList_append, hAfter, String.ofList_toList]
      exact ⟨name, _, hText, hLength,
        String.Pos.Raw.isValid_iff_exists_append.mpr ⟨_, _, hText, rfl⟩, hLongest⟩
    · rintro ⟨name, -, -, hLength, -, hLongest⟩
      exact ⟨name, hLongest, hLength⟩
  · rw [NodeArena.ofEntries_append_singleton]
    exact Prod.ext (hRefines.insert name value).1 rfl
  · rw [NodeArena.contains, hRefines.get?]
    exact ⟨rfl, rfl⟩
  · rw [NodeArena.isEmpty, isEmpty, hRefines.size]

end PrefixIndex

end MacroMarkup
