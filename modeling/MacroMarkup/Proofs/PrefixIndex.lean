import MacroMarkup.PrefixIndex
import Mathlib.Data.Char
import Mathlib.Data.List.Induction

/-! The index as a map: what a lookup of a whole name finds after an insertion,
and which of the stored names a walk along a text ends on. -/
namespace MacroMarkup

/-- Of keys that do not repeat each is bound to the value that it is paired with. -/
theorem lookup_eq_some_iff_mem {κ β : Type} [DecidableEq κ] {pairs : List (κ × β)}
    (hDistinct : (pairs.map Prod.fst).Nodup) {key : κ} {value : β} :
    pairs.lookup key = some value ↔ (key, value) ∈ pairs := by
  induction pairs with
  | nil => simp
  | cons pair pairs ih =>
      obtain ⟨param, arg⟩ := pair
      rw [List.map_cons, List.nodup_cons] at hDistinct
      rw [List.lookup_cons, List.mem_cons, Prod.mk.injEq]
      by_cases hName : key = param
      · subst hName
        have hOnce : (key, value) ∉ pairs := fun hMem =>
          hDistinct.1 (List.mem_map.mpr ⟨_, hMem, rfl⟩)
        simp [hOnce, eq_comm]
      · rw [beq_eq_false_iff_ne.mpr hName, ih hDistinct.2]
        simp [hName]

namespace Forest

variable {α : Type}

/-- No tree of the forest starts with this character or a smaller one. Only the
first is asked, since siblings increase. -/
def Above (c : Char) : Forest α → Prop
  | nil => True
  | node key _ _ _ => c < key

/-- Siblings increase strictly, at every level. -/
def Sorted : Forest α → Prop
  | nil => True
  | node key _ children next => next.Above key ∧ children.Sorted ∧ next.Sorted

theorem get?_nil_name (forest : Forest α) : forest.get? [] = none := by
  cases forest <;> rfl

theorem get?_nil (name : List Char) : (nil : Forest α).get? name = none := by
  cases name <;> rfl

theorem get?_cons (c key : Char) (rest : List Char) (value : Option α) (children next : Forest α) :
    (node key value children next).get? (c :: rest) =
      if c = key then if rest = [] then value else children.get? rest
      else next.get? (c :: rest) := by
  cases rest <;> simp [get?]

theorem single_cons (value : α) (c : Char) (rest : List Char) :
    single value (c :: rest) =
      node c (if rest = [] then some value else none) (single value rest) nil := by
  cases rest <;> simp [single]

/-- A name is inserted below the node with its first character, or in front of the first node
with a greater one. -/
theorem insert_cons (value : α) (c key : Char) (rest : List Char) (held : Option α)
    (children next : Forest α) :
    (node key held children next).insert value (c :: rest) =
      if c = key then
        if rest = [] then node key (some value) children next
        else node key held (children.insert value rest) next
      else if c < key then
        node c (if rest = [] then some value else none) (single value rest)
          (node key held children next)
      else node key held children (next.insert value (c :: rest)) := by
  cases rest <;> simp [insert, single]

theorem insert_nil (value : α) (c : Char) (rest : List Char) :
    (nil : Forest α).insert value (c :: rest) = single value (c :: rest) := by
  rw [insert]
  simp

/-- In a sorted forest no name starts with a character that all nodes are above. -/
theorem get?_of_above {c : Char} {forest : Forest α} (hAbove : forest.Above c)
    (hSorted : forest.Sorted) (rest : List Char) : forest.get? (c :: rest) = none := by
  induction forest with
  | nil => rfl
  | node key value children next _ ih =>
      have hNe : c ≠ key := ne_of_lt hAbove
      have hNext : next.Above c := by
        cases next with
        | nil => trivial
        | node key' _ _ _ => exact lt_trans hAbove hSorted.1
      rw [get?_cons, if_neg hNe]
      exact ih hNext hSorted.2.2

/-- A single path holds one name. -/
theorem get?_single (value : α) {name : List Char} (hName : name ≠ []) (name' : List Char) :
    (single value name).get? name' = if name' = name then some value else none := by
  induction name generalizing name' with
  | nil => exact absurd rfl hName
  | cons c rest ih =>
      cases name' with
      | nil => simp [get?_nil_name]
      | cons d rest' =>
          rw [single_cons, get?_cons, get?_nil]
          by_cases hHead : d = c
          · rw [if_pos hHead, hHead]
            by_cases hRest : rest = []
            · subst hRest
              cases rest' <;> simp [single, get?_nil]
            · rw [ih hRest]
              cases rest' with
              | nil => simp [hRest, Ne.symm hRest]
              | cons e rest' => simp
          · simp [hHead]

/-- A single path is sorted. -/
theorem sorted_single (value : α) (name : List Char) : (single value name).Sorted := by
  induction name with
  | nil => trivial
  | cons c rest ih =>
      rw [single_cons]
      exact ⟨trivial, ih, trivial⟩

/-- A name that starts above stays above what was inserted. -/
theorem above_insert {c : Char} {forest : Forest α} (hAbove : forest.Above c) (value : α)
    {d : Char} (hLt : c < d) (rest : List Char) : (forest.insert value (d :: rest)).Above c := by
  cases forest with
  | nil =>
      rw [insert_nil, single_cons]
      exact hLt
  | node key held children next =>
      rw [insert_cons]
      split
      · split <;> exact hAbove
      · split
        · exact hLt
        · exact hAbove

/-- Insertion keeps the siblings in order. -/
theorem sorted_insert (value : α) (name : List Char) {forest : Forest α}
    (hSorted : forest.Sorted) : (forest.insert value name).Sorted := by
  induction forest generalizing name with
  | nil =>
      cases name with
      | nil => exact hSorted
      | cons c rest =>
          rw [insert_nil]
          exact sorted_single value _
  | node key held children next ihChildren ihNext =>
      cases name with
      | nil => exact hSorted
      | cons c rest =>
          rw [insert_cons]
          split
          · split
            · exact hSorted
            · exact ⟨hSorted.1, ihChildren rest hSorted.2.1, hSorted.2.2⟩
          · rename_i hNe
            split
            · rename_i hLt
              exact ⟨hLt, sorted_single value rest, hSorted⟩
            · rename_i hNotLt
              have hAbove : key < c := lt_of_le_of_ne (not_lt.mp hNotLt) (Ne.symm hNe)
              exact ⟨above_insert hSorted.1 value hAbove rest, hSorted.2.1, ihNext _ hSorted.2.2⟩

/-- An insertion changes what one name is bound to. -/
theorem get?_insert (value : α) {name : List Char} (hName : name ≠ []) {forest : Forest α}
    (hSorted : forest.Sorted) (name' : List Char) :
    (forest.insert value name).get? name' = if name' = name then some value else forest.get? name' := by
  induction forest generalizing name name' with
  | nil =>
      cases name with
      | nil => exact absurd rfl hName
      | cons c rest => rw [insert_nil, get?_single value hName, get?_nil]
  | node key held children next ihChildren ihNext =>
      cases name with
      | nil => exact absurd rfl hName
      | cons c rest =>
          cases name' with
          | nil => simp [get?_nil_name]
          | cons d rest' =>
              rw [insert_cons]
              split
              · rename_i hKey
                subst hKey
                by_cases hRest : rest = []
                · subst hRest
                  rw [if_pos rfl, get?_cons, get?_cons]
                  by_cases hHead : d = c <;> cases rest' <;> simp [hHead]
                · rw [if_neg hRest, get?_cons, get?_cons, ihChildren hRest hSorted.2.1]
                  by_cases hHead : d = c
                  · cases rest' with
                    | nil => simp [hHead, Ne.symm hRest]
                    | cons e rest' => simp [hHead]
                  · simp [hHead]
              · rename_i hKey
                split
                · rename_i hLt
                  have hBelow : (node key held children next).Above c := hLt
                  rw [get?_cons]
                  by_cases hHead : d = c
                  · subst hHead
                    rw [if_pos rfl, get?_of_above hBelow hSorted]
                    by_cases hRest : rest = []
                    · subst hRest
                      cases rest' <;> simp [single, get?_nil]
                    · rw [get?_single value hRest]
                      cases rest' with
                      | nil => simp [hRest, Ne.symm hRest]
                      | cons e rest' => simp
                  · simp [hHead]
                · rw [get?_cons, get?_cons, ihNext (by simp) hSorted.2.2]
                  by_cases hHead : d = key
                  · subst hHead
                    have hNe : ¬ (d :: rest' = c :: rest) := by
                      intro hEq
                      exact hKey (List.cons.inj hEq).1.symm
                    simp [hNe]
                  · simp [hHead]

/-- A single path holds one value. -/
theorem size_single (value : α) {name : List Char} (hName : name ≠ []) :
    (single value name).size = 1 := by
  induction name with
  | nil => exact absurd rfl hName
  | cons c rest ih =>
      rw [single_cons]
      by_cases hRest : rest = []
      · simp [hRest, single, size]
      · simp [hRest, size, ih hRest]

/-- An insertion adds a name unless it was there. -/
theorem size_insert (value : α) {name : List Char} (hName : name ≠ []) {forest : Forest α}
    (hSorted : forest.Sorted) :
    (forest.insert value name).size =
      if (forest.get? name).isSome then forest.size else forest.size + 1 := by
  induction forest generalizing name with
  | nil =>
      cases name with
      | nil => exact absurd rfl hName
      | cons c rest => rw [insert_nil, size_single value hName, get?_nil]; rfl
  | node key held children next ihChildren ihNext =>
      cases name with
      | nil => exact absurd rfl hName
      | cons c rest =>
          rw [insert_cons]
          split
          · rename_i hKey
            rw [get?_cons, if_pos hKey]
            by_cases hRest : rest = []
            · cases held <;> simp [hRest, size]
              omega
            · rw [if_neg hRest, if_neg hRest, size, size, ihChildren hRest hSorted.2.1]
              split_ifs <;> omega
          · rename_i hKey
            split
            · rename_i hLt
              have hBelow : (node key held children next).Above c := hLt
              have hOne := size_single value hName
              rw [single_cons] at hOne
              rw [get?_of_above hBelow hSorted]
              simp only [size] at hOne ⊢
              simp only [Option.isSome_none, Bool.false_eq_true, if_false]
              omega
            · rw [get?_cons, if_neg hKey, size, size, ihNext (by simp) hSorted.2.2]
              split_ifs <;> omega

/-- A walk that finds nothing passes no stored name. -/
theorem longest?_none {forest : Forest α} {text : List Char} (h : forest.longest? text = none)
    (length : Nat) : forest.get? (text.take length) = none := by
  induction text generalizing forest length with
  | nil => simp [get?_nil_name]
  | cons c rest ih =>
      cases length with
      | zero => exact get?_nil_name _
      | succ length =>
          rw [List.take_succ_cons]
          induction forest with
          | nil => rfl
          | node key held children next _ ihNext =>
              rw [longest?] at h
              rw [get?_cons]
              by_cases hHead : c = key
              · rw [if_pos hHead] at h ⊢
                generalize hWalk : children.longest? rest = walk at h
                cases walk with
                | some found => cases h
                | none =>
                    cases held with
                    | some held => cases h
                    | none =>
                        split
                        · rfl
                        · exact ih hWalk length
              · rw [if_neg hHead] at h ⊢
                exact ihNext h

/-- The walk along a text ends on the longest stored name. -/
theorem longest?_some {forest : Forest α} {text : List Char} {length : Nat} {value : α}
    (h : forest.longest? text = some (length, value)) :
    0 < length ∧ length ≤ text.length ∧ forest.get? (text.take length) = some value ∧
      ∀ longer, length < longer → longer ≤ text.length → forest.get? (text.take longer) = none := by
  induction text generalizing forest length value with
  | nil => cases forest <;> simp [longest?] at h
  | cons c rest ih =>
      induction forest generalizing length value with
      | nil => simp [longest?] at h
      | node key held children next _ ihNext =>
          rw [longest?] at h
          by_cases hHead : c = key
          · have hTake : ∀ longer, (node key held children next).get? ((c :: rest).take (longer + 1)) =
                if rest.take longer = [] then held else children.get? (rest.take longer) := by
              intro longer
              rw [List.take_succ_cons, get?_cons, if_pos hHead]
            rw [if_pos hHead] at h
            generalize hWalk : children.longest? rest = walk at h
            cases walk with
            | some found =>
                obtain ⟨below, found⟩ := found
                cases h
                obtain ⟨hPos, hLe, hGet, hLonger⟩ := ih hWalk
                refine ⟨Nat.succ_pos _, Nat.succ_le_succ hLe, ?_, fun longer hLt hLe' => ?_⟩
                · have hTaken : rest.take below ≠ [] := by
                    rw [← List.length_pos_iff, List.length_take]
                    omega
                  rw [hTake, if_neg hTaken, hGet]
                · obtain ⟨longer, rfl⟩ : ∃ shorter, longer = shorter + 1 := ⟨longer - 1, by omega⟩
                  have hTaken : rest.take longer ≠ [] := by
                    rw [← List.length_pos_iff, List.length_take]
                    omega
                  rw [hTake, if_neg hTaken]
                  exact hLonger longer (by omega) (by simpa using hLe')
            | none =>
                cases held with
                | none => cases h
                | some held =>
                    cases h
                    refine ⟨Nat.one_pos, by simp, (hTake 0).trans (if_pos rfl), fun longer hLt hLe' => ?_⟩
                    obtain ⟨longer, rfl⟩ : ∃ shorter, longer = shorter + 1 := ⟨longer - 1, by omega⟩
                    have hTaken : rest.take longer ≠ [] := by
                      rw [← List.length_pos_iff, List.length_take]
                      simp only [List.length_cons] at hLe'
                      omega
                    rw [hTake, if_neg hTaken]
                    exact longest?_none hWalk longer
          · rw [if_neg hHead] at h
            obtain ⟨hPos, hLe, hGet, hLonger⟩ := ihNext h
            have hTake : ∀ longer, 0 < longer →
                (node key held children next).get? ((c :: rest).take longer) =
                  next.get? ((c :: rest).take longer) := by
              intro longer hLonger
              obtain ⟨longer, rfl⟩ : ∃ shorter, longer = shorter + 1 := ⟨longer - 1, by omega⟩
              rw [List.take_succ_cons, get?_cons, if_neg hHead]
            refine ⟨hPos, hLe, (hTake length hPos).trans hGet, fun longer hLt hLe' => ?_⟩
            rw [hTake longer (by omega)]
            exact hLonger longer hLt hLe'

end Forest

namespace PrefixIndex

variable {α : Type}

theorem get?_nil (name : List Char) : (nil : PrefixIndex α).get? name = none := by
  cases name <;> rfl

theorem sorted_insert {index : PrefixIndex α} (hSorted : index.forest.Sorted) (name : List Char)
    (value : α) : (index.insert name value).2.forest.Sorted := by
  cases name with
  | nil => exact hSorted
  | cons c rest => exact Forest.sorted_insert value _ hSorted

/-- The law of insertion: the name is bound to the value, and all other names are as before. -/
theorem get?_insert {index : PrefixIndex α} (hSorted : index.forest.Sorted) (name : List Char)
    (value : α) (name' : List Char) :
    (index.insert name value).2.get? name' =
      if name' = name then some value else index.get? name' := by
  cases name with
  | nil => cases name' <;> rfl
  | cons c rest =>
      cases name' with
      | nil => rfl
      | cons d rest' => exact Forest.get?_insert value (by simp) hSorted _

/-- A new name counts, and one that was there does not. -/
theorem size_insert {index : PrefixIndex α} (hSorted : index.forest.Sorted) (name : List Char)
    (value : α) :
    (index.insert name value).2.size =
      if (index.get? name).isSome then index.size else index.size + 1 := by
  cases name with
  | nil =>
      change (1 + index.forest.size) = if index.empty.isSome then index.size else index.size + 1
      unfold size
      split <;> omega
  | cons c rest =>
      change (if index.empty.isSome then 1 else 0) + (index.forest.insert value (c :: rest)).size =
        if (index.forest.get? (c :: rest)).isSome then index.size else index.size + 1
      rw [Forest.size_insert value (by simp) hSorted]
      unfold size
      split_ifs <;> omega

theorem get?_of_ne_nil (index : PrefixIndex α) {name : List Char} (hName : name ≠ []) :
    index.get? name = index.forest.get? name := by
  cases name with
  | nil => exact absurd rfl hName
  | cons c rest => rfl

end PrefixIndex

/-- The longest nonempty name in front of a text, of the names that are bound. -/
structure LongestBound {α : Type} (value? : List Char → Option α) (text name : List Char)
    (value : α) : Prop where
  ne_nil : name ≠ []
  matched : name <+: text
  bound : value? name = some value
  longest : ∀ other, other <+: text → (value? other).isSome → other.length ≤ name.length

/-- There is one longest name at most. -/
theorem LongestBound.unique {α : Type} {value? : List Char → Option α} {text name name' : List Char}
    {value value' : α} (h : LongestBound value? text name value)
    (h' : LongestBound value? text name' value') : name = name' ∧ value = value' := by
  have hLength : name.length = name'.length :=
    Nat.le_antisymm (h'.longest name h.matched (by rw [h.bound]; rfl))
      (h.longest name' h'.matched (by rw [h'.bound]; rfl))
  have hName : name = name' := by
    rw [List.prefix_iff_eq_take.mp h.matched, List.prefix_iff_eq_take.mp h'.matched, hLength]
  subst hName
  exact ⟨rfl, Option.some.inj (h.bound.symm.trans h'.bound)⟩

namespace PrefixIndex

variable {α : Type}

/-- What is found along a text is the longest bound name in front of it. -/
theorem longest?_ok {index : PrefixIndex α} {text : List Char} {length : Nat} {value : α}
    (h : index.longest? text = some (length, value)) :
    ∃ name, LongestBound index.get? text name value ∧ name.length = length := by
  obtain ⟨hPos, hLe, hGet, hLonger⟩ := Forest.longest?_some h
  have hLength : (text.take length).length = length := List.length_take_of_le hLe
  have hName : text.take length ≠ [] := List.ne_nil_of_length_pos (by rwa [hLength])
  refine ⟨text.take length, ⟨hName, List.take_prefix length text, ?_, fun other hOther hSome => ?_⟩,
    hLength⟩
  · rw [get?_of_ne_nil index hName, hGet]
  · by_contra hLt
    rw [hLength] at hLt
    have hNone := hLonger other.length (by omega) hOther.length_le
    rw [← List.prefix_iff_eq_take.mp hOther, ← get?_of_ne_nil] at hNone
    · rw [hNone] at hSome
      cases hSome
    · exact List.ne_nil_of_length_pos (by omega)

/-- Nothing is found if and only if no name in front of the text is bound. -/
theorem longest?_eq_none_iff {index : PrefixIndex α} {text : List Char} :
    index.longest? text = none ↔
      ∀ name, name ≠ [] → name <+: text → index.get? name = none := by
  constructor
  · intro h name hName hMatched
    rw [get?_of_ne_nil index hName, List.prefix_iff_eq_take.mp hMatched]
    exact Forest.longest?_none h name.length
  · intro h
    generalize hWalk : index.longest? text = walk
    cases walk with
    | none => rfl
    | some found =>
        obtain ⟨name, hLongest, -⟩ := longest?_ok hWalk
        have hNone := h name hLongest.ne_nil hLongest.matched
        rw [hLongest.bound] at hNone
        cases hNone

/-- The walk along a text finds the longest name in front of it. -/
theorem longest?_eq_some_iff {index : PrefixIndex α} {text : List Char} {length : Nat} {value : α} :
    index.longest? text = some (length, value) ↔
      ∃ name, LongestBound index.get? text name value ∧ name.length = length := by
  refine ⟨longest?_ok, ?_⟩
  rintro ⟨name, hLongest, rfl⟩
  generalize hWalk : index.longest? text = walk
  cases walk with
  | none =>
      have hNone := longest?_eq_none_iff.mp hWalk name hLongest.ne_nil hLongest.matched
      rw [hLongest.bound] at hNone
      cases hNone
  | some found =>
      obtain ⟨name', hLongest', hLength⟩ := longest?_ok hWalk
      obtain ⟨rfl, rfl⟩ := hLongest.unique hLongest'
      rw [hLength]

def ofEntries (entries : List (List Char × α)) : PrefixIndex α :=
  entries.foldl (fun index (name, value) => (index.insert name value).2) nil

theorem ofEntries_append_singleton (entries : List (List Char × α)) (name : List Char) (value : α) :
    ofEntries (entries ++ [(name, value)]) = ((ofEntries entries).insert name value).2 := by
  rw [ofEntries, List.foldl_append]
  rfl

/-- However names are inserted, the siblings are in order. -/
theorem sorted_ofEntries (entries : List (List Char × α)) : (ofEntries entries).forest.Sorted := by
  unfold ofEntries
  refine List.foldlRecOn _ _ (motive := fun index : PrefixIndex α => index.forest.Sorted) trivial ?_
  intro index hSorted entry _
  exact sorted_insert hSorted entry.1 entry.2

/-- Of the entries for a name the last one counts. -/
theorem get?_ofEntries (entries : List (List Char × α)) (name : List Char) :
    (ofEntries entries).get? name = entries.reverse.lookup name := by
  induction entries using List.reverseRecOn with
  | nil => exact get?_nil name
  | append_singleton entries entry ih =>
      obtain ⟨last, value⟩ := entry
      rw [ofEntries_append_singleton, get?_insert (sorted_ofEntries entries), ih,
        List.reverse_append, List.reverse_singleton, List.singleton_append, List.lookup_cons]
      by_cases hName : name = last
      · rw [if_pos hName, beq_iff_eq.mpr hName]
      · rw [if_neg hName, beq_eq_false_iff_ne.mpr hName]

end PrefixIndex

end MacroMarkup
