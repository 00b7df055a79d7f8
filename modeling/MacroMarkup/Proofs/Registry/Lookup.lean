import MacroMarkup.Proofs.PrefixIndex
import MacroMarkup.Registry

/-! Registries that definitions build from the builtins: which spellings they
hold, what a definition changes, and what the longest match along a text is. -/
namespace MacroMarkup

namespace Registry

/-- The handler that a whole spelling, as characters, is bound to. -/
def bound (registry : Registry) (key : List Char) : Option Handler :=
  (registry.index.get? key).bind (registry.handlers[·]?)

/-- A spelling is bound to what is found under it. -/
theorem get?_eq_bound (registry : Registry) (spelling : String) :
    registry.get? spelling = registry.bound spelling.toList := rfl

/-- What is checked of all handlers holds of whatever a spelling is bound to. -/
theorem of_all_handlers {registry : Registry} {p : Handler → Bool}
    (h : registry.handlers.all p = true) {key : List Char} {handler : Handler}
    (hBound : registry.bound key = some handler) : p handler = true := by
  obtain ⟨place, -, hPlace⟩ := Option.bind_eq_some_iff.mp hBound
  obtain ⟨hRange, rfl⟩ := Array.getElem?_eq_some_iff.mp hPlace
  rw [Array.all_eq_true] at h
  exact h place hRange

/-- Every spelling has a place of its own among the handlers. -/
structure WellFormed (registry : Registry) : Prop where
  sorted : registry.index.forest.Sorted
  inRange : ∀ key place, registry.index.get? key = some place → place < registry.handlers.size
  injective : ∀ key key' place, registry.index.get? key = some place →
    registry.index.get? key' = some place → key = key'

namespace WellFormed

theorem empty : WellFormed Registry.empty where
  sorted := trivial
  inRange key place h := by
    rw [Registry.empty, PrefixIndex.get?_nil] at h
    cases h
  injective key key' place h := by
    rw [Registry.empty, PrefixIndex.get?_nil] at h
    cases h

variable {registry : Registry} (hWell : registry.WellFormed)
include hWell

/-- A spelling is bound if it has a slot. -/
theorem isSome_bound (key : List Char) :
    (registry.bound key).isSome = (registry.index.get? key).isSome := by
  unfold bound
  generalize hPlace : registry.index.get? key = found
  cases found with
  | none => rfl
  | some place => simp [hWell.inRange key place hPlace]

omit hWell in
theorem bound_of_place {key : List Char} {place : Nat}
    (hPlace : registry.index.get? key = some place) :
    registry.bound key = registry.handlers[place]? := by
  rw [bound, hPlace]
  rfl

/-- Registering keeps spellings and slots in step. -/
theorem register (spelling : String) (handler : Handler) :
    (registry.register spelling handler).WellFormed := by
  unfold Registry.register
  generalize hFound : registry.index.get? spelling.toList = found
  cases found with
  | some place =>
      exact ⟨hWell.sorted, fun key place' h => by simpa using hWell.inRange key place' h,
        hWell.injective⟩
  | none =>
      refine ⟨PrefixIndex.sorted_insert hWell.sorted _ _, fun key place h => ?_,
        fun key key' place h h' => ?_⟩
      · rw [PrefixIndex.get?_insert hWell.sorted] at h
        simp only [Array.size_push]
        split at h
        · cases h
          exact Nat.lt_succ_self _
        · exact Nat.lt_succ_of_lt (hWell.inRange key place h)
      · rw [PrefixIndex.get?_insert hWell.sorted] at h h'
        split at h <;> split at h'
        · rename_i hKey hKey'
          rw [hKey, hKey']
        · cases h
          exact absurd (hWell.inRange key' _ h') (Nat.lt_irrefl _)
        · cases h'
          exact absurd (hWell.inRange key _ h) (Nat.lt_irrefl _)
        · exact hWell.injective key key' place h h'

/-- A registration changes what one spelling is bound to. -/
theorem bound_register (spelling : String) (handler : Handler) (key : List Char) :
    (registry.register spelling handler).bound key =
      if key = spelling.toList then some handler else registry.bound key := by
  unfold Registry.register
  generalize hFound : registry.index.get? spelling.toList = found
  cases found with
  | some place =>
      have hRange := hWell.inRange _ _ hFound
      unfold bound
      by_cases hKey : key = spelling.toList
      · simp [hKey, hFound, hRange]
      · rw [if_neg hKey]
        generalize hOther : registry.index.get? key = other
        cases other with
        | none => rfl
        | some place' =>
            have hNe : place ≠ place' := by
              rintro rfl
              exact hKey (hWell.injective _ _ _ hOther hFound)
            simp [Array.getElem?_setIfInBounds, hNe]
  | none =>
      unfold bound
      rw [PrefixIndex.get?_insert hWell.sorted]
      by_cases hKey : key = spelling.toList
      · simp [hKey]
      · rw [if_neg hKey, if_neg hKey]
        generalize hOther : registry.index.get? key = other
        cases other with
        | none => rfl
        | some place' =>
            have hNe : place' ≠ registry.handlers.size :=
              Nat.ne_of_lt (hWell.inRange _ _ hOther)
            simp [Array.getElem?_push, hNe]

end WellFormed

/-- The longest spelling that a text starts with. -/
structure Longest (registry : Registry) (text key : List Char) (handler : Handler) : Prop where
  ne_nil : key ≠ []
  matched : key <+: text
  bound : registry.bound key = some handler
  longest : ∀ key', key' <+: text → (registry.bound key').isSome → key'.length ≤ key.length

theorem Longest.longestBound {registry : Registry} {text key : List Char} {handler : Handler}
    (h : registry.Longest text key handler) : LongestBound registry.bound text key handler :=
  ⟨h.ne_nil, h.matched, h.bound, h.longest⟩

/-- There is one longest spelling at most. -/
theorem Longest.unique {registry : Registry} {text key key' : List Char} {handler handler' : Handler}
    (h : registry.Longest text key handler) (h' : registry.Longest text key' handler') :
    key = key' ∧ handler = handler' :=
  h.longestBound.unique h'.longestBound

namespace WellFormed

variable {registry : Registry} (hWell : registry.WellFormed)
include hWell

/-- What is found along a text is the longest spelling that is bound. -/
theorem longest_of_lookup? {text : List Char} {length : Nat} {handler : Handler}
    (h : registry.lookup? text = some (length, handler)) :
    ∃ key, registry.Longest text key handler ∧ key.length = length := by
  unfold lookup? at h
  obtain ⟨⟨length', place⟩, hWalk, hPlace⟩ := Option.bind_eq_some_iff.mp h
  obtain ⟨handler', hHandler, hPair⟩ := Option.map_eq_some_iff.mp hPlace
  cases hPair
  obtain ⟨key, hLongest, hLength⟩ := PrefixIndex.longest?_eq_some_iff.mp hWalk
  refine ⟨key, ⟨hLongest.ne_nil, hLongest.matched, ?_, fun key' hMatched hSome => ?_⟩, hLength⟩
  · rw [bound_of_place hLongest.bound, hHandler]
  · rw [hWell.isSome_bound] at hSome
    exact hLongest.longest key' hMatched hSome

/-- Where nothing is found, no spelling at the text is bound. -/
theorem bound_eq_none_of_lookup? {text : List Char} (h : registry.lookup? text = none)
    {key : List Char} (hKey : key ≠ []) (hMatched : key <+: text) : registry.bound key = none := by
  unfold lookup? at h
  cases hWalk : registry.index.longest? text with
  | some found =>
      obtain ⟨length, place⟩ := found
      obtain ⟨name, hLongest, -⟩ := PrefixIndex.longest?_eq_some_iff.mp hWalk
      have hRange := hWell.inRange name place hLongest.bound
      simp [hWalk, hRange] at h
  | none =>
      have hNone := PrefixIndex.longest?_eq_none_iff.mp hWalk key hKey hMatched
      rw [bound, hNone]
      rfl

/-- Lookup finds the longest spelling, and nothing only if there is none. -/
theorem lookup?_eq_some_iff {text : List Char} {length : Nat} {handler : Handler} :
    registry.lookup? text = some (length, handler) ↔
      ∃ key, registry.Longest text key handler ∧ key.length = length := by
  refine ⟨hWell.longest_of_lookup?, ?_⟩
  rintro ⟨key, hLongest, rfl⟩
  generalize hFound : registry.lookup? text = found
  cases found with
  | none =>
      have hNone := hWell.bound_eq_none_of_lookup? hFound hLongest.ne_nil hLongest.matched
      rw [hLongest.bound] at hNone
      cases hNone
  | some found =>
      obtain ⟨key', hLongest', hLength⟩ := hWell.longest_of_lookup? hFound
      obtain ⟨rfl, rfl⟩ := hLongest.unique hLongest'
      rw [hLength]

/-- Nothing is found if and only if no spelling at the text is bound. -/
theorem lookup?_eq_none_iff {text : List Char} :
    registry.lookup? text = none ↔
      ∀ key, key ≠ [] → key <+: text → registry.bound key = none := by
  refine ⟨fun h key hKey hMatched => hWell.bound_eq_none_of_lookup? h hKey hMatched, fun h => ?_⟩
  generalize hFound : registry.lookup? text = found
  cases found with
  | none => rfl
  | some found =>
      obtain ⟨key, hLongest, -⟩ := hWell.longest_of_lookup? hFound
      have hNone := h key hLongest.ne_nil hLongest.matched
      rw [hLongest.bound] at hNone
      cases hNone

/-- Text behind the reach of all spellings has no influence on the lookup. -/
theorem lookup?_append {text after : List Char}
    (hShort : ∀ key, key <+: text ++ after → (registry.bound key).isSome →
      key.length ≤ text.length) :
    registry.lookup? (text ++ after) = registry.lookup? text := by
  have hWithin : ∀ key, key <+: text ++ after → (registry.bound key).isSome → key <+: text :=
    fun key hMatched hSome => List.prefix_of_prefix_length_le hMatched (List.prefix_append _ _)
      (hShort key hMatched hSome)
  cases hLookup : registry.lookup? text with
  | none =>
      rw [hWell.lookup?_eq_none_iff] at hLookup ⊢
      intro key hKey hMatched
      by_contra hBound
      have hSome := Option.isSome_iff_ne_none.mpr hBound
      exact hBound (hLookup key hKey (hWithin key hMatched hSome))
  | some found =>
      obtain ⟨length, handler⟩ := found
      rw [hWell.lookup?_eq_some_iff] at hLookup ⊢
      obtain ⟨key, hLongest, rfl⟩ := hLookup
      exact ⟨key, ⟨hLongest.ne_nil, hLongest.matched.trans (List.prefix_append _ _),
        hLongest.bound, fun key' hMatched hSome =>
          hLongest.longest key' (hWithin key' hMatched hSome) hSome⟩, rfl⟩

end WellFormed

end Registry

end MacroMarkup
