import MacroMarkup.Proofs.NodeArena.Links
import Mathlib.Data.Finset.Card
import Mathlib.Data.Finset.Range

/-! What walks through the array of nodes come to: along a text, to the longest name in
front of it, and over a stack, to all the names in order. -/
namespace MacroMarkup.NodeArena

variable {α : Type} {arena : NodeArena α}

/-! ### Along a text -/

/-- What a walk has come to at the end of a text: the last name that it passed, with its
length and its node, or nothing if no name stands there. -/
def Passed (arena : NodeArena α) (text : List Char) : Option (Nat × Nat) → Prop
  | none => ∀ name, name ≠ [] → name <+: text → arena.get? name = none
  | some (length, id) => ∃ name value, LongestBound arena.get? text name value ∧
      name.length = length ∧ arena.find? root name = some id

/-- One more node on the way counts if it holds a value. -/
theorem Passed.snoc {text : List Char} {best : Option (Nat × Nat)} (h : arena.Passed text best)
    {c : Char} {child : Nat} (hFind : arena.find? root (text ++ [c]) = some child) :
    arena.Passed (text ++ [c])
      (if (arena.value? child).isSome then some (text.length + 1, child) else best) := by
  have hGet : arena.get? (text ++ [c]) = arena.value? child := by
    rw [get?, hFind]
    rfl
  generalize hValue : arena.value? child = held
  cases held with
  | some value =>
      refine ⟨text ++ [c], value, ⟨by simp, List.prefix_rfl, hGet.trans hValue, ?_⟩, by simp, hFind⟩
      exact fun other hOther _ => hOther.length_le
  | none =>
      rw [hValue] at hGet
      cases best with
      | none =>
          intro name hName hPrefix
          rcases List.prefix_concat_iff.mp hPrefix with rfl | hPrefix
          · exact hGet
          · exact h name hName hPrefix
      | some best =>
          obtain ⟨name, value, hLongest, hLength, hName⟩ := h
          refine ⟨name, value, { hLongest with
            matched := hLongest.matched.trans (List.prefix_append text [c])
            longest := fun other hOther hSome => ?_ }, hLength, hName⟩
          rcases List.prefix_concat_iff.mp hOther with rfl | hOther
          · rw [hGet] at hSome
            cases hSome
          · exact hLongest.longest other hOther hSome

/-- Where the nodes end no further name begins. -/
theorem Passed.stop {text : List Char} {best : Option (Nat × Nat)} (h : arena.Passed text best)
    {c : Char} (hFind : arena.find? root (text ++ [c]) = none) (rest : List Char) :
    arena.Passed (text ++ c :: rest) best := by
  have hBeyond : ∀ name, name <+: text ++ c :: rest → name <+: text ∨ arena.get? name = none := by
    intro name hName
    rcases List.prefix_or_prefix_of_prefix hName (List.prefix_append text (c :: rest)) with
      hWithin | ⟨more, rfl⟩
    · exact .inl hWithin
    · cases more with
      | nil => exact .inl (by rw [List.append_nil])
      | cons d more =>
          obtain ⟨rfl, -⟩ := List.cons_prefix_cons.mp ((List.prefix_append_right_inj text).mp hName)
          refine .inr ?_
          rw [get?, List.append_cons, find?_append, hFind]
          rfl
  cases best with
  | none =>
      intro name hName hPrefix
      exact (hBeyond name hPrefix).elim (h name hName) id
  | some best =>
      obtain ⟨name, value, hLongest, hLength, hName⟩ := h
      refine ⟨name, value, { hLongest with
        matched := hLongest.matched.trans (List.prefix_append text _)
        longest := fun other hOther hSome => ?_ }, hLength, hName⟩
      rcases hBeyond other hOther with hWithin | hNone
      · exact hLongest.longest other hWithin hSome
      · rw [hNone] at hSome
        cases hSome

/-- The walk passes the whole text, as far as there are names in front of it. -/
theorem walk_passed {text : List Char} {id : Nat} (hFind : arena.find? root text = some id)
    {best : Option (Nat × Nat)} (h : arena.Passed text best) (rest : List Char) :
    arena.Passed (text ++ rest) (arena.walk id text.length best rest) := by
  induction rest generalizing text id best with
  | nil =>
      rw [List.append_nil]
      exact h
  | cons c rest ih =>
      have hNext : arena.find? root (text ++ [c]) = arena.child? id c := by
        rw [find?_snoc, hFind]
        rfl
      rw [walk]
      split
      · rename_i hChild
        exact h.stop (hNext.trans hChild) rest
      · rename_i child hChild
        have hStep := ih (hNext.trans hChild) (h.snoc (hNext.trans hChild))
        rwa [List.append_assoc, List.length_append] at hStep

/-- The longest name is found together with its value. -/
theorem longest?_eq (arena : NodeArena α) (index : PrefixIndex α)
    (hGet : ∀ name, arena.get? name = index.get? name) (text : List Char) :
    arena.longest? text = index.longest? text := by
  have hStart : arena.Passed [] none := fun name hName hPrefix =>
    absurd (List.prefix_nil.mp hPrefix) hName
  have hWalk : arena.Passed text (arena.walk root 0 none text) :=
    walk_passed rfl hStart text
  rw [NodeArena.longest?]
  generalize arena.walk root 0 none text = found at hWalk
  cases found with
  | none =>
      refine (PrefixIndex.longest?_eq_none_iff.mpr fun name hName hPrefix => ?_).symm
      rw [← hGet]
      exact hWalk name hName hPrefix
  | some found =>
      obtain ⟨length, id⟩ := found
      obtain ⟨name, value, hLongest, rfl, hFind⟩ := hWalk
      have hValue : arena.value? id = some value := by
        rw [← hLongest.bound, get?, hFind]
        rfl
      rw [funext hGet] at hLongest
      rw [Option.bind_some]
      change (arena.value? id).map _ = _
      rw [hValue]
      exact (PrefixIndex.longest?_eq_some_iff.mpr ⟨name, hLongest, rfl⟩).symm

/-! ### Over a stack -/

/-- Two names part at some character, the first to the left. -/
def LeftOf (name other : List Char) : Prop :=
  ∃ path c d rest rest', name = path ++ c :: rest ∧ other = path ++ d :: rest' ∧ c < d

namespace LeftOf

variable {name other : List Char}

/-- Names that have parted stay apart, however they go on. -/
theorem extend (h : LeftOf name other) {longer longer' : List Char} (hLonger : name <+: longer)
    (hLonger' : other <+: longer') : LeftOf longer longer' := by
  obtain ⟨path, c, d, rest, rest', rfl, rfl, hLess⟩ := h
  obtain ⟨more, rfl⟩ := hLonger
  obtain ⟨more', rfl⟩ := hLonger'
  exact ⟨path, c, d, rest ++ more, rest' ++ more', by simp, by simp, hLess⟩

/-- What stands on the left is less. -/
theorem lt (h : LeftOf name other) : name < other := by
  obtain ⟨path, c, d, rest, rest', rfl, rfl, hLess⟩ := h
  exact List.append_left_lt (List.cons_lt_cons_iff.mpr (.inl hLess))

/-- Nothing within a subtree stands on the left of its root. -/
theorem not_within (h : LeftOf name other) : ¬other <+: name :=
  fun hPrefix => List.lt_irrefl _ (h.extend List.prefix_rfl hPrefix).lt

/-- Of two children the one with the lesser character stands on the left. -/
theorem of_children (path : List Char) {c d : Char} (hLess : c < d) :
    LeftOf (path ++ [c]) (path ++ [d]) :=
  ⟨path, c, d, [], [], rfl, rfl, hLess⟩

end LeftOf

/-- A stack of nodes at the ends of names that have parted, the leftmost on top. -/
structure Stacked (arena : NodeArena α) (stack : List Nat) : Prop where
  found : ∀ id ∈ stack, arena.find? root (arena.nameOf id) = some id
  parted : stack.Pairwise fun id later => LeftOf (arena.nameOf id) (arena.nameOf later)

/-- The nodes that a stack still leads to. -/
def below (arena : NodeArena α) (stack : List Nat) : Finset Nat :=
  (Finset.range arena.nodes.size).filter fun id => ∃ top ∈ stack, arena.nameOf top <+: arena.nameOf id

section Pop

variable {id : Nat} {stack : List Nat} {node : ArenaNode α}

/-- The name of a child is that of its parent with one more character. -/
theorem WellFormed.nameOf_child (h : arena.WellFormed) {name : List Char}
    (hFind : arena.find? root name = some id) (hNode : arena.nodes[id]? = some node) {c : Char}
    {child : Nat} (hMem : (c, child) ∈ node.children) :
    arena.nameOf child = name ++ [c] ∧ arena.find? root (name ++ [c]) = some child := by
  have hChild : arena.find? root (name ++ [c]) = some child := by
    rw [find?_snoc, hFind, Option.bind_some, child?, hNode]
    exact (lookup_iff_mem_increasing (h.increasing id node hNode)).mpr hMem
  exact ⟨h.nameOf_of_find? hChild, hChild⟩

/-- With a node replaced by its children a stack stays in order. -/
theorem WellFormed.stacked_pop (h : arena.WellFormed) (hStacked : arena.Stacked (id :: stack))
    (hNode : arena.nodes[id]? = some node) :
    arena.Stacked (node.children.map Prod.snd ++ stack) := by
  have hFind := hStacked.found id List.mem_cons_self
  obtain ⟨hTop, hParted⟩ := List.pairwise_cons.mp hStacked.parted
  have hChild : ∀ entry ∈ node.children, arena.nameOf entry.2 = arena.nameOf id ++ [entry.1] :=
    fun entry hMem => (h.nameOf_child hFind hNode hMem).1
  refine ⟨fun other hMem => ?_,
    List.pairwise_append.mpr ⟨?_, hParted, fun other hOther later hLater => ?_⟩⟩
  · rcases List.mem_append.mp hMem with hMem | hMem
    · obtain ⟨⟨c, child⟩, hEntry, rfl⟩ := List.mem_map.mp hMem
      obtain ⟨hName, hFound⟩ := h.nameOf_child hFind hNode hEntry
      rw [hName, hFound]
    · exact hStacked.found other (List.mem_cons_of_mem id hMem)
  · rw [List.pairwise_map]
    refine (h.increasing id node hNode).imp_of_mem fun hEntry hLater hLess => ?_
    rw [hChild _ hEntry, hChild _ hLater]
    exact .of_children _ hLess
  · obtain ⟨entry, hEntry, rfl⟩ := List.mem_map.mp hOther
    refine (hTop later hLater).extend ?_ List.prefix_rfl
    rw [hChild entry hEntry]
    exact List.prefix_append _ _

/-- A node that has been taken from the stack never comes back. -/
theorem WellFormed.below_pop (h : arena.WellFormed) (hStacked : arena.Stacked (id :: stack))
    (hNode : arena.nodes[id]? = some node) :
    (arena.below (node.children.map Prod.snd ++ stack)).card < (arena.below (id :: stack)).card := by
  have hFind := hStacked.found id List.mem_cons_self
  have hTop := (List.pairwise_cons.mp hStacked.parted).1
  refine Finset.card_lt_card ((Finset.ssubset_iff_of_subset fun other hOther => ?_).mpr ⟨id, ?_, ?_⟩)
  · obtain ⟨hSize, top, hMem, hPrefix⟩ := Finset.mem_filter.mp hOther
    refine Finset.mem_filter.mpr ⟨hSize, ?_⟩
    rcases List.mem_append.mp hMem with hMem | hMem
    · obtain ⟨entry, hEntry, rfl⟩ := List.mem_map.mp hMem
      refine ⟨id, List.mem_cons_self, List.IsPrefix.trans ?_ hPrefix⟩
      rw [(h.nameOf_child hFind hNode hEntry).1]
      exact List.prefix_append _ _
    · exact ⟨top, List.mem_cons_of_mem id hMem, hPrefix⟩
  · exact Finset.mem_filter.mpr
      ⟨Finset.mem_range.mpr (h.lt_of_find? hFind), id, List.mem_cons_self, List.prefix_rfl⟩
  · intro hMem
    obtain ⟨-, top, hMem, hPrefix⟩ := Finset.mem_filter.mp hMem
    rcases List.mem_append.mp hMem with hMem | hMem
    · obtain ⟨entry, hEntry, rfl⟩ := List.mem_map.mp hMem
      have hLength := hPrefix.length_le
      rw [(h.nameOf_child hFind hNode hEntry).1, List.length_append, List.length_singleton] at hLength
      omega
    · exact (hTop top hMem).not_within hPrefix

/-- A name that is bound behind another ends there or goes on to one of the children. -/
theorem WellFormed.prefix_iff (h : arena.WellFormed) (hFind : arena.find? root (arena.nameOf id) = some id)
    (hNode : arena.nodes[id]? = some node) {name : List Char} {value : α}
    (hGet : arena.get? name = some value) :
    arena.nameOf id <+: name ↔
      name = arena.nameOf id ∨ ∃ child ∈ node.children.map Prod.snd, arena.nameOf child <+: name := by
  constructor
  · rintro ⟨rest, rfl⟩
    cases rest with
    | nil => exact .inl (List.append_nil _)
    | cons c rest =>
        obtain ⟨last, hLast, -⟩ := Option.bind_eq_some_iff.mp hGet
        rw [List.append_cons, find?_append, find?_snoc, hFind, Option.bind_some] at hLast
        obtain ⟨child, hChild, -⟩ := Option.bind_eq_some_iff.mp hLast
        rw [child?, hNode, Option.bind_some] at hChild
        have hMem := (lookup_iff_mem_increasing (h.increasing id node hNode)).mp hChild
        refine .inr ⟨child, List.mem_map_of_mem hMem, rest, ?_⟩
        rw [(h.nameOf_child hFind hNode hMem).1, List.append_assoc]
        rfl
  · rintro (rfl | ⟨child, hMem, hPrefix⟩)
    · exact List.prefix_rfl
    · obtain ⟨entry, hEntry, rfl⟩ := List.mem_map.mp hMem
      rw [(h.nameOf_child hFind hNode hEntry).1] at hPrefix
      exact (List.prefix_append _ _).trans hPrefix

end Pop

/-- A walk over a stack lists the names that it leads to, each once and in order. -/
theorem WellFormed.listFrom_ok (h : arena.WellFormed) {fuel : Nat} {stack : List Nat}
    (hStacked : arena.Stacked stack) (hFuel : (arena.below stack).card ≤ fuel) :
    ((arena.listFrom fuel stack).Pairwise fun entry later => entry.1 < later.1) ∧
    ∀ name value, (name, value) ∈ arena.listFrom fuel stack ↔
      arena.get? name = some value ∧ ∃ top ∈ stack, arena.nameOf top <+: name := by
  induction fuel generalizing stack with
  | zero =>
      cases stack with
      | nil => simp [listFrom]
      | cons id stack =>
          obtain ⟨node, hNode⟩ := h.node_of_find? (hStacked.found id List.mem_cons_self)
          exact absurd (h.below_pop hStacked hNode) (by omega)
  | succ fuel ih =>
      cases stack with
      | nil => simp [listFrom]
      | cons id stack =>
          have hFind := hStacked.found id List.mem_cons_self
          obtain ⟨node, hNode⟩ := h.node_of_find? hFind
          obtain ⟨hSorted, hMem⟩ := ih (h.stacked_pop hStacked hNode)
            (by have := h.below_pop hStacked hNode; omega)
          have hOwn : ∀ name value, (name, value) ∈ (node.value.map (arena.nameOf id, ·)).toList ↔
              arena.get? name = some value ∧ name = arena.nameOf id := by
            intro name value
            have hGet : arena.get? (arena.nameOf id) = node.value := by
              rw [get?, hFind, Option.bind_some, value?, hNode]
              rfl
            rw [Option.mem_toList, Option.map_eq_some_iff]
            constructor
            · rintro ⟨value, hValue, ⟨⟩⟩
              exact ⟨hGet.trans hValue, rfl⟩
            · rintro ⟨hValue, rfl⟩
              exact ⟨value, hGet.symm.trans hValue, rfl⟩
          rw [listFrom, hNode]
          refine ⟨List.pairwise_append.mpr ⟨by cases node.value <;> simp, hSorted, ?_⟩, ?_⟩
          · rintro ⟨name, value⟩ hEntry ⟨other, value'⟩ hLater
            obtain ⟨-, rfl⟩ := (hOwn name value).mp hEntry
            obtain ⟨-, top, hTop, hPrefix⟩ := (hMem other value').mp hLater
            rcases List.mem_append.mp hTop with hTop | hTop
            · obtain ⟨entry, hChild, rfl⟩ := List.mem_map.mp hTop
              rw [(h.nameOf_child hFind hNode hChild).1] at hPrefix
              obtain ⟨more, rfl⟩ := hPrefix
              rw [List.append_assoc]
              nth_rewrite 1 [← List.append_nil (arena.nameOf id)]
              exact List.append_left_lt (List.nil_lt_cons _ _)
            · have hLeft := (List.pairwise_cons.mp hStacked.parted).1 top hTop
              exact (hLeft.extend List.prefix_rfl hPrefix).lt
          · intro name value
            rw [List.mem_append, hOwn, hMem, ← and_or_left]
            refine and_congr_right fun hGet => ?_
            simp only [List.mem_append, List.mem_cons, or_and_right, exists_or, exists_eq_left]
            rw [h.prefix_iff hFind hNode hGet, or_assoc]

/-- All bindings are listed, in increasing order of their names. -/
theorem WellFormed.toList_ok (h : arena.WellFormed) :
    (arena.toList.Pairwise fun entry later => entry.1 < later.1) ∧
    ∀ name value, (name, value) ∈ arena.toList ↔ arena.get? name = some value := by
  have hRoot : arena.nameOf root = [] := h.nameOf_of_find? rfl
  have hStacked : arena.Stacked [root] := by
    refine ⟨fun id hMem => ?_, List.pairwise_singleton _ _⟩
    rw [List.mem_singleton.mp hMem, hRoot]
    rfl
  have hFuel : (arena.below [root]).card ≤ arena.nodes.size :=
    (Finset.card_filter_le _ _).trans (Finset.card_range _).le
  obtain ⟨hSorted, hMem⟩ := h.listFrom_ok hStacked hFuel
  refine ⟨hSorted, fun name value => (hMem name value).trans (and_iff_left ?_)⟩
  exact ⟨root, List.mem_singleton_self root, by rw [hRoot]; exact List.nil_prefix⟩

def ofEntries (entries : List (List Char × α)) : NodeArena α :=
  entries.foldl (fun arena (name, value) => (arena.insert name value).2) nil

theorem ofEntries_append_singleton (entries : List (List Char × α)) (name : List Char) (value : α) :
    ofEntries (entries ++ [(name, value)]) = ((ofEntries entries).insert name value).2 := by
  rw [ofEntries, List.foldl_append]
  rfl

end MacroMarkup.NodeArena
