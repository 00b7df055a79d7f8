import MacroMarkup.NodeArena
import MacroMarkup.Proofs.PrefixIndex

/-! The array of nodes as a map. The links to the parents undo those to the children, so
every node has one name, and a name is found at one node. An insertion adds nodes for one
name and changes what no other name finds. -/
namespace MacroMarkup

variable {α : Type}

theorem lookup_cons_ite (c d : Char) (child : Nat) (children : List (Char × Nat)) :
    ((c, child) :: children).lookup d = if d = c then some child else children.lookup d := by
  rw [List.lookup_cons]
  by_cases hSame : d = c
  · rw [if_pos hSame, beq_iff_eq.mpr hSame]
  · rw [if_neg hSame, beq_eq_false_iff_ne.mpr hSame]

/-- A new child is found under its character, and the others stay where they were. -/
theorem lookup_linkChild {c : Char} {children : List (Char × Nat)} (hNone : children.lookup c = none)
    (child : Nat) (d : Char) :
    (linkChild c child children).lookup d = if d = c then some child else children.lookup d := by
  induction children with
  | nil => exact lookup_cons_ite c d child []
  | cons entry rest ih =>
      obtain ⟨key, other⟩ := entry
      rw [lookup_cons_ite] at hNone
      split at hNone
      · cases hNone
      · rename_i hKey
        rw [linkChild]
        split
        · exact lookup_cons_ite c d child _
        · rw [lookup_cons_ite, lookup_cons_ite, ih hNone]
          by_cases hHead : d = key
          · rw [if_pos hHead, if_pos hHead, if_neg (hHead ▸ Ne.symm hKey)]
          · rw [if_neg hHead, if_neg hHead]

/-- A child list gets one more entry. -/
theorem mem_linkChild {c : Char} {child : Nat} {children : List (Char × Nat)}
    {entry : Char × Nat} (h : entry ∈ linkChild c child children) :
    entry = (c, child) ∨ entry ∈ children := by
  induction children with
  | nil => exact .inl (List.mem_singleton.mp h)
  | cons head rest ih =>
      rw [linkChild] at h
      split at h
      · exact List.mem_cons.mp h
      · rcases List.mem_cons.mp h with rfl | h
        · exact .inr List.mem_cons_self
        · exact (ih h).imp_right (List.mem_cons_of_mem head)

/-- A new child takes its place in the order. -/
theorem increasing_linkChild {c : Char} {children : List (Char × Nat)}
    (hNone : children.lookup c = none)
    (hIncreasing : children.Pairwise fun entry later => entry.1 < later.1) (child : Nat) :
    (linkChild c child children).Pairwise fun entry later => entry.1 < later.1 := by
  induction children with
  | nil => exact List.pairwise_singleton _ _
  | cons head rest ih =>
      obtain ⟨key, other⟩ := head
      obtain ⟨hHead, hRest⟩ := List.pairwise_cons.mp hIncreasing
      rw [lookup_cons_ite] at hNone
      split at hNone
      · cases hNone
      · rename_i hKey
        rw [linkChild]
        split
        · rename_i hLess
          refine List.pairwise_cons.mpr ⟨fun entry hMem => ?_, hIncreasing⟩
          rcases List.mem_cons.mp hMem with rfl | hMem
          · exact hLess
          · exact lt_trans hLess (hHead entry hMem)
        · rename_i hNotLess
          refine List.pairwise_cons.mpr ⟨fun entry hMem => ?_, ih hNone hRest⟩
          rcases mem_linkChild hMem with rfl | hMem
          · exact lt_of_le_of_ne (not_lt.mp hNotLess) (Ne.symm hKey)
          · exact hHead entry hMem

/-- In an increasing list a lookup finds whatever stands in it. -/
theorem lookup_iff_mem_increasing {children : List (Char × Nat)}
    (hIncreasing : children.Pairwise fun entry later => entry.1 < later.1) {c : Char} {child : Nat} :
    children.lookup c = some child ↔ (c, child) ∈ children :=
  lookup_eq_some_iff_mem (List.pairwise_map.mpr (hIncreasing.imp fun hLess => ne_of_lt hLess))

namespace NodeArena

/-- The links of an arena: no node stands above the root, the child under a character has
that character, points back at its parent and has the greater number, and the children of
every node increase. -/
structure WellFormed (arena : NodeArena α) : Prop where
  rooted : ∃ node, arena.nodes[root]? = some node ∧ node.parent = none
  linked : ∀ id c child, arena.child? id c = some child → id < child ∧
    ∃ node, arena.nodes[child]? = some node ∧ node.key = c ∧ node.parent = some id
  increasing : ∀ (id : Nat) (node : ArenaNode α), arena.nodes[id]? = some node →
    node.children.Pairwise fun entry later => entry.1 < later.1

variable {arena : NodeArena α}

/-- The root alone is well-formed. -/
theorem WellFormed.nil : (NodeArena.nil : NodeArena α).WellFormed where
  rooted := ⟨_, rfl, rfl⟩
  linked id c child h := by
    obtain ⟨node, hNode, hLookup⟩ := Option.bind_eq_some_iff.mp h
    obtain ⟨hId, rfl⟩ := Array.getElem?_eq_some_iff.mp hNode
    simp [NodeArena.nil] at hLookup
  increasing id node h := by
    obtain ⟨hId, rfl⟩ := Array.getElem?_eq_some_iff.mp h
    simp [NodeArena.nil]

theorem find?_append (arena : NodeArena α) (id : Nat) (name rest : List Char) :
    arena.find? id (name ++ rest) = (arena.find? id name).bind (arena.find? · rest) := by
  induction name generalizing id with
  | nil => rfl
  | cons c name ih =>
      rw [List.cons_append, find?, find?]
      split
      · exact ih _
      · rfl

theorem find?_singleton (arena : NodeArena α) (id : Nat) (c : Char) :
    arena.find? id [c] = arena.child? id c := by
  rw [find?]
  split <;> rename_i hChild <;> rw [hChild]
  rfl

/-- A node is a child of the one with the name in front of its last character. -/
theorem find?_snoc (arena : NodeArena α) (name : List Char) (c : Char) :
    arena.find? root (name ++ [c]) = (arena.find? root name).bind (arena.child? · c) := by
  rw [find?_append]
  exact congrArg _ (funext fun id => find?_singleton arena id c)

/-- What is found depends on the links only. -/
theorem find?_congr {arena' : NodeArena α} (h : arena'.child? = arena.child?) (id : Nat)
    (name : List Char) : arena'.find? id name = arena.find? id name := by
  induction name generalizing id with
  | nil => rfl
  | cons c name ih =>
      rw [find?, find?, h]
      split
      · exact ih _
      · rfl

/-- The count does not matter for what is found. -/
theorem get?_congr {arena' : NodeArena α} (h : arena'.nodes = arena.nodes) (name : List Char) :
    arena'.get? name = arena.get? name := by
  have hChild : arena'.child? = arena.child? := by
    funext id c
    rw [child?, child?, h]
  have hValue : arena'.value? = arena.value? := by
    funext id
    rw [value?, value?, h]
  rw [get?, get?, find?_congr hChild, hValue]

/-- A name is found at a node of the array. -/
theorem WellFormed.node_of_find? (h : arena.WellFormed) {name : List Char} {id : Nat}
    (hFind : arena.find? root name = some id) : ∃ node, arena.nodes[id]? = some node := by
  induction name using List.reverseRecOn with
  | nil =>
      cases hFind
      exact h.rooted.imp fun node => And.left
  | append_singleton name c _ =>
      rw [find?_snoc] at hFind
      obtain ⟨parent, -, hChild⟩ := Option.bind_eq_some_iff.mp hFind
      exact (h.linked parent c id hChild).2.imp fun node => And.left

/-- What is found is a node of the arena. -/
theorem WellFormed.lt_of_find? (h : arena.WellFormed) {name : List Char} {id : Nat}
    (hFind : arena.find? root name = some id) : id < arena.nodes.size := by
  obtain ⟨node, hNode⟩ := h.node_of_find? hFind
  exact (Array.getElem?_eq_some_iff.mp hNode).1

/-- Walking back from where a name was found gives the name, since the numbers fall. -/
theorem WellFormed.nameBefore_of_find? (h : arena.WellFormed) {name : List Char} {id : Nat}
    (hFind : arena.find? root name = some id) {fuel : Nat} (hFuel : id ≤ fuel) (behind : List Char) :
    arena.nameBefore fuel id behind = name ++ behind := by
  induction name using List.reverseRecOn generalizing id fuel behind with
  | nil =>
      cases hFind
      obtain ⟨⟨key, above, children, value⟩, hNode, hParent⟩ := h.rooted
      cases hParent
      cases fuel with
      | zero => rfl
      | succ fuel =>
          rw [nameBefore, hNode]
          rfl
  | append_singleton name c ih =>
      rw [find?_snoc] at hFind
      obtain ⟨parent, hName, hChild⟩ := Option.bind_eq_some_iff.mp hFind
      obtain ⟨hLess, node, hNode, hKey, hParent⟩ := h.linked parent c id hChild
      obtain ⟨fuel, rfl⟩ : ∃ less, fuel = less + 1 := ⟨fuel - 1, by omega⟩
      have hStep : arena.nameBefore (fuel + 1) id behind =
          arena.nameBefore fuel parent (c :: behind) := by
        obtain ⟨key, above, children, value⟩ := node
        cases hKey
        cases hParent
        rw [nameBefore, hNode]
      rw [hStep, ih hName (by omega), List.append_assoc]
      rfl

/-- The parent links of a node lead back along the name that it was found under. -/
theorem WellFormed.nameOf_of_find? (h : arena.WellFormed) {name : List Char} {id : Nat}
    (hFind : arena.find? root name = some id) : arena.nameOf id = name := by
  rw [nameOf, h.nameBefore_of_find? hFind (Nat.le_refl id), List.append_nil]

/-- No two names are found at one node. -/
theorem WellFormed.find?_injective (h : arena.WellFormed) {name name' : List Char} {id : Nat}
    (hFind : arena.find? root name = some id) (hFind' : arena.find? root name' = some id) :
    name = name' :=
  (h.nameOf_of_find? hFind).symm.trans (h.nameOf_of_find? hFind')

/-! ### Insertion -/

/-- The nodes behind one that has been linked to a new child. -/
theorem getElem?_link (nodes : Array (ArenaNode α)) (fresh : ArenaNode α) (id i : Nat)
    (f : ArenaNode α → ArenaNode α) (hId : id < nodes.size) :
    ((nodes.push fresh).modify id f)[i]? =
      if i = id then nodes[i]?.map f else if i = nodes.size then some fresh else nodes[i]? := by
  rw [Array.getElem?_modify, Array.getElem?_push]
  by_cases hSame : i = id
  · subst hSame
    rw [if_pos rfl, if_pos rfl, if_neg (Nat.ne_of_lt hId)]
  · rw [if_neg (Ne.symm hSame), if_neg hSame]

/-- Every node of the first arena stands in the second, under the same number, character and
parent. -/
def Placed (arena arena' : NodeArena α) : Prop :=
  ∀ (id : Nat) (node : ArenaNode α), arena.nodes[id]? = some node →
    ∃ node', arena'.nodes[id]? = some node' ∧ node'.key = node.key ∧ node'.parent = node.parent

/-- The root stays the root when a value is stored. -/
theorem WellFormed.rooted_placed (h : arena.WellFormed) {arena' : NodeArena α}
    (hPlaced : arena.Placed arena') : ∃ node, arena'.nodes[root]? = some node ∧ node.parent = none := by
  obtain ⟨node, hNode, hParent⟩ := h.rooted
  obtain ⟨node', hNode', -, hParent'⟩ := hPlaced root node hNode
  exact ⟨node', hNode', hParent'.trans hParent⟩

/-- The links stay as they are when a value is stored. -/
theorem WellFormed.linked_placed (h : arena.WellFormed) {arena' : NodeArena α}
    (hPlaced : arena.Placed arena') {id child : Nat} {c : Char}
    (hLink : arena.child? id c = some child) : id < child ∧
      ∃ node, arena'.nodes[child]? = some node ∧ node.key = c ∧ node.parent = some id := by
  obtain ⟨hLess, node, hNode, hKey, hParent⟩ := h.linked id c child hLink
  obtain ⟨node', hNode', hKey', hParent'⟩ := hPlaced child node hNode
  exact ⟨hLess, node', hNode', hKey'.trans hKey, hParent'.trans hParent⟩

/-- A node that is not there yet has no children. -/
theorem child?_size (arena : NodeArena α) (c : Char) : arena.child? arena.nodes.size c = none := by
  simp [child?]

section Descend

variable {id : Nat} {c : Char}

/-- A child that is there is descended to. -/
theorem descend_of_some {child : Nat} (hChild : arena.child? id c = some child) :
    arena.descend id c = (child, arena) := by
  rw [descend, hChild]

/-- A node that was made is the only new child. -/
theorem child?_descend (hNone : arena.child? id c = none) (hId : id < arena.nodes.size)
    (i : Nat) (d : Char) :
    (arena.descend id c).2.child? i d =
      if i = id ∧ d = c then some arena.nodes.size else arena.child? i d := by
  have hNode : arena.nodes[id]? = some arena.nodes[id] := Array.getElem?_eq_getElem hId
  have hLookup : arena.nodes[id].children.lookup c = none := by
    rwa [child?, hNode, Option.bind_some] at hNone
  rw [descend, hNone]
  change (((arena.nodes.push _).modify id _)[i]?.bind _) = _
  rw [getElem?_link _ _ _ _ _ hId]
  by_cases hSame : i = id
  · subst hSame
    rw [if_pos rfl, hNode, Option.map_some, Option.bind_some, lookup_linkChild hLookup, child?,
      hNode, Option.bind_some]
    simp only [true_and]
  · have hOther : ¬(i = id ∧ d = c) := fun hBoth => hSame hBoth.1
    rw [if_neg hSame, if_neg hOther]
    by_cases hFresh : i = arena.nodes.size
    · rw [if_pos hFresh, hFresh, child?_size]
      rfl
    · rw [if_neg hFresh]
      rfl

/-- A child that is made holds no value, and all other values stay. -/
theorem value?_descend (hNone : arena.child? id c = none) (hId : id < arena.nodes.size) (i : Nat) :
    (arena.descend id c).2.value? i = arena.value? i := by
  rw [descend, hNone, value?, value?, getElem?_link _ _ _ _ _ hId]
  split
  · cases arena.nodes[i]? <;> rfl
  · split
    · rename_i hFresh
      rw [hFresh, Array.getElem?_eq_none (Nat.le_refl _)]
      rfl
    · rfl

/-- Making a node keeps the links of an arena. -/
theorem WellFormed.descend (h : arena.WellFormed) (hId : id < arena.nodes.size) :
    (arena.descend id c).2.WellFormed := by
  generalize hChild : arena.child? id c = found
  cases found with
  | some child => rwa [descend_of_some hChild]
  | none =>
      have hNodes : ∀ i : Nat, (arena.descend id c).2.nodes[i]? = if i = id
          then arena.nodes[i]?.map fun node =>
            { node with children := linkChild c arena.nodes.size node.children }
          else if i = arena.nodes.size then some { key := c, parent := some id }
          else arena.nodes[i]? := by
        intro i
        rw [NodeArena.descend, hChild]
        exact getElem?_link _ _ _ _ _ hId
      have hPlaced : arena.Placed (arena.descend id c).2 := by
        intro i node hNode
        have hOld : i ≠ arena.nodes.size := Nat.ne_of_lt (Array.getElem?_eq_some_iff.mp hNode).1
        rw [hNodes, if_neg hOld, hNode]
        split <;> exact ⟨_, rfl, rfl, rfl⟩
      refine ⟨h.rooted_placed hPlaced, fun i d child hLink => ?_, fun i node hNode => ?_⟩
      · rw [child?_descend hChild hId] at hLink
        split at hLink
        · rename_i hBoth
          obtain ⟨rfl, rfl⟩ := hBoth
          cases hLink
          refine ⟨hId, { key := d, parent := some i }, ?_, rfl, rfl⟩
          rw [hNodes, if_neg (Nat.ne_of_gt hId), if_pos rfl]
        · exact h.linked_placed hPlaced hLink
      · rw [hNodes] at hNode
        split at hNode
        · rename_i hSame
          obtain ⟨old, hOld, rfl⟩ := Option.map_eq_some_iff.mp hNode
          have hLookup : old.children.lookup c = none := by
            rwa [child?, ← hSame, hOld, Option.bind_some] at hChild
          exact increasing_linkChild hLookup (h.increasing i old hOld) _
        · split at hNode
          · cases hNode
            exact .nil
          · exact h.increasing i node hNode

end Descend

/-- An arena that has got further nodes and no further names. -/
structure Grown (arena arena' : NodeArena α) : Prop where
  wellFormed : arena'.WellFormed
  get? : ∀ name, arena'.get? name = arena.get? name
  size : arena'.size = arena.size

theorem WellFormed.grown_refl (h : arena.WellFormed) : Grown arena arena :=
  ⟨h, fun _ => rfl, rfl⟩

theorem Grown.trans {first second third : NodeArena α} (h : Grown first second)
    (h' : Grown second third) : Grown first third :=
  ⟨h'.wellFormed, fun name => (h'.get? name).trans (h.get? name), h'.size.trans h.size⟩

section Reach

variable {name : List Char} {id : Nat}

/-- A node that was made behind a name ends the name with its character, and nothing else
finds it. -/
theorem WellFormed.find?_descend (h : arena.WellFormed) (hFind : arena.find? root name = some id)
    {c : Char} (hNone : arena.child? id c = none) (other : List Char) :
    (arena.descend id c).2.find? root other =
      if other = name ++ [c] then some arena.nodes.size else arena.find? root other := by
  have hId := h.lt_of_find? hFind
  have hMissing : arena.find? root (name ++ [c]) = none := by
    rw [find?_snoc, hFind]
    exact hNone
  induction other using List.reverseRecOn with
  | nil => simp [find?]
  | append_singleton other d ih =>
      rw [find?_snoc, ih, find?_snoc]
      by_cases hNew : other = name ++ [c]
      · -- Below the new node there is nothing yet.
        have hLonger : other ++ [d] ≠ name ++ [c] := by
          intro hEq
          have hLength := congrArg List.length (hEq.trans hNew.symm)
          simp at hLength
        rw [if_pos hNew, if_neg hLonger, hNew, hMissing, Option.bind_some, child?_descend hNone hId,
          if_neg fun hBoth => Nat.ne_of_gt hId hBoth.1, child?_size]
        rfl
      · rw [if_neg hNew]
        generalize hOther : arena.find? root other = found
        cases found with
        | none =>
            have hNe : other ++ [d] ≠ name ++ [c] := by
              intro hEq
              rw [(List.append_inj_left' hEq rfl), hFind] at hOther
              cases hOther
            rw [if_neg hNe]
            rfl
        | some i =>
            rw [Option.bind_some, Option.bind_some, child?_descend hNone hId]
            have hIff : (i = id ∧ d = c) ↔ other ++ [d] = name ++ [c] := by
              constructor
              · rintro ⟨rfl, rfl⟩
                rw [h.find?_injective hOther hFind]
              · intro hEq
                obtain ⟨rfl, hLast⟩ := List.append_inj' hEq rfl
                rw [hFind] at hOther
                exact ⟨(Option.some.inj hOther).symm, List.head_eq_of_cons_eq hLast⟩
            simp only [hIff]

/-- One character down from where a name ends: the longer name ends there, and every name
has the value it had. -/
theorem WellFormed.descend_grown (h : arena.WellFormed) (hFind : arena.find? root name = some id)
    (c : Char) :
    Grown arena (arena.descend id c).2 ∧
      (arena.descend id c).2.find? root (name ++ [c]) = some (arena.descend id c).1 := by
  generalize hChild : arena.child? id c = found
  cases found with
  | some child =>
      rw [descend_of_some hChild]
      refine ⟨h.grown_refl, ?_⟩
      rw [find?_snoc, hFind]
      exact hChild
  | none =>
      have hId := h.lt_of_find? hFind
      refine ⟨⟨h.descend hId, fun other => ?_, ?_⟩, ?_⟩
      · rw [NodeArena.get?, NodeArena.get?, h.find?_descend hFind hChild,
          funext (value?_descend hChild hId)]
        split
        · rename_i hNew
          rw [hNew, find?_snoc, hFind, Option.bind_some, Option.bind_some, hChild]
          simp [value?]
        · rfl
      · rw [NodeArena.descend, hChild]
      · rw [h.find?_descend hFind hChild, if_pos rfl, NodeArena.descend, hChild]

/-- The node at the end of a name can always be reached. -/
theorem WellFormed.reach_grown (h : arena.WellFormed) (hFind : arena.find? root name = some id)
    (rest : List Char) :
    Grown arena (arena.reach id rest).2 ∧
      (arena.reach id rest).2.find? root (name ++ rest) = some (arena.reach id rest).1 := by
  induction rest generalizing arena name id with
  | nil =>
      rw [List.append_nil]
      exact ⟨h.grown_refl, hFind⟩
  | cons c rest ih =>
      obtain ⟨hGrown, hDown⟩ := h.descend_grown hFind c
      obtain ⟨hRest, hEnd⟩ := ih hGrown.wellFormed hDown
      rw [List.append_assoc] at hEnd
      exact ⟨hGrown.trans hRest, hEnd⟩

end Reach

section SetValue

variable {name : List Char} {id : Nat}

/-- Another value at a node changes no links. -/
theorem child?_setValue (arena : NodeArena α) (id : Nat) (value : α) :
    (arena.setValue id value).child? = arena.child? := by
  funext i c
  rw [child?, child?, setValue, Array.getElem?_modify]
  split
  · cases arena.nodes[i]? <;> rfl
  · rfl

/-- Storing a value keeps all links. -/
theorem WellFormed.setValue (h : arena.WellFormed) (id : Nat) (value : α) :
    (arena.setValue id value).WellFormed := by
  have hPlaced : arena.Placed (arena.setValue id value) := by
    intro i node hNode
    rw [NodeArena.setValue, Array.getElem?_modify, hNode]
    split <;> exact ⟨_, rfl, rfl, rfl⟩
  refine ⟨h.rooted_placed hPlaced, fun i c child hLink => ?_, fun i node hNode => ?_⟩
  · rw [child?_setValue] at hLink
    exact h.linked_placed hPlaced hLink
  · rw [NodeArena.setValue, Array.getElem?_modify] at hNode
    split at hNode
    · obtain ⟨old, hOld, rfl⟩ := Option.map_eq_some_iff.mp hNode
      exact h.increasing i old hOld
    · exact h.increasing i node hNode

/-- It stands at its own node, and all other values stay. -/
theorem value?_setValue {node : ArenaNode α} (hNode : arena.nodes[id]? = some node) (value : α)
    (i : Nat) : (arena.setValue id value).value? i = if i = id then some value else arena.value? i := by
  rw [value?, value?, setValue, Array.getElem?_modify]
  by_cases hSame : i = id
  · rw [if_pos hSame.symm, if_pos hSame, hSame, hNode]
    rfl
  · rw [if_neg (Ne.symm hSame), if_neg hSame]

/-- A value at the end of a name binds that name only. -/
theorem WellFormed.get?_setValue (h : arena.WellFormed) (hFind : arena.find? root name = some id)
    (value : α) (other : List Char) :
    (arena.setValue id value).get? other = if other = name then some value else arena.get? other := by
  obtain ⟨node, hNode⟩ := h.node_of_find? hFind
  rw [get?, get?, find?_congr (child?_setValue arena id value)]
  generalize hOther : arena.find? root other = found
  cases found with
  | none =>
      have hNe : other ≠ name := by
        rintro rfl
        rw [hOther] at hFind
        cases hFind
      rw [if_neg hNe]
      rfl
  | some i =>
      rw [Option.bind_some, Option.bind_some, value?_setValue hNode]
      have hIff : i = id ↔ other = name := by
        constructor
        · rintro rfl
          exact h.find?_injective hOther hFind
        · rintro rfl
          exact Option.some.inj (hOther.symm.trans hFind)
      simp only [hIff]

end SetValue

/-- What an insertion does to an arena: it gives back the value that it replaces, binds its
name and leaves the other names, and counts the name unless it was there. -/
theorem WellFormed.insert_ok (h : arena.WellFormed) (name : List Char) (value : α) :
    (arena.insert name value).1 = arena.get? name ∧
    (arena.insert name value).2.WellFormed ∧
    (∀ other, (arena.insert name value).2.get? other =
      if other = name then some value else arena.get? other) ∧
    (arena.insert name value).2.size =
      if (arena.get? name).isSome then arena.size else arena.size + 1 := by
  have hStart : arena.find? root [] = some root := rfl
  obtain ⟨hGrown, hEnd⟩ := h.reach_grown hStart name
  rw [List.nil_append] at hEnd
  have hPrevious : (arena.reach root name).2.value? (arena.reach root name).1 = arena.get? name := by
    rw [← hGrown.get?, get?, hEnd]
    rfl
  have hBound := hGrown.wellFormed.setValue (arena.reach root name).1 value
  refine ⟨hPrevious, ⟨hBound.rooted, hBound.linked, hBound.increasing⟩, fun other => ?_, ?_⟩
  · rw [← hGrown.get?, ← hGrown.wellFormed.get?_setValue hEnd value other]
    refine get?_congr ?_ other
    rfl
  · change (if ((arena.reach root name).2.value? _).isNone then (arena.reach root name).2.size + 1
      else (arena.reach root name).2.size) = _
    rw [hPrevious, hGrown.size]
    cases arena.get? name <;> rfl

end NodeArena

end MacroMarkup
