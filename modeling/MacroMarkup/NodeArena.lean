/-! The index of names as it is kept in memory: nodes in one array that point at their
parents and at their children by number, so that a name is rebuilt by walking back to the
root. -/
namespace MacroMarkup

/-- The last character of a path and what stands at it. The children increase by their
characters. -/
structure ArenaNode (α : Type) where
  key : Char
  parent : Option Nat
  children : List (Char × Nat) := []
  value : Option α := none
  deriving Inhabited

/-- Adds a child under a character that has none, keeping the order. -/
def linkChild (c : Char) (child : Nat) : List (Char × Nat) → List (Char × Nat)
  | [] => [(c, child)]
  | (d, other) :: rest =>
    if c < d then (c, child) :: (d, other) :: rest else (d, other) :: linkChild c child rest

/-- The nodes, each under its number, and the number of stored names. -/
structure NodeArena (α : Type) where
  nodes : Array (ArenaNode α)
  size : Nat
  deriving Inhabited

namespace NodeArena

variable {α : Type}

/-- The number of the node at which every name starts. -/
def root : Nat := 0

def nil : NodeArena α :=
  { nodes := #[{ key := '\x00', parent := none }], size := 0 }

def child? (arena : NodeArena α) (id : Nat) (c : Char) : Option Nat :=
  arena.nodes[id]?.bind fun node => node.children.lookup c

def value? (arena : NodeArena α) (id : Nat) : Option α :=
  arena.nodes[id]?.bind ArenaNode.value

/-- One character down from a node. The child is made if there is none. -/
def descend (arena : NodeArena α) (id : Nat) (c : Char) : Nat × NodeArena α :=
  match arena.child? id c with
  | some child => (child, arena)
  | none =>
    let child := arena.nodes.size
    let nodes := arena.nodes.push { key := c, parent := some id }
    (child, { arena with
      nodes := nodes.modify id fun node =>
        { node with children := linkChild c child node.children } })

/-- The node at the end of a name, behind another node. -/
def reach (arena : NodeArena α) (id : Nat) : List Char → Nat × NodeArena α
  | [] => (id, arena)
  | c :: rest =>
    let (child, arena) := arena.descend id c
    arena.reach child rest

def setValue (arena : NodeArena α) (id : Nat) (value : α) : NodeArena α :=
  { arena with nodes := arena.nodes.modify id fun node => { node with value := some value } }

/-- Binds a name. The first component is the value that this replaces. -/
def insert (arena : NodeArena α) (name : List Char) (value : α) : Option α × NodeArena α :=
  let (id, arena) := arena.reach root name
  let previous := arena.value? id
  let size := if previous.isNone then arena.size + 1 else arena.size
  (previous, { arena.setValue id value with size })

def find? (arena : NodeArena α) (id : Nat) : List Char → Option Nat
  | [] => some id
  | c :: rest =>
    match arena.child? id c with
    | some child => arena.find? child rest
    | none => none

def get? (arena : NodeArena α) (name : List Char) : Option α :=
  (arena.find? root name).bind arena.value?

def contains (arena : NodeArena α) (name : List Char) : Bool :=
  (arena.get? name).isSome

/-- Walks along a text as far as there are nodes. Of the nodes that hold a value, `best` is
the last one passed, with the length of its name. -/
def walk (arena : NodeArena α) (id length : Nat) (best : Option (Nat × Nat)) :
    List Char → Option (Nat × Nat)
  | [] => best
  | c :: rest =>
    match arena.child? id c with
    | none => best
    | some child =>
      let best := if (arena.value? child).isSome then some (length + 1, child) else best
      arena.walk child (length + 1) best rest

/-- The longest nonempty name that the text starts with, by its length, and its value. -/
def longest? (arena : NodeArena α) (text : List Char) : Option (Nat × α) :=
  (arena.walk root 0 none text).bind fun (length, id) =>
    (arena.value? id).map (length, ·)

def isEmpty (arena : NodeArena α) : Bool :=
  arena.size == 0

/-- The characters on the way back to the root, in front of those passed already. -/
def nameBefore (arena : NodeArena α) : (fuel id : Nat) → List Char → List Char
  | 0, _, name => name
  | fuel + 1, id, name =>
    match arena.nodes[id]? with
    | some { key, parent := some parent, .. } => arena.nameBefore fuel parent (key :: name)
    | _ => name

/-- The name that ends at a node. A parent has a smaller number than its children, so
there are no more steps to the root than the number of the node. -/
def nameOf (arena : NodeArena α) (id : Nat) : List Char :=
  arena.nameBefore id id []

/-- Lists the names at the nodes of a stack and below them. Every node is put on the stack
once, so there are no more steps than nodes. -/
def listFrom (arena : NodeArena α) : (fuel : Nat) → (stack : List Nat) → List (List Char × α)
  | 0, _ => []
  | _, [] => []
  | fuel + 1, id :: stack =>
    match arena.nodes[id]? with
    | none => arena.listFrom fuel stack
    | some node =>
      (node.value.map (arena.nameOf id, ·)).toList ++
        arena.listFrom fuel (node.children.map Prod.snd ++ stack)

/-- The bindings in increasing lexicographic order of their names. -/
def toList (arena : NodeArena α) : List (List Char × α) :=
  arena.listFrom arena.nodes.size [root]

end NodeArena

end MacroMarkup
