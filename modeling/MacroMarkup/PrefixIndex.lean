/-! A map keyed by names that can find, in one walk, the longest key a text
starts with. -/
namespace MacroMarkup

/-- Tries with a common parent: each node has its character, the value of the
name that ends there, its children, and its next sibling. Siblings stand in
increasing order of their characters. -/
inductive Forest (α : Type) where
  | nil
  | node (key : Char) (value : Option α) (children next : Forest α)
  deriving DecidableEq, Inhabited

namespace Forest

variable {α : Type}

/-- The forest that holds one name only. The empty name is in no forest. -/
def single (value : α) : List Char → Forest α
  | [] => nil
  | [c] => node c (some value) nil nil
  | c :: rest => node c none (single value rest) nil

/-- Binds a nonempty name, replacing what it was bound to. -/
def insert (value : α) : List Char → Forest α → Forest α
  | [], forest => forest
  | name, nil => single value name
  | c :: rest, node key held children next =>
    if c = key then
      match rest with
      | [] => node key (some value) children next
      | _ => node key held (insert value rest children) next
    else if c < key then
      match single value (c :: rest) with
      | node _ top below _ => node c top below (node key held children next)
      | nil => node key held children next
    else
      node key held children (insert value (c :: rest) next)

def get? : List Char → Forest α → Option α
  | [], _ => none
  | _, nil => none
  | c :: rest, node key value children next =>
    if c = key then
      match rest with
      | [] => value
      | _ => get? rest children
    else get? (c :: rest) next

/-- The longest stored name that the text starts with, by its length. -/
def longest? : List Char → Forest α → Option (Nat × α)
  | [], _ => none
  | _, nil => none
  | c :: rest, node key value children next =>
    if c = key then
      match longest? rest children with
      | some (length, found) => some (length + 1, found)
      | none => value.map (1, ·)
    else longest? (c :: rest) next

/-- The number of stored names. -/
def size : Forest α → Nat
  | nil => 0
  | node _ value children next =>
    (if value.isSome then 1 else 0) + size children + size next

/-- The stored names in lexicographic order, each behind the path that leads
to the forest, which is given nearest character first. -/
def toList (path : List Char) : Forest α → List (List Char × α)
  | nil => []
  | node key value children next =>
    (value.map ((key :: path).reverse, ·)).toList ++
      toList (key :: path) children ++ toList path next

end Forest

/-- A map from names to values. The empty name is a key like any other for
`get?`, and is never found at the start of a text. -/
structure PrefixIndex (α : Type) where
  empty : Option α
  forest : Forest α
  deriving DecidableEq, Inhabited

namespace PrefixIndex

variable {α : Type}

def nil : PrefixIndex α :=
  { empty := none, forest := .nil }

def get? (index : PrefixIndex α) (name : List Char) : Option α :=
  match name with
  | [] => index.empty
  | _ => index.forest.get? name

def contains (index : PrefixIndex α) (name : List Char) : Bool :=
  (index.get? name).isSome

/-- Binds a name. The first component is the value that this replaces. -/
def insert (index : PrefixIndex α) (name : List Char) (value : α) :
    Option α × PrefixIndex α :=
  (index.get? name,
    match name with
    | [] => { index with empty := some value }
    | _ => { index with forest := index.forest.insert value name })

/-- The longest nonempty key that the text starts with, by its length, and its
value. -/
def longest? (index : PrefixIndex α) (text : List Char) : Option (Nat × α) :=
  index.forest.longest? text

/-- The number of keys. -/
def size (index : PrefixIndex α) : Nat :=
  (if index.empty.isSome then 1 else 0) + index.forest.size

def isEmpty (index : PrefixIndex α) : Bool :=
  index.size == 0

/-- The bindings in increasing lexicographic order of their names. -/
def toList (index : PrefixIndex α) : List (List Char × α) :=
  (index.empty.map ([], ·)).toList ++ index.forest.toList []

end PrefixIndex

end MacroMarkup
