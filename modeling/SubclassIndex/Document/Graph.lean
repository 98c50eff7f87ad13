import SubclassIndex.Document.Value

/-!
# Graphs of values

The objects of a document refer to each other by their places, so that one object may be part of
several others and even of itself. Seen from one of them a document is a value, in which a
collection that encloses itself is only marked where it does. An object is part of the value that
is seen from any other object that leads to it, and may be marked elsewhere there.
-/

namespace SubclassIndex.Document

/-- An object of a document. The parts of a collection are given by their places. -/
inductive Object
  | scalar (s : Scalar)
  | list (items : List Nat)
  | pair (first second : Nat)
  | set (members : List Scalar)
  | map (entries : List (Scalar × Nat))

namespace Object

/-- Whether an object counts as true: whether it is not null, false, zero or empty. -/
def isTruthy : Object → Bool
  | scalar s => s.isTruthy
  | list items => !items.isEmpty
  | pair _ _ => true
  | set members => !members.isEmpty
  | map entries => !entries.isEmpty

/-- What marks the object inside of itself. -/
def loopMark : Object → Value
  | scalar s => .scalar s
  | list _ => .listLoop
  | pair _ _ => .pairLoop
  | set members => .set members
  | map _ => .mapLoop

end Object

/-- The objects of a document and the place of the one from which it is seen. -/
structure Graph where
  objects : Array Object
  root : Nat

namespace Graph

/-- The graph of a single scalar. -/
def ofScalar (s : Scalar) : Graph := ⟨#[.scalar s], 0⟩

/-- The object in a place. -/
def objectAt (g : Graph) (place : Nat) : Object := g.objects.getD place (.scalar .null)

/-- The object from which the document is seen. -/
def object (g : Graph) : Object := g.objectAt g.root

/-- The document seen from another object. -/
def seenFrom (g : Graph) (place : Nat) : Graph := { g with root := place }

/-- The value of the object in a place inside of others. A chain of objects without repetition is
at most `depth` long. -/
def valueIn (g : Graph) : Nat → List Nat → Nat → Value
  | 0, _, place => (g.objectAt place).loopMark
  | depth + 1, around, place =>
    if place ∈ around then (g.objectAt place).loopMark
    else
      let inner := g.valueIn depth (place :: around)
      match g.objectAt place with
      | .scalar s => .scalar s
      | .list items => .list (items.map inner)
      | .pair a b => .pair (inner a) (inner b)
      | .set members => .set members
      | .map entries => .map (entries.map fun e => (e.1, inner e.2))

/-- The value of the object from which the document is seen. -/
def value (g : Graph) : Value := g.valueIn (g.objects.size + 1) [] g.root

/-- The value of the document, in which the items of a list are each seen from themselves. -/
def itemwise (g : Graph) : Value :=
  match g.object with
  | .list items => .list (items.map fun i => (g.seenFrom i).value)
  | _ => g.value

/-- The entry under a text among some entries. -/
def lookup (name : Text) : List (Scalar × Nat) → Option Nat
  | [] => none
  | e :: rest => if e.1.sameKey (.text name) then some e.2 else lookup name rest

/-- The document seen from the entry under a text. -/
def field? (g : Graph) (name : Text) : Option Graph :=
  match g.object with
  | .map entries => (lookup name entries).map g.seenFrom
  | _ => none

end Graph

end SubclassIndex.Document
