import SubclassIndex.Document.Graph
import SubclassIndex.Table
import SubclassIndex.Text.Base64
import SubclassIndex.Yaml.Merge
import SubclassIndex.Yaml.Number
import SubclassIndex.Yaml.Timestamp

/-!
# Meaning

What the nodes of a document mean. A node means one object, however many aliases lead to it. Scalars
get their values as soon as they are met; collections begin empty and are filled in the order in
which they are met, from the root on. So of several faults the one that is met first in this order
counts, and a collection may contain itself.
-/

namespace SubclassIndex.Yaml

open Document

/-- A date or time, if there is such a one. -/
def timeValue : WrittenTime → Except Fault Scalar
  | .date d => if d.isValid then .ok (.date d) else .error .outOfRange
  | .time t => if t.isValid then .ok (.time t) else .error .outOfRange

/-- The words for truth values in small letters. -/
def truthWords : List (Text × Bool) :=
  [("yes", true), ("no", false), ("true", true), ("false", false), ("on", true), ("off", false)]

/-- The value of a text under a type of scalars. -/
def scalarValue (tag : Tag) (t : Text) : Except Fault Scalar :=
  match tag with
  | .null => .ok .null
  | .bool =>
    match Table.lookup t.toLowerAscii truthWords with
    | some b => .ok (.bool b)
    | none => .error .noTruthValue
  | .int => (readInt t).map .int
  | .float =>
    (readFloat t).map fun
      | some x => .float x
      | none => .noNumber
  | .binary =>
    match Base64.decode? t with
    | some bytes => .ok (.bytes bytes)
    | none => .error .malformed
  | .timestamp =>
    match writtenTime? t.withoutFinalBreak with
    | some w => timeValue w
    | none => .error .noTimestamp
  | .text => .ok (.text t)
  | _ => .error .malformed

/-- The empty object of a type of collections. -/
def Tag.emptyObject? : Tag → Option Object
  | list | orderedMap | pairs => some (.list [])
  | map => some (.map [])
  | set => some (.set [])
  | _ => none

/-- The types of scalars. -/
def Tag.isScalar (tag : Tag) : Bool :=
  tag ∈ [null, bool, int, float, binary, timestamp, text]

/-- The objects that have been made for the nodes so far. -/
structure Making where
  nodes : Nodes
  /-- How many entries of the nodes have the merge key at most. -/
  merges : Nat
  /-- The object of each node that has one, and after them the pairs. -/
  objects : Array (Option Object)
  /-- The collections that are to be filled, in their order. -/
  waiting : Array Nat := #[]

namespace Making

/-- The beginning, without objects. -/
def start (ns : Nodes) : Making := ⟨ns, ns.mergeCount, Array.replicate ns.size none, #[]⟩

/-- The object of a node. -/
def object? (m : Making) (place : Nat) : Option Object := (m.objects[place]?).join

/-- Gives a node its object. -/
def set (m : Making) (place : Nat) (o : Object) : Making :=
  { m with objects := m.objects.setIfInBounds place (some o) }

/-- Adds a pair and gives its place. -/
def addPair (m : Making) (first second : Nat) : Nat × Making :=
  (m.objects.size, { m with objects := m.objects.push (some (.pair first second)) })

/-- The value of a node whose type is one of scalars. The value of a date has to be written by the
node itself. -/
def scalarOf (m : Making) (tag : Tag) (place : Nat) : Except Fault Scalar :=
  if !tag.isScalar then .error .malformed
  else
    match m.nodes.scalarText (m.nodes.size + 1) place with
    | .error e => .error e
    | .ok t =>
      if tag = .timestamp ∧ (m.nodes.entries? place).isSome then .error .mappedTimestamp
      else scalarValue tag t

/-- Makes the object of a node unless there is one. -/
def meet (m : Making) (place : Nat) : Except Fault Making :=
  match m.object? place, m.nodes[place]? with
  | some _, _ => .ok m
  | none, none => .error .malformed
  | none, some n =>
    match n.tag.emptyObject? with
    | some o => .ok { m.set place o with waiting := m.waiting.push place }
    | none => (m.scalarOf n.tag place).map fun s => m.set place (.scalar s)

/-- The scalar that a node means, which can be a key. -/
def keyOf (m : Making) (place : Nat) : Except Fault Scalar :=
  match m.object? place with
  | some (.scalar s) => .ok s
  | _ => .error .malformed

/-- The entries of a mapping with another one. An old key keeps its place and gets the new value. A
key is the same as one of equal value, and as itself. -/
def putEntry (keyPlace : Nat) (k : Scalar) (v : Nat) :
    List (Nat × Scalar × Nat) → List (Nat × Scalar × Nat)
  | [] => [(keyPlace, k, v)]
  | e :: rest =>
    if e.1 = keyPlace || e.2.1.sameKey k then (e.1, e.2.1, v) :: rest
    else e :: putEntry keyPlace k v rest

/-- The entries of a mapping, of which those before are done. -/
def fillEntries (m : Making) (done : List (Nat × Scalar × Nat)) :
    List (Nat × Nat) → Except Fault (List (Scalar × Nat) × Making)
  | [] => .ok (done.map Prod.snd, m)
  | (k, v) :: rest => do
    let m ← m.meet k
    let key ← m.keyOf k
    let m ← m.meet v
    m.fillEntries (putEntry k key v done) rest

/-- The entries of the mapping in a place after it has taken over what it merges. -/
def fillMapping (m : Making) (place : Nat) : Except Fault (List (Scalar × Nat) × Making) :=
  match m.nodes.entries? place with
  | none => .error .malformed
  | some _ => do
    let ⟨nodes, merges, objects, waiting⟩ := m
    let nodes ← nodes.mergeInto merges place []
    let entries := (nodes.entries? place).getD []
    Making.fillEntries ⟨nodes, merges, objects, waiting⟩ [] entries

/-- The pairs that mappings with one entry each mean. `done` holds those before, backwards. -/
def fillPairs (m : Making) (done : List Nat) : List Nat → Except Fault (List Nat × Making)
  | [] => .ok (done.reverse, m)
  | item :: rest =>
    match m.nodes.entries? item with
    | some [(k, v)] => do
      let m ← m.meet k
      let m ← m.meet v
      let (pair, m) := m.addPair k v
      m.fillPairs (pair :: done) rest
    | _ => .error .malformed

/-- Fills the collection in a place. -/
def fill (m : Making) (place : Nat) : Except Fault Making :=
  match m.nodes[place]? with
  | some ⟨.list, .list items⟩ => do
    let m ← items.foldlM meet m
    .ok (m.set place (.list items))
  | some ⟨.map, _⟩ => do
    let (entries, m) ← m.fillMapping place
    .ok (m.set place (.map entries))
  | some ⟨.set, _⟩ => do
    let (entries, m) ← m.fillMapping place
    .ok (m.set place (.set (Scalar.memberOrder (entries.map Prod.fst))))
  | some ⟨.orderedMap, .list items⟩ | some ⟨.pairs, .list items⟩ => do
    let (pairs, m) ← m.fillPairs [] items
    .ok (m.set place (.list pairs))
  | _ => .error .malformed

/-- Fills the waiting collections from a number on, and those that are met there. Each node waits
once, so there are at most `count` more. -/
def fillAll (m : Making) (next : Nat) : Nat → Except Fault Making
  | 0 => .ok m
  | count + 1 =>
    match m.waiting[next]? with
    | none => .ok m
    | some place =>
      match m.fill place with
      | .error e => .error e
      | .ok m => m.fillAll (next + 1) count

end Making

/-- What the node in a place means. -/
def Nodes.meaning (ns : Nodes) (root : Nat) : Except Fault Graph := do
  let m ← (Making.start ns).meet root
  let m ← m.fillAll 0 ns.size
  .ok ⟨m.objects.map fun o => o.getD (.scalar .null), root⟩

end SubclassIndex.Yaml
