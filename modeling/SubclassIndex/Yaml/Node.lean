import SubclassIndex.Yaml.Fault
import SubclassIndex.Yaml.Tag

/-!
# Nodes

The nodes of a document: scalars, lists and mappings, each with its type. The parts of a collection
are given by their places among all nodes, and an alias is the place of the node that it stands for;
so a node may be part of several others and even of itself.
-/

namespace SubclassIndex.Yaml

/-- What a node holds. -/
inductive Content
  | scalar (text : Text)
  | list (items : List Nat)
  | map (entries : List (Nat × Nat))

/-- A node of a document. -/
structure Node where
  tag : Tag
  content : Content

/-- The node of a place where nothing is written. -/
def Node.nothing : Node := ⟨.null, .scalar []⟩

/-- The nodes of a document by their places. -/
abbrev Nodes := Array Node

namespace Nodes

/-- Whether the node in a place has a type. -/
def hasTag (ns : Nodes) (tag : Tag) (place : Nat) : Bool :=
  match ns[place]? with
  | some n => n.tag = tag
  | none => false

/-- The entries of the mapping in a place. -/
def entries? (ns : Nodes) (place : Nat) : Option (List (Nat × Nat)) :=
  match ns[place]? with
  | some ⟨_, .map entries⟩ => some entries
  | _ => none

/-- The nodes with the content of one changed. -/
def withContent (ns : Nodes) (place : Nat) (content : Content) : Nodes :=
  ns.modify place fun n => { n with content }

/-- The nodes with the type of one changed. -/
def withTag (ns : Nodes) (place : Nat) (tag : Tag) : Nodes :=
  ns.modify place fun n => { n with tag }

/-- The text of the node in a place: that of a scalar, or of the value that stands for a mapping.
A chain of mappings without repetition is at most `depth` long. -/
def scalarText (ns : Nodes) : Nat → Nat → Except Fault Text
  | 0, _ => .error .tooDeep
  | depth + 1, place =>
    match ns[place]? with
    | some ⟨_, .scalar t⟩ => .ok t
    | some ⟨_, .map entries⟩ =>
      match entries.find? fun e => ns.hasTag .default e.1 with
      | some e => ns.scalarText depth e.2
      | none => .error .malformed
    | _ => .error .malformed

end Nodes

end SubclassIndex.Yaml
