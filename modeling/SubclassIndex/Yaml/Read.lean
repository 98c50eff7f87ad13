import SubclassIndex.Yaml.Layout
import SubclassIndex.Yaml.Meaning
import SubclassIndex.Yaml.Structure

/-!
# Reading documents

A text holds one document at most. Directives and a mark may come before it and marks after it.
Without a document there is the value null.
-/

namespace SubclassIndex.Yaml

/-- The directives from a place on: what handles stand for, and the place after them. `versioned`
says whether there was a version already. -/
def readDirectives (ts : Array Token) (versioned : Bool) (handles : Handles) (p : Nat) :
    Except Fault (Handles × Nat) :=
  match _h : ts[p]? with
  | some (.directive (.version major _)) =>
    if versioned ∨ major ≠ 1 then .error .malformed else readDirectives ts true handles (p + 1)
  | some (.directive (.handle name start)) =>
    if handles.contains name then .error .malformed
    else readDirectives ts versioned (handles.insert name start) (p + 1)
  | some (.directive .other) => readDirectives ts versioned handles (p + 1)
  | _ => .ok (handles, p)
termination_by ts.size - p
decreasing_by all_goals have := lt_size_of_token _h; omega

/-- The handles that directives define and the standard ones. -/
def withStandard (handles : Handles) : Handles :=
  standardHandles.entries.foldl (fun h e => h.insertNew e.1 e.2) handles

/-- Whether a document that was begun by a mark has no content before a token. -/
def endsDocument : Token → Bool
  | .directive _ | .documentStart | .documentEnd => true
  | _ => false

/-- The root of a document that directives or a mark begin. -/
def readMarked (ts : Array Token) : Parsed Nat :=
  (readDirectives ts false ∅ 0).bind fun (handles, p) =>
    if ts[p]? ≠ some .documentStart then unexpected ts[p]?
    else if ts[p + 1]?.all endsDocument then
      let (place, d) := Draft.addNothing {}
      .ok (place, d, p + 1)
    else readNode ts (withStandard handles) maxDepth .block {} (p + 1)

/-- The place after the marks that come next. -/
def skipMarks (ts : Array Token) (p : Nat) : Nat :=
  match _h : ts[p]? with
  | some .documentEnd => skipMarks ts (p + 1)
  | _ => p
termination_by ts.size - p
decreasing_by have := lt_size_of_token _h; omega

/-- Nothing more than marks may come after a document. -/
def checkEnd (ts : Array Token) (p : Nat) : Except Fault Unit :=
  let p := skipMarks ts p
  if ts.size ≤ p then .ok ()
  else (readDirectives ts false ∅ p).bind fun (_, p) => unexpected ts[p]?

/-- The nodes and the root of the only document among tokens, if there is a document. -/
def readOnly (ts : Array Token) : Except Fault (Option (Nodes × Nat)) :=
  match ts[0]? with
  | none => .ok none
  | some t => do
    let begins := t ≠ .documentEnd && endsDocument t
    let (root, d, p) ←
      if begins then readMarked ts else readNode ts standardHandles maxDepth .block {} 0
    checkEnd ts p
    .ok (some (d.nodes, root))

/-- The document in a text. -/
def read (t : Text) : Except Fault Document.Graph := do
  match ← readOnly (tokens t) with
  | some (nodes, root) => nodes.meaning root
  | none => .ok (.ofScalar .null)

end SubclassIndex.Yaml
