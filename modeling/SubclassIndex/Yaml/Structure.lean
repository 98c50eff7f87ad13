import SubclassIndex.Table
import SubclassIndex.Yaml.Node
import SubclassIndex.Yaml.PlainTag
import SubclassIndex.Yaml.Token

/-!
# Structure

How the tokens of a document form its nodes. Where a node is left out, there is the node of nothing.
An alias stands for a node whose anchor comes before it, and no anchor occurs twice. The tokens are
looked at one by one, so a fault between two of them counts only if nothing was wrong before it.
-/

namespace SubclassIndex.Yaml

/-- What the handles of tags stand for. -/
abbrev Handles := Table Text Text

/-- The handles that need no directive. -/
def standardHandles : Handles :=
  (Table.empty.insert ("!" : Text) ("!" : Text)).insert ("!!" : Text) Tag.standardStart

/-- The tag that leaves the type to the spelling or the kind of the node. -/
def bareTag : Text := "!"

/-- The full name of a tag. -/
def tagName (handles : Handles) (t : TagSpelling) : Except Fault Text :=
  match t.handle with
  | none => .ok t.suffix
  | some handle =>
    match handles.get? handle with
    | some start => .ok (start ++ t.suffix)
    | none => .error .malformed

/-- The type of a scalar. -/
def scalarTag (name : Option Text) (text : Text) (plain : Bool) : Tag :=
  match name with
  | none => if plain then .ofPlain text else .text
  | some name => if name = bareTag then .ofPlain text else .ofName name

/-- The type of a collection, which has a usual one. -/
def collectionTag (usual : Tag) (name : Option Text) : Tag :=
  match name with
  | none => usual
  | some name => if name = bareTag then usual else .ofName name

/-- Where a node stands. -/
inductive Setting
  /-- In a flow collection. -/
  | flow
  /-- In a block list or alone. -/
  | block
  /-- In a block mapping, where the items of a list need no further indentation. -/
  | blockEntry
  deriving DecidableEq

/-- The tokens before which a key or a value is left out in a mapping of a setting. -/
def endsPart (inList : Bool) (setting : Setting) (t : Token) : Bool :=
  match setting with
  | .flow =>
    t = .value || t = .flowEntry || t = if inList then .flowSequenceEnd else .flowMappingEnd
  | _ => t = .key || t = .value || t = .blockEnd

/-- The nodes of a document up to some token. -/
structure Draft where
  nodes : Nodes := #[]
  /-- The places of the nodes with anchors. -/
  anchors : Table Text Nat := ∅

namespace Draft

/-- Adds a node, which may have an anchor, and gives its place. -/
def add (d : Draft) (anchor : Option Text) (n : Node) : Except Fault (Nat × Draft) :=
  let place := d.nodes.size
  let nodes := d.nodes.push n
  match anchor with
  | none => .ok (place, { d with nodes })
  | some name =>
    if d.anchors.contains name then .error .malformed
    else .ok (place, ⟨nodes, d.anchors.insert name place⟩)

/-- Adds the node of nothing. -/
def addNothing (d : Draft) : Nat × Draft :=
  (d.nodes.size, { d with nodes := d.nodes.push .nothing })

/-- Gives a node its content. -/
def fill (d : Draft) (place : Nat) (content : Content) : Draft :=
  { d with nodes := d.nodes.withContent place content }

end Draft

/-- What tokens form, the nodes up to there, and the place of the token after it. -/
abbrev Parsed (α : Type) := Except Fault (α × Draft × Nat)

/-- What is wrong where none of the tokens comes next that may. -/
def unexpected {α : Type} : Option Token → Except Fault α
  | some (.broken f) => .error f
  | _ => .error .malformed

/-- How many nodes may lie in each other. -/
def maxDepth : Nat := 490

/-- A node without parts, after which tokens go on in a place. -/
def readScalar (d : Draft) (anchor : Option Text) (tag : Tag) (text : Text) (after : Nat) :
    Parsed Nat :=
  (d.add anchor ⟨tag, .scalar text⟩).map fun (place, d) => (place, d, after)

/-- A node whose content is left out. It needs an anchor or a tag. -/
def readMissing (d : Draft) (anchor : Option Text) (name : Option Text) (after : Nat) :
    Parsed Nat :=
  if anchor.isSome ∨ name.isSome then readScalar d anchor (scalarTag name [] true) [] after
  else .error .malformed

/-- A list, whose items are read after the list itself has got its place. -/
def readList (d : Draft) (anchor : Option Text) (name : Option Text)
    (items : Draft → Parsed (List Nat)) : Parsed Nat :=
  match d.add anchor ⟨collectionTag .list name, .list []⟩ with
  | .error e => .error e
  | .ok (place, d) =>
    (items d).map fun (items, d, after) => (place, d.fill place (.list items), after)

/-- A mapping, whose entries are read after the mapping itself has got its place. -/
def readMap (d : Draft) (anchor : Option Text) (name : Option Text)
    (entries : Draft → Parsed (List (Nat × Nat))) : Parsed Nat :=
  match d.add anchor ⟨collectionTag .map name, .map []⟩ with
  | .error e => .error e
  | .ok (place, d) =>
    (entries d).map fun (entries, d, after) => (place, d.fill place (.map entries), after)

theorem lt_size_of_token {ts : Array Token} {p : Nat} {t : Token} (h : ts[p]? = some t) :
    p < ts.size := (Array.getElem?_eq_some_iff.1 h).1

mutual

/-- The node whose first token is in a place. `room` is how many nodes may still lie in each
other. -/
def readNode (ts : Array Token) (handles : Handles) (room : Nat) (setting : Setting) (d : Draft)
    (p : Nat) : Parsed Nat :=
  match ts[p]?, ts[p + 1]? with
  | some (.reference name), _ =>
    match d.anchors.get? name with
    | some place => .ok (place, d, p + 1)
    | none => .error .malformed
  | some (.anchor a), some (.tag t) =>
    readContent ts handles room setting (some a) (some t) d (p + 2)
  | some (.tag t), some (.anchor a) =>
    readContent ts handles room setting (some a) (some t) d (p + 2)
  | some (.tag _), some (.broken f) => .error f
  | some (.anchor a), _ => readContent ts handles room setting (some a) none d (p + 1)
  | some (.tag t), _ => readContent ts handles room setting none (some t) d (p + 1)
  | _, _ => readContent ts handles room setting none none d p
termination_by (ts.size - p) * 5 + 2
decreasing_by all_goals omega

/-- The node whose first token after its anchor and its tag is in a place. -/
def readContent (ts : Array Token) (handles : Handles) (room : Nat) (setting : Setting)
    (anchor : Option Text) (tag : Option TagSpelling) (d : Draft) (p : Nat) : Parsed Nat :=
  match tag.mapM (tagName handles) with
  | .error e => .error e
  | .ok name =>
    match _h : ts[p]?, room with
    | some (.broken f), _ => .error f
    | some (.scalar text plain), _ =>
      readScalar d anchor (scalarTag name text plain) text (p + 1)
    | some .flowSequenceStart, 0 | some .flowMappingStart, 0 => .error .tooDeep
    | some .flowSequenceStart, room + 1 =>
      readList d anchor name fun d => readFlowItems ts handles room true d (p + 1) []
    | some .flowMappingStart, room + 1 =>
      readMap d anchor name fun d => readFlowEntries ts handles room true d (p + 1) []
    | some .blockSequenceStart, room =>
      if setting = .flow then readMissing d anchor name p
      else
        match room with
        | 0 => .error .tooDeep
        | room + 1 => readList d anchor name fun d => readBlockItems ts handles room d (p + 1) []
    | some .blockMappingStart, room =>
      if setting = .flow then readMissing d anchor name p
      else
        match room with
        | 0 => .error .tooDeep
        | room + 1 => readMap d anchor name fun d => readBlockEntries ts handles room d (p + 1) []
    | some .blockEntry, room =>
      if setting = .blockEntry then
        match room with
        | 0 => .error .tooDeep
        | room + 1 => readList d anchor name fun d => readLooseItems ts handles room d p []
      else readMissing d anchor name p
    | _, _ => readMissing d anchor name p
termination_by (ts.size - p) * 5 + 1
decreasing_by all_goals have := lt_size_of_token _h; omega

/-- The node in a place, or nothing if a token is there that ends its place. -/
def readPart (ts : Array Token) (handles : Handles) (room : Nat) (setting : Setting)
    (ends : Token → Bool) (d : Draft) (p : Nat) : Parsed Nat :=
  if ts[p]?.any ends then
    let (place, d) := d.addNothing
    .ok (place, d, p)
  else readNode ts handles room setting d p
termination_by (ts.size - p) * 5 + 3
decreasing_by omega

/-- The value after a colon in a place; there is nothing without one. -/
def readValue (ts : Array Token) (handles : Handles) (room : Nat) (setting : Setting)
    (ends : Token → Bool) (d : Draft) (p : Nat) : Parsed Nat :=
  match _h : ts[p]? with
  | some .value => readPart ts handles room setting ends d (p + 1)
  | _ =>
    let (place, d) := d.addNothing
    .ok (place, d, p)
termination_by (ts.size - p) * 5 + 0
decreasing_by have := lt_size_of_token _h; omega

/-- The key and the value from a place on. -/
def readEntry (ts : Array Token) (handles : Handles) (room : Nat) (setting : Setting)
    (inList : Bool) (d : Draft) (p : Nat) : Parsed (Nat × Nat) :=
  match readPart ts handles room setting (endsPart inList setting) d p with
  | .error e => .error e
  | .ok (k, d, next) =>
    if _h : p ≤ next then
      let endsValue := fun t => endsPart inList setting t && (setting ≠ .flow || t ≠ .value)
      (readValue ts handles room setting endsValue d next).map fun (v, after) => ((k, v), after)
    else .error .malformed
termination_by (ts.size - p) * 5 + 4
decreasing_by all_goals omega

/-- The items of a block list up to its end. `done` holds those before, backwards. -/
def readBlockItems (ts : Array Token) (handles : Handles) (room : Nat) (d : Draft) (p : Nat)
    (done : List Nat) : Parsed (List Nat) :=
  match _h : ts[p]? with
  | some .blockEnd => .ok (done.reverse, d, p + 1)
  | some .blockEntry =>
    let ends := fun t => t = .blockEntry || t = .blockEnd
    match readPart ts handles room .block ends d (p + 1) with
    | .error e => .error e
    | .ok (n, d, next) =>
      if _h' : p < next then readBlockItems ts handles room d next (n :: done)
      else .error .malformed
  | t => unexpected t
termination_by (ts.size - p) * 5 + 0
decreasing_by all_goals have := lt_size_of_token _h; omega

/-- The items of a list that is indented as the mapping around it. -/
def readLooseItems (ts : Array Token) (handles : Handles) (room : Nat) (d : Draft) (p : Nat)
    (done : List Nat) : Parsed (List Nat) :=
  match _h : ts[p]? with
  | some .blockEntry =>
    let ends := fun t => t = .blockEntry || endsPart false .block t
    match readPart ts handles room .block ends d (p + 1) with
    | .error e => .error e
    | .ok (n, d, next) =>
      if _h' : p < next then readLooseItems ts handles room d next (n :: done)
      else .error .malformed
  | _ => .ok (done.reverse, d, p)
termination_by (ts.size - p) * 5 + 0
decreasing_by all_goals have := lt_size_of_token _h; omega

/-- The entries of a block mapping up to its end. -/
def readBlockEntries (ts : Array Token) (handles : Handles) (room : Nat) (d : Draft) (p : Nat)
    (done : List (Nat × Nat)) : Parsed (List (Nat × Nat)) :=
  match _h : ts[p]? with
  | some .blockEnd => .ok (done.reverse, d, p + 1)
  | some .key =>
    match readEntry ts handles room .blockEntry false d (p + 1) with
    | .error e => .error e
    | .ok (entry, d, next) =>
      if _h' : p < next then readBlockEntries ts handles room d next (entry :: done)
      else .error .malformed
  | t => unexpected t
termination_by (ts.size - p) * 5 + 0
decreasing_by all_goals have := lt_size_of_token _h; omega

/-- An item of a flow list. A key makes it a mapping with one entry. -/
def readFlowItem (ts : Array Token) (handles : Handles) (room : Nat) (d : Draft) (p : Nat) :
    Parsed Nat :=
  match _h : ts[p]?, room with
  | some .key, 0 => .error .tooDeep
  | some .key, room + 1 =>
    readMap d none none fun d =>
      (readEntry ts handles room .flow true d (p + 1)).map fun (entry, after) => ([entry], after)
  | _, room => readNode ts handles room .flow d p
termination_by (ts.size - p) * 5 + 3
decreasing_by
  · have := lt_size_of_token _h; omega
  · omega

/-- An entry of a flow mapping. Without a key it is a node with nothing for its value. -/
def readFlowEntry (ts : Array Token) (handles : Handles) (room : Nat) (d : Draft) (p : Nat) :
    Parsed (Nat × Nat) :=
  match _h : ts[p]? with
  | some .key => readEntry ts handles room .flow false d (p + 1)
  | _ =>
    (readNode ts handles room .flow d p).map fun (k, d, after) =>
      let (v, d) := d.addNothing
      ((k, v), d, after)
termination_by (ts.size - p) * 5 + 3
decreasing_by
  · have := lt_size_of_token _h; omega
  · omega

/-- The items of a flow list up to its end. Between items there is a comma, and there may be one
after the last. -/
def readFlowItems (ts : Array Token) (handles : Handles) (room : Nat) (first : Bool) (d : Draft)
    (p : Nat) (done : List Nat) : Parsed (List Nat) :=
  if ts[p]? = some .flowSequenceEnd then .ok (done.reverse, d, p + 1)
  else if !first ∧ ts[p]? ≠ some .flowEntry then unexpected ts[p]?
  else
    let start := if first then p else p + 1
    if !first ∧ ts[start]? = some .flowSequenceEnd then .ok (done.reverse, d, start + 1)
    else
      match readFlowItem ts handles room d start with
      | .error e => .error e
      | .ok (n, d, next) =>
        if _h : p < next ∧ p < ts.size then
          readFlowItems ts handles room false d next (n :: done)
        else .error .malformed
termination_by (ts.size - p) * 5 + 4
decreasing_by
  · split <;> omega
  · omega

/-- The entries of a flow mapping up to its end. -/
def readFlowEntries (ts : Array Token) (handles : Handles) (room : Nat) (first : Bool) (d : Draft)
    (p : Nat) (done : List (Nat × Nat)) : Parsed (List (Nat × Nat)) :=
  if ts[p]? = some .flowMappingEnd then .ok (done.reverse, d, p + 1)
  else if !first ∧ ts[p]? ≠ some .flowEntry then unexpected ts[p]?
  else
    let start := if first then p else p + 1
    if !first ∧ ts[start]? = some .flowMappingEnd then .ok (done.reverse, d, start + 1)
    else
      match readFlowEntry ts handles room d start with
      | .error e => .error e
      | .ok (entry, d, next) =>
        if _h : p < next ∧ p < ts.size then
          readFlowEntries ts handles room false d next (entry :: done)
        else .error .malformed
termination_by (ts.size - p) * 5 + 4
decreasing_by
  · split <;> omega
  · omega

end

end SubclassIndex.Yaml
