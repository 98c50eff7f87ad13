import SubclassIndex.Yaml.Node

/-!
# Merged mappings

A mapping may take over the entries of others, which it names under the merge key: one mapping or a
list of them. What is taken over comes before the entries of the mapping itself, which therefore
have the last word, and of a list the last mapping comes first. A mapping that is taken over takes
over others before that, and it may be one that is about to take over this one: then it gives what
it has so far.
-/

namespace SubclassIndex.Yaml.Nodes

/-- How many entries have the merge key. -/
def mergeCount (ns : Nodes) : Nat :=
  ns.foldl (fun count n =>
    match n.content with
    | .map entries => count + entries.countP fun e => ns.hasTag .merge e.1
    | _ => count) 0

/-- The value of the first entry with the merge key in the mapping in a place, and the other
entries. -/
def merge? (ns : Nodes) (place : Nat) : Option (Nat × List (Nat × Nat)) :=
  match ns.entries? place with
  | none => none
  | some entries =>
    let before := entries.takeWhile fun e => !ns.hasTag .merge e.1
    match entries.drop before.length with
    | [] => none
    | e :: rest => some (e.2, before ++ rest)

/-- The nodes with the key that stands for a whole mapping as a text, where it is a key of the
mapping in a place. -/
def withTextKeys (ns : Nodes) (entries : List (Nat × Nat)) : Nodes :=
  entries.foldl (fun ns e => if ns.hasTag .default e.1 then ns.withTag e.1 .text else ns) ns

/-- The nodes with entries put before those of the mapping in a place. -/
def putBefore (ns : Nodes) (place : Nat) (merged : List (Nat × Nat)) : Nodes :=
  match ns.entries? place with
  | none => ns
  | some entries =>
    let ns := ns.withTextKeys entries
    if merged.isEmpty then ns else ns.withContent place (.map (merged ++ entries))

/-- The nodes after the mapping in a place has taken over what it merges. `merged` holds what it has
taken over before. Each step removes an entry with the merge key and none adds one; there are at
most `count`. -/
def mergeInto : Nat → Nodes → Nat → List (Nat × Nat) → Except Fault Nodes
  | 0, ns, place, merged => .ok (ns.putBefore place merged)
  | count + 1, ns, place, merged =>
    match ns.merge? place with
    | none => .ok (ns.putBefore place merged)
    | some (value, others) =>
      let ns := ns.withContent place (.map others)
      match ns[value]? with
      | some ⟨_, .map _⟩ => do
        let ns ← mergeInto count ns value []
        mergeInto count ns place (merged ++ (ns.entries? value).getD [])
      | some ⟨_, .list items⟩ => do
        let (ns, taken) ← items.foldlM (fun (ns, taken) item =>
          match ns.entries? item with
          | none => .error .malformed
          | some _ =>
            (mergeInto count ns item []).map fun ns => (ns, (ns.entries? item).getD [] :: taken))
          (ns, ([] : List (List (Nat × Nat))))
        mergeInto count ns place (merged ++ taken.flatten)
      | _ => .error .malformed

end SubclassIndex.Yaml.Nodes
