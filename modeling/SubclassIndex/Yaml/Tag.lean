import SubclassIndex.Text.Basic

/-!
# Tags

The types of nodes. The standard ones have names with a common beginning; no other type has values.
-/

namespace SubclassIndex.Yaml

/-- The type of a node. -/
inductive Tag
  | null
  | bool
  | int
  | float
  | binary
  | timestamp
  | text
  | list
  | map
  | set
  /-- A list of pairs with an order. -/
  | orderedMap
  /-- A list of pairs. -/
  | pairs
  /-- The key whose value holds entries of other mappings. -/
  | merge
  /-- The key whose value stands for the whole mapping. -/
  | default
  /-- A type without values. -/
  | unknown
  deriving DecidableEq

namespace Tag

/-- What the names of the standard types begin with. -/
def standardStart : Text := "tag:yaml.org,2002:"

/-- The standard types with their short names. -/
def names : List (Tag × Text) :=
  [(null, "null"), (bool, "bool"), (int, "int"), (float, "float"), (binary, "binary"),
    (timestamp, "timestamp"), (text, "str"), (list, "seq"), (map, "map"), (set, "set"),
    (orderedMap, "omap"), (pairs, "pairs"), (merge, "merge"), (default, "value")]

/-- The type with a full name. -/
def ofName (name : Text) : Tag :=
  match names.find? fun e => decide (name = standardStart ++ e.2) with
  | some e => e.1
  | none => unknown

end Tag

end SubclassIndex.Yaml
