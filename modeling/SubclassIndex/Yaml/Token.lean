import SubclassIndex.Text.Basic
import SubclassIndex.Yaml.Fault

/-!
# Tokens

The tokens of a document. Block collections are shown by indentation in the text and by tokens of
their own here; a key is announced by a token before it, even where the text shows only the colon
after it. Where the text has a fault, the tokens break off.
-/

namespace SubclassIndex.Yaml

/-- A line that tells how a document is to be read. -/
inductive Directive
  /-- The version of the format. -/
  | version (major minor : Nat)
  /-- What a handle of tags stands for. -/
  | handle (name start : Text)
  | other
  deriving DecidableEq

/-- A tag as it is written: a handle, unless the tag is written in full, and the rest. -/
structure TagSpelling where
  handle : Option Text
  suffix : Text
  deriving DecidableEq

/-- A token of a document. -/
inductive Token
  | directive (d : Directive)
  | documentStart
  | documentEnd
  | blockSequenceStart
  | blockMappingStart
  | blockEnd
  | flowSequenceStart
  | flowSequenceEnd
  | flowMappingStart
  | flowMappingEnd
  | blockEntry
  | flowEntry
  | key
  | value
  | reference (name : Text)
  | anchor (name : Text)
  | tag (t : TagSpelling)
  | scalar (text : Text) (plain : Bool)
  /-- The place from which on there are no tokens, because of a fault. -/
  | broken (f : Fault)
  deriving DecidableEq

end SubclassIndex.Yaml
