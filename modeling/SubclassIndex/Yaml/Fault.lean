/-!
# Faults of documents

A document without a value breaks the rules of the format, or it holds a scalar that does not spell
a value of its type.
-/

namespace SubclassIndex.Yaml

/-- Why a document has no value. -/
inductive Fault
  /-- The document breaks the rules of the format. -/
  | malformed
  /-- A number, a date or a code point is not in its range or is not spelled as one. -/
  | outOfRange
  /-- A number is too large to be computed with. -/
  | overflow
  /-- A number has no digits. -/
  | noDigits
  /-- A text is none of the words for truth values. -/
  | noTruthValue
  /-- A text is no date. -/
  | noTimestamp
  /-- A mapping stands in the place of a date. -/
  | mappedTimestamp
  /-- Nodes lie too deep in each other, or a mapping stands for itself. -/
  | tooDeep
  deriving DecidableEq

end SubclassIndex.Yaml
