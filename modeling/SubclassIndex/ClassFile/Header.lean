import SubclassIndex.Text.Basic

/-!
# Class headers

What the index needs to know of a class: its access flags and the internal name of its superclass.
The flags say whether it is an interface, an abstract class or a concrete one.
-/

namespace SubclassIndex

/-- What kind of type a class file declares. -/
inductive TypeKind
  | interface
  | abstract
  | concrete
  deriving DecidableEq

/-- The access flags of a class and its superclass, if it has one. -/
structure Header where
  flags : Int
  superclass : Option Text
  deriving DecidableEq

/-- Whether a bit of a number in two's complement is set. -/
def bitSet (flags : Int) (bit : Nat) : Bool := (flags >>> bit) % 2 = 1

namespace TypeKind

/-- The bit of the flags that marks an interface. -/
def interfaceBit : Nat := 9

/-- The bit of the flags that marks an abstract class. -/
def abstractBit : Nat := 10

/-- An interface is one whatever its other flags say. -/
def ofFlags (flags : Int) : TypeKind :=
  if bitSet flags interfaceBit then .interface
  else if bitSet flags abstractBit then .abstract
  else .concrete

end TypeKind

namespace Header

/-- The kind of the class. -/
def kind (h : Header) : TypeKind := .ofFlags h.flags

/-- Whether the class is neither an interface nor abstract. -/
def isConcrete (h : Header) : Bool := h.kind = .concrete

end Header

end SubclassIndex
