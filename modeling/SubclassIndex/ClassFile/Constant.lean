import SubclassIndex.Text.ModifiedUtf8

/-!
# The constant pool

A constant pool is a row of slots, numbered from one. An entry takes one slot, a number of eight
bytes takes two. Two kinds of entry matter here: texts, and class references, which name the slot
of their text. Of all others only the width is known.
-/

namespace SubclassIndex.ClassFile

/-- The kinds of entry whose content is passed over. -/
inductive Tag
  | integer
  | float
  | long
  | double
  | string
  | field
  | method
  | interfaceMethod
  | nameAndType
  | methodHandle
  | methodType
  | dynamic
  | invokeDynamic
  | moduleName
  | packageName
  deriving DecidableEq

namespace Tag

/-- The byte that announces an entry of this kind. -/
def code : Tag → UInt8
  | integer => 3
  | float => 4
  | long => 5
  | double => 6
  | string => 8
  | field => 9
  | method => 10
  | interfaceMethod => 11
  | nameAndType => 12
  | methodHandle => 15
  | methodType => 16
  | dynamic => 17
  | invokeDynamic => 18
  | moduleName => 19
  | packageName => 20

/-- All kinds in the order of their codes. -/
def all : List Tag :=
  [integer, float, long, double, string, field, method, interfaceMethod, nameAndType, methodHandle,
    methodType, dynamic, invokeDynamic, moduleName, packageName]

/-- The kind that a byte announces. -/
def ofCode? (code : UInt8) : Option Tag := all.find? fun t => t.code == code

/-- How many bytes follow the code. -/
def width : Tag → Nat
  | long | double => 8
  | integer | float | field | method | interfaceMethod | nameAndType | dynamic | invokeDynamic => 4
  | methodHandle => 3
  | string | methodType | moduleName | packageName => 2

/-- Whether an entry of this kind takes two slots. -/
def isWide : Tag → Bool
  | long | double => true
  | _ => false

theorem ofCode?_code (t : Tag) : ofCode? t.code = some t := by cases t <;> rfl

theorem code_ofCode? {c : UInt8} {t : Tag} (h : ofCode? c = some t) : t.code = c := by
  simpa using List.find?_some h

end Tag

/-- The code of a text. -/
def utf8Code : UInt8 := 1

/-- The code of a class reference. -/
def classCode : UInt8 := 7

/-- The bytes of a text in the pool, with the text that they are. -/
structure Literal where
  bytes : Bytes
  text : Text
  decodes : ModifiedUtf8.decode? bytes = some text

/-- One entry of the pool. -/
inductive Constant
  | utf8 (literal : Literal)
  | classRef (nameSlot : Nat)
  | other (tag : Tag) (payload : Bytes)

namespace Constant

/-- Whether the slot after the entry is taken as well. -/
def isWide : Constant → Bool
  | other tag _ => tag.isWide
  | _ => false

end Constant

/-- A slot of the pool: an entry, or the second half of the entry before. -/
inductive Slot
  | entry (constant : Constant)
  | taken

/-- The slots of a constant pool; the first one has number one. -/
abbrev Pool := List Slot

namespace Pool

/-- The entry in a slot. -/
def constant? (pool : Pool) (slot : Nat) : Option Constant :=
  match slot with
  | 0 => none
  | n + 1 =>
    match pool[n]? with
    | some (.entry c) => some c
    | _ => none

/-- The text in a slot. -/
def text? (pool : Pool) (slot : Nat) : Option Text :=
  match pool.constant? slot with
  | some (.utf8 l) => some l.text
  | _ => none

/-- The name of the class that a slot refers to. -/
def className? (pool : Pool) (slot : Nat) : Option Text :=
  match pool.constant? slot with
  | some (.classRef nameSlot) => pool.text? nameSlot
  | _ => none

end Pool

end SubclassIndex.ClassFile
