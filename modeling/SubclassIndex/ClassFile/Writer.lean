import SubclassIndex.ClassFile.Constant
import SubclassIndex.ClassFile.Cursor

/-!
# The bytes of a class file

What a class file looks like up to the slot of its superclass, written from its parts.
-/

namespace SubclassIndex.ClassFile

namespace Constant

/-- The bytes of an entry. -/
def encode : Constant → Bytes
  | utf8 l => utf8Code :: (bytesOfU16 l.bytes.length ++ l.bytes)
  | classRef slot => classCode :: bytesOfU16 slot
  | other tag payload => tag.code :: payload

/-- Whether the numbers of an entry fit into their fields. -/
def Fits : Constant → Prop
  | utf8 l => l.bytes.length < 65536
  | classRef slot => slot < 65536
  | other tag payload => payload.length = tag.width

end Constant

/-- The slots that some entries fill, one after another. -/
def slotsOf (constants : List Constant) : Pool :=
  constants.flatMap fun k => if k.isWide then [.entry k, .taken] else [.entry k]

/-- The parts of a class file up to its superclass. -/
structure Prelude where
  version : Bytes
  constants : List Constant
  flags : Nat
  self : Nat
  super : Nat

namespace Prelude

/-- The bytes that open a class file. -/
def magicBytes : Bytes := [0xCA, 0xFE, 0xBA, 0xBE]

/-- The bytes of the parts in their order. -/
def encode (p : Prelude) : Bytes :=
  magicBytes ++ p.version ++ bytesOfU16 ((slotsOf p.constants).length + 1) ++
    p.constants.flatMap Constant.encode ++ bytesOfU16 p.flags ++ bytesOfU16 p.self ++
    bytesOfU16 p.super

end Prelude

end SubclassIndex.ClassFile
