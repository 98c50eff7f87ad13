import SubclassIndex.Text.Basic

/-!
# Libraries for archives

Archives are read by a library that is not the same everywhere. Its releases differ in some rules,
and beside the two ways of packing that all of them know there may be others, for which unpackers
have to be installed. What an unpacker does with damaged data is its own affair: it may well fail in
a way that whoever reads the archive has not thought of.
-/

namespace SubclassIndex.Zip

/-- What an unpacker made of some bytes, and whether they came to an end of their own. -/
structure Unpacked where
  output : Bytes
  complete : Bool

/-- Why an unpacker fails. -/
inductive UnpackFault
  /-- The bytes are damaged, or packed in a way for which no unpacker is there. -/
  | damaged
  /-- The unpacker reports an error of the system in these words. -/
  | system (text : Text)
  /-- The unpacker fails in a way of its own, in these words. -/
  | foreign (text : Text)
  deriving DecidableEq

/-- A library that reads archives: the rules of its release, and the unpackers that it has. -/
class Library where
  /-- Whether a member has to have a name to be asked whether it is a directory. -/
  namesRequired : Bool
  /-- Whether what an archive says in 64 bits of its directory has to fit the rest of it. -/
  endChecked : Bool
  /-- Whether an extra field can give a member another name, in UTF-8. -/
  namesInExtra : Bool
  /-- Unpacks by any other method than storing and deflating. -/
  unpack (method : Nat) (bytes : Bytes) : Except UnpackFault Unpacked

/-- A library of an early release without further unpackers, which is there if no other is. -/
instance Library.bare : Library where
  namesRequired := true
  endChecked := false
  namesInExtra := false
  unpack _ _ := .error .damaged

end SubclassIndex.Zip
