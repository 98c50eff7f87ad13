import SubclassIndex.ClassFile.Constant
import SubclassIndex.ClassFile.Cursor
import SubclassIndex.ClassFile.Header

/-!
# Reading the header of a class file

A class file begins with a magic number, two version numbers and the number of slots of the
constant pool plus one. The pool follows, then the access flags, the slot of the class itself and
the slot of its superclass. Nothing after that is looked at.
-/

namespace SubclassIndex.ClassFile

/-- The number that opens every class file. -/
def magic : Nat := 0xCAFEBABE

/-- What makes some bytes no class file. -/
inductive FormatFault
  | truncated (offset : Nat)
  | magicMissing
  | emptyPool
  | unknownTag (code : Nat)
  | superOutsidePool (slot : Nat)
  deriving DecidableEq

namespace FormatFault

/-- The fault in words. -/
def message : FormatFault → Text
  | truncated offset => "Truncated class file at offset " ++ Text.ofNat offset
  | magicMissing => "Corrupt stream - magic number missing"
  | emptyPool => "Constant pool count must be at least 1"
  | unknownTag code => "Unknown cp tag: " ++ Text.ofNat code
  | superOutsidePool slot => "super_class index " ++ Text.ofNat slot ++ " outside constant pool"

end FormatFault

/-- Why no header was read: the bytes are no class file, or a text of the pool is not text. -/
inductive HeaderFault
  | malformed (fault : FormatFault)
  | undecodable
  deriving DecidableEq

/-- The result of reading a part of a class file. -/
abbrev Reading := Except HeaderFault

/-- The next bytes. -/
def readBytes (count : Nat) (c : Cursor) : Reading (Bytes × Cursor) :=
  match c.take count with
  | .ok r => .ok r
  | .error offset => .error (.malformed (.truncated offset))

/-- The next number of one, two or four bytes. -/
def readNumber (width : Nat) (c : Cursor) : Reading (Nat × Cursor) :=
  match readBytes width c with
  | .ok (bytes, c) => .ok (bigEndian bytes, c)
  | .error e => .error e

/-- The bytes as a text of the pool. -/
def literal? (bytes : Bytes) : Option Literal :=
  match h : ModifiedUtf8.decode? bytes with
  | some text => some ⟨bytes, text, h⟩
  | none => none

/-- The next entry of the pool. -/
def readConstant (c : Cursor) : Reading (Constant × Cursor) := do
  let (code, c) ← readBytes 1 c
  let code := code.headD 0
  if code = utf8Code then
    let (length, c) ← readNumber 2 c
    let (bytes, c) ← readBytes length c
    match literal? bytes with
    | some l => .ok (.utf8 l, c)
    | none => .error .undecodable
  else if code = classCode then
    let (slot, c) ← readNumber 2 c
    .ok (.classRef slot, c)
  else
    match Tag.ofCode? code with
    | some tag =>
      let (payload, c) ← readBytes tag.width c
      .ok (.other tag payload, c)
    | none => .error (.malformed (.unknownTag code.toNat))

/-- The next slots of the pool. An entry of two slots fills the second one as well; where it is
the last of the pool, that slot lies outside. -/
def readSlots (count : Nat) (c : Cursor) : Reading (Pool × Cursor) :=
  go count false c []
where
  /-- `held` says that the entry before takes this slot too; `done` holds the slots backwards. -/
  go : Nat → Bool → Cursor → Pool → Reading (Pool × Cursor)
    | 0, _, c, done => .ok (done.reverse, c)
    | n + 1, true, c, done => go n false c (.taken :: done)
    | n + 1, false, c, done =>
      match readConstant c with
      | .ok (k, c) => go n k.isWide c (.entry k :: done)
      | .error e => .error e

/-- The superclass that a slot of the pool names: none for slot zero, and none where the slot holds
no class reference with a text for a name. -/
def superclassAt (pool : Pool) (count slot : Nat) : Reading (Option Text) :=
  if slot ≠ 0 ∧ count ≤ slot then .error (.malformed (.superOutsidePool slot))
  else .ok (pool.className? slot)

/-- The header of a class file. -/
def readHeader (bytes : Bytes) : Reading Header := do
  let (opening, c) ← readNumber 4 (.start bytes)
  if opening ≠ magic then throw (.malformed .magicMissing)
  let (_, c) ← readBytes 4 c
  let (count, c) ← readNumber 2 c
  if count = 0 then throw (.malformed .emptyPool)
  let (pool, c) ← readSlots (count - 1) c
  let (flags, c) ← readNumber 2 c
  let (_, c) ← readNumber 2 c
  let (slot, _) ← readNumber 2 c
  let superclass ← superclassAt pool count slot
  .ok ⟨flags, superclass⟩

end SubclassIndex.ClassFile
