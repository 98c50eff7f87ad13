import SubclassIndex.Proofs.ClassFile.ReaderLemmas
import SubclassIndex.Proofs.ModifiedUtf8Lemmas

/-!
# The format of class files

A class file up to its superclass, said by the fields that the format gives to each kind of entry of
the constant pool and without the tables of the reader. Entries refer to each other by their
indices, in either direction; the first one has index one, and the entries of eight bytes take two
indices. The text of an entry may be any sequence of sixteen-bit units (`exists_literal`).
-/

namespace SubclassIndex.ClassFile

/-! ## Texts -/

/-- The bytes of a sixteen-bit unit of a text: one up to U+007F but for U+0000, two up to U+07FF and
for U+0000, and three for any other unit, be it half of a pair or not. -/
def unitBytes (u : UInt16) : Bytes :=
  let n := u.toNat
  if 0 < n ∧ n < 0x80 then [n.toUInt8]
  else if n < 0x800 then [(0xC0 + n / 64).toUInt8, (0x80 + n % 64).toUInt8]
  else [(0xE0 + n / 4096).toUInt8, (0x80 + n / 64 % 64).toUInt8, (0x80 + n % 64).toUInt8]

def unitPoint (u : UInt16) : CodePoint := ⟨u.toNat, Nat.lt_trans u.toNat_lt (by decide)⟩

theorem unitBytes_eq (u : UInt16) : unitBytes u = ModifiedUtf8.bytesOf (unitPoint u) := by
  have hlt := u.toNat_lt
  unfold unitBytes unitPoint ModifiedUtf8.bytesOf Utf8.bytesOf
  dsimp only
  by_cases hzero : u.toNat = 0
  · obtain rfl : u = 0 := UInt16.toNat_inj.1 hzero
    rfl
  · rw [if_neg hzero, Nat.div_one]
    by_cases hone : u.toNat < 0x80
    · rw [if_pos ⟨by omega, hone⟩, if_pos hone]
    · rw [if_neg fun h => hone h.2, if_neg hone]
      by_cases htwo : u.toNat < 0x800
      · rw [if_pos htwo, if_pos htwo]
      · rw [if_neg htwo, if_neg htwo, if_pos hlt]

/-- The bytes of any units can be read. -/
theorem exists_literal (units : List UInt16) : ∃ l : Literal, l.bytes = units.flatMap unitBytes := by
  have hbytes : (units.map unitPoint).flatMap ModifiedUtf8.bytesOf = units.flatMap unitBytes := by
    rw [List.flatMap_map]
    exact congrArg units.flatMap (funext fun u => (unitBytes_eq u).symm)
  have hdecodes := ModifiedUtf8.decode?_flatMap (units.map unitPoint)
  rw [hbytes] at hdecodes
  exact ⟨⟨_, _, hdecodes⟩, rfl⟩

/-! ## Entries and openings -/

/-- A number in four bytes, the most significant one first. -/
def bytesOfU32 (n : Nat) : Bytes := bytesOfU16 (n / 65536) ++ bytesOfU16 n

/-- A number in eight bytes, the most significant one first. -/
def bytesOfU64 (n : Nat) : Bytes := bytesOfU32 (n / 4294967296) ++ bytesOfU32 n

/-- An entry of the constant pool with its fields. -/
inductive Entry
  | utf8 (literal : Literal) (short : literal.bytes.length < 65536)
  | integer (bits : UInt32)
  | float (bits : UInt32)
  | long (bits : UInt64)
  | double (bits : UInt64)
  | classRef (name : UInt16)
  | string (text : UInt16)
  | field (owner nameAndType : UInt16)
  | method (owner nameAndType : UInt16)
  | interfaceMethod (owner nameAndType : UInt16)
  | nameAndType (name descriptor : UInt16)
  | methodHandle (kind : UInt8) (target : UInt16)
  | methodType (descriptor : UInt16)
  | dynamic (bootstrap nameAndType : UInt16)
  | invokeDynamic (bootstrap nameAndType : UInt16)
  | moduleName (name : UInt16)
  | packageName (name : UInt16)

namespace Entry

def encode : Entry → Bytes
  | utf8 l _ => 1 :: (bytesOfU16 l.bytes.length ++ l.bytes)
  | integer bits => 3 :: bytesOfU32 bits.toNat
  | float bits => 4 :: bytesOfU32 bits.toNat
  | long bits => 5 :: bytesOfU64 bits.toNat
  | double bits => 6 :: bytesOfU64 bits.toNat
  | classRef name => 7 :: bytesOfU16 name.toNat
  | string text => 8 :: bytesOfU16 text.toNat
  | field owner member => 9 :: (bytesOfU16 owner.toNat ++ bytesOfU16 member.toNat)
  | method owner member => 10 :: (bytesOfU16 owner.toNat ++ bytesOfU16 member.toNat)
  | interfaceMethod owner member => 11 :: (bytesOfU16 owner.toNat ++ bytesOfU16 member.toNat)
  | nameAndType name descriptor => 12 :: (bytesOfU16 name.toNat ++ bytesOfU16 descriptor.toNat)
  | methodHandle kind target => 15 :: kind :: bytesOfU16 target.toNat
  | methodType descriptor => 16 :: bytesOfU16 descriptor.toNat
  | dynamic bootstrap member => 17 :: (bytesOfU16 bootstrap.toNat ++ bytesOfU16 member.toNat)
  | invokeDynamic bootstrap member => 18 :: (bytesOfU16 bootstrap.toNat ++ bytesOfU16 member.toNat)
  | moduleName name => 19 :: bytesOfU16 name.toNat
  | packageName name => 20 :: bytesOfU16 name.toNat

/-- How many indices an entry takes. -/
def slots : Entry → Nat
  | long _ | double _ => 2
  | _ => 1

theorem slots_pos (e : Entry) : 0 < e.slots := by
  unfold slots
  split <;> exact Nat.succ_pos _

def slotCount : List Entry → Nat
  | [] => 0
  | e :: rest => e.slots + slotCount rest

/-- The entry with an index among entries of which the first one has a given index. -/
def at? (first : Nat) : List Entry → Nat → Option Entry
  | [], _ => none
  | e :: rest, index => if index = first then some e else at? (first + e.slots) rest index

end Entry

/-- A class file up to the index of its superclass. -/
structure Opening where
  minor : UInt16
  major : UInt16
  entries : List Entry
  flags : UInt16
  self : UInt16
  super : UInt16
  /-- The number of indices and one more has to fit into its field. -/
  fits : Entry.slotCount entries ≤ 65534

namespace Opening

def encode (o : Opening) : Bytes :=
  [0xCA, 0xFE, 0xBA, 0xBE] ++ bytesOfU16 o.minor.toNat ++ bytesOfU16 o.major.toNat ++
    bytesOfU16 (Entry.slotCount o.entries + 1) ++ o.entries.flatMap Entry.encode ++
    bytesOfU16 o.flags.toNat ++ bytesOfU16 o.self.toNat ++ bytesOfU16 o.super.toNat

def entry? (o : Opening) (index : UInt16) : Option Entry := Entry.at? 1 o.entries index.toNat

/-- The name of the superclass: there is none for index zero, and else it is the text that the class
entry with the index refers to. -/
inductive Extends (o : Opening) : Option Text → Prop
  | nothing : o.super = 0 → Extends o none
  | named {name : UInt16} {literal : Literal} {short : literal.bytes.length < 65536} :
    o.entry? o.super = some (.classRef name) → o.entry? name = some (.utf8 literal short) →
    Extends o (some literal.text)

/-- The kind of the class by the bits of its access flags. -/
def kind (o : Opening) : TypeKind :=
  if o.flags &&& 0x0200 ≠ 0 then .interface
  else if o.flags &&& 0x0400 ≠ 0 then .abstract
  else .concrete

end Opening

/-! ## Entries as the reader knows them -/

namespace Entry

/-- What the reader keeps of an entry. -/
def constant : Entry → Constant
  | utf8 l _ => .utf8 l
  | integer bits => .other .integer (bytesOfU32 bits.toNat)
  | float bits => .other .float (bytesOfU32 bits.toNat)
  | long bits => .other .long (bytesOfU64 bits.toNat)
  | double bits => .other .double (bytesOfU64 bits.toNat)
  | classRef name => .classRef name.toNat
  | string text => .other .string (bytesOfU16 text.toNat)
  | field owner member => .other .field (bytesOfU16 owner.toNat ++ bytesOfU16 member.toNat)
  | method owner member => .other .method (bytesOfU16 owner.toNat ++ bytesOfU16 member.toNat)
  | interfaceMethod owner member =>
    .other .interfaceMethod (bytesOfU16 owner.toNat ++ bytesOfU16 member.toNat)
  | nameAndType name descriptor =>
    .other .nameAndType (bytesOfU16 name.toNat ++ bytesOfU16 descriptor.toNat)
  | methodHandle kind target => .other .methodHandle (kind :: bytesOfU16 target.toNat)
  | methodType descriptor => .other .methodType (bytesOfU16 descriptor.toNat)
  | dynamic bootstrap member =>
    .other .dynamic (bytesOfU16 bootstrap.toNat ++ bytesOfU16 member.toNat)
  | invokeDynamic bootstrap member =>
    .other .invokeDynamic (bytesOfU16 bootstrap.toNat ++ bytesOfU16 member.toNat)
  | moduleName name => .other .moduleName (bytesOfU16 name.toNat)
  | packageName name => .other .packageName (bytesOfU16 name.toNat)

variable {e : Entry} {entries : List Entry} {n first index : Nat}

/-- The reader's table of tags has the tag of each kind of entry. -/
theorem encode_constant (e : Entry) : e.constant.encode = e.encode := by
  cases e <;> rfl

/-- The reader's table of widths has the width of the fields of each kind of entry. -/
theorem fits_constant (e : Entry) : e.constant.Fits := by
  cases e with
  | utf8 l short => exact short
  | classRef name => exact name.toNat_lt
  | _ => rfl

theorem constant_eq_classRef {name : Nat} (h : e.constant = .classRef name) :
    ∃ index, e = .classRef index ∧ index.toNat = name := by
  cases e with
  | classRef index =>
    cases h
    exact ⟨index, rfl, rfl⟩
  | _ => cases h

theorem constant_eq_utf8 {l : Literal} (h : e.constant = .utf8 l) : ∃ short, e = .utf8 l short := by
  cases e with
  | utf8 literal short =>
    cases h
    exact ⟨short, rfl⟩
  | _ => cases h

theorem encode_constants (entries : List Entry) :
    (entries.map constant).flatMap Constant.encode = entries.flatMap encode := by
  rw [List.flatMap_map]
  exact congrArg entries.flatMap (funext encode_constant)

theorem fits_constants (entries : List Entry) : ∀ k ∈ entries.map constant, k.Fits := by
  intro k hk
  obtain ⟨e, _, rfl⟩ := List.mem_map.1 hk
  exact e.fits_constant

theorem slotsOf_constant (e : Entry) :
    slotsOf [e.constant] = .entry e.constant :: List.replicate (e.slots - 1) .taken := by
  cases e <;> rfl

theorem length_slotsOf_constant (e : Entry) : (slotsOf [e.constant]).length = e.slots := by
  cases e <;> rfl

theorem length_slotsOf (entries : List Entry) :
    (slotsOf (entries.map constant)).length = slotCount entries := by
  induction entries with
  | nil => rfl
  | cons e rest ih =>
    rw [List.map_cons, slotsOf_cons, List.length_append, length_slotsOf_constant, ih]
    rfl

theorem at?_of_lt (h : index < first) : at? first entries index = none := by
  induction entries generalizing first with
  | nil => rfl
  | cons e rest ih =>
    rw [at?, if_neg (Nat.ne_of_lt h)]
    exact ih (Nat.lt_add_right e.slots h)

theorem slots_cases (e : Entry) :
    (e.slots = 1 ∧ slotsOf [e.constant] = [.entry e.constant]) ∨
      (e.slots = 2 ∧ slotsOf [e.constant] = [.entry e.constant, .taken]) := by
  cases e with
  | long bits | double bits => exact .inr ⟨rfl, rfl⟩
  | _ => exact .inl ⟨rfl, rfl⟩

/-- The slots that are read hold an entry where its index is, and none elsewhere. -/
theorem constant?_take_succ (h : Begins n (entries.map constant)) (first i : Nat) :
    Pool.constant? ((slotsOf (entries.map constant)).take n) (i + 1) =
      (at? first entries (first + i)).map constant := by
  induction entries generalizing n first i with
  | nil => simp [slotsOf, Pool.constant?, at?]
  | cons e rest ih =>
    obtain ⟨m, rfl⟩ := Nat.exists_eq_add_one.2 h.1
    have hrest := ih h.2
    rw [length_slotsOf_constant] at hrest
    rw [List.map_cons, slotsOf_cons]
    cases i with
    | zero =>
      rw [at?, if_pos (Nat.add_zero first), slotsOf_constant]
      rfl
    | succ i =>
      rw [at?, if_neg (by omega)]
      rcases e.slots_cases with ⟨hslots, hslot⟩ | ⟨hslots, hslot⟩
      · rw [hslots] at hrest ⊢
        have hindex : first + (i + 1) = first + 1 + i := by omega
        rw [hslot, hindex, ← hrest (first + 1) i]
        rfl
      · rw [hslots] at hrest ⊢
        rw [hslot]
        cases i with
        | zero =>
          -- the second slot is taken, or it lies outside
          rw [at?_of_lt (by omega)]
          cases m <;> rfl
        | succ i =>
          have hindex : first + (i + 1 + 1) = first + 2 + i := by omega
          rw [hindex, ← hrest (first + 2) i]
          cases m <;> rfl

theorem constant?_take (h : Begins n (entries.map constant)) (index : Nat) :
    Pool.constant? ((slotsOf (entries.map constant)).take n) index =
      (at? 1 entries index).map constant := by
  cases index with
  | zero =>
    rw [at?_of_lt Nat.zero_lt_one]
    rfl
  | succ i => rw [constant?_take_succ h 1 i, Nat.add_comm 1 i]

theorem constant?_of_at? (h : at? 1 entries index = some e) :
    Pool.constant? (slotsOf (entries.map constant)) index = some e.constant := by
  have hbegins : Begins (slotsOf (entries.map constant)).length (entries.map constant) :=
    begins_of_le (Nat.le_refl _)
  have hpool := constant?_take hbegins index
  rwa [List.take_length, h] at hpool

end Entry

end SubclassIndex.ClassFile
