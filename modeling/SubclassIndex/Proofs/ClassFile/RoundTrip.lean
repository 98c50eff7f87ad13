import SubclassIndex.Proofs.ClassFile.Format

/-!
# Reading a class file that was written

The header of a class file in the format is read back, whatever its constant pool holds and whatever
follows it: the access flags with the kind that their bits say, and the name of the superclass
(`readHeader_encode`). The reader's tables of tags, widths and slots agree with the format entry by
entry, and an entry is found under its index because every entry before it has filled its slots.
-/

namespace SubclassIndex.ClassFile

/-! ## Bits of the flags -/

theorem and_one_shiftLeft_ne_zero_iff (n i : Nat) : n &&& 1 <<< i ≠ 0 ↔ n.testBit i = true := by
  rw [Nat.one_shiftLeft]
  constructor
  · intro hand
    cases hbit : n.testBit i with
    | true => rfl
    | false =>
      refine absurd (Nat.eq_of_testBit_eq fun j => ?_) hand
      rw [Nat.testBit_and, Nat.testBit_two_pow, Nat.zero_testBit]
      by_cases hj : i = j
      · rw [← hj, hbit, Bool.false_and]
      · rw [decide_eq_false hj, Bool.and_false]
  · intro hbit hzero
    have h : (n &&& 2 ^ i).testBit i = true := by
      rw [Nat.testBit_and, hbit, Nat.testBit_two_pow_self]
      rfl
    rw [hzero, Nat.zero_testBit] at h
    cases h

/-- A bit of the flags is tested by its mask. -/
theorem bitSet_iff (flags : UInt16) (bit : Nat) (mask : UInt16) (h : mask.toNat = 1 <<< bit) :
    bitSet flags.toNat bit = true ↔ flags &&& mask ≠ 0 := by
  have hbit : bitSet flags.toNat bit = flags.toNat.testBit bit := by
    rw [bitSet, Nat.testBit_eq_decide_div_mod_eq, Int.shiftRight_eq_div_pow]
    norm_cast
  rw [hbit, ← and_one_shiftLeft_ne_zero_iff, ← h, ← UInt16.toNat_and, ne_eq, ne_eq, ← UInt16.toNat_inj]
  rfl

/-! ## Openings as the reader knows them -/

namespace Opening

variable {o : Opening} {superclass : Option Text}

/-- The parts that the reader distinguishes. -/
def prelude (o : Opening) : Prelude where
  version := bytesOfU16 o.minor.toNat ++ bytesOfU16 o.major.toNat
  constants := o.entries.map Entry.constant
  flags := o.flags.toNat
  self := o.self.toNat
  super := o.super.toNat

theorem encode_prelude (o : Opening) : o.prelude.encode = o.encode := by
  simp only [Prelude.encode, prelude, encode, Prelude.magicBytes, Entry.length_slotsOf,
    Entry.encode_constants, List.append_assoc]

theorem fits_prelude (o : Opening) : o.prelude.Fits where
  version := rfl
  constants := Entry.fits_constants o.entries
  slots := by
    rw [prelude, Entry.length_slotsOf]
    exact Nat.lt_succ_of_le o.fits
  flags := o.flags.toNat_lt
  self := o.self.toNat_lt
  super := o.super.toNat_lt

theorem superclassAt_of_extends (h : o.Extends superclass) :
    superclassAt (slotsOf (o.entries.map Entry.constant))
      ((slotsOf (o.entries.map Entry.constant)).length + 1) o.super.toNat = .ok superclass := by
  unfold superclassAt
  cases h with
  | nothing hzero =>
    rw [hzero]
    rfl
  | named hclass hname =>
    have hslot := Entry.constant?_of_at? hclass
    have htext := Entry.constant?_of_at? hname
    have hinside := Pool.lt_of_constant? hslot
    rw [if_neg fun h => by omega]
    simp only [Pool.className?, Pool.text?, hslot, htext, Entry.constant]

theorem kind_eq (o : Opening) (superclass : Option Text) :
    (Header.mk o.flags.toNat superclass).kind = o.kind := by
  have hinterface := bitSet_iff o.flags TypeKind.interfaceBit 0x0200 rfl
  have habstract := bitSet_iff o.flags TypeKind.abstractBit 0x0400 rfl
  simp only [Header.kind, TypeKind.ofFlags, kind, hinterface, habstract]

end Opening

/-! ## Reading back -/

/-- Any text can be in the pool, and a class file in the format is read: its flags, the kind of class
that they say, and the name of its superclass. -/
theorem readHeader_encode :
    (∀ units : List UInt16, ∃ l : Literal, l.bytes = units.flatMap unitBytes) ∧
    ∀ (o : Opening) (superclass : Option Text) (trailing : Bytes), o.Extends superclass →
      readHeader (o.encode ++ trailing) = .ok ⟨o.flags.toNat, superclass⟩ ∧
        (Header.mk o.flags.toNat superclass).kind = o.kind := by
  refine ⟨exists_literal, ?_⟩
  intro o superclass trailing h
  refine ⟨?_, o.kind_eq superclass⟩
  have hread := readHeader_prelude o.fits_prelude trailing
  rw [Opening.encode_prelude] at hread
  rw [hread]
  exact congrArg (Except.map _) (Opening.superclassAt_of_extends h)

def baseLiteral : Literal := ⟨[0x61, 0x2F, 0x42], "a/B", by decide⟩

/-- A pool with an entry of each kind. The first one refers to a text behind wide entries. -/
def mixedOpening : Opening where
  minor := 0
  major := 61
  entries := [.classRef 12, .long 0x0102030405060708, .methodHandle 6 5, .method 19 6,
    .nameAndType 12 12, .double 0xFFFFFFFFFFFFFFFF, .field 19 6, .string 12, .integer 7,
    .utf8 baseLiteral (by decide), .float 0x3F800000,
    .interfaceMethod 19 6, .methodType 12, .dynamic 0 6, .invokeDynamic 0 6, .moduleName 12,
    .classRef 12, .packageName 12]
  flags := 0x0421
  self := 19
  super := 1
  fits := by decide

theorem readHeader_encode_mixedOpening : mixedOpening.Extends (some "a/B") ∧
    readHeader (mixedOpening.encode ++ [0xCA, 0xFE]) = .ok ⟨0x0421, some "a/B"⟩ :=
  have hclass : mixedOpening.entry? mixedOpening.super = some (.classRef 12) := rfl
  have hname : mixedOpening.entry? 12 = some (.utf8 baseLiteral (by decide)) := rfl
  have h : mixedOpening.Extends (some baseLiteral.text) := .named hclass hname
  ⟨h, (readHeader_encode.2 mixedOpening _ [0xCA, 0xFE] h).1⟩

end SubclassIndex.ClassFile
