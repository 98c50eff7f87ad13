import SubclassIndex.Text.Basic

/-!
# Checksums

The checksum of an archive member is the cyclic redundancy check of 32 bits with the reflected
polynomial `EDB88320`, started from all ones and inverted at the end.
-/

namespace SubclassIndex.Zip

/-- One bit of the division by the polynomial. -/
def checksumBit (c : UInt32) : UInt32 :=
  if c &&& 1 = 1 then (c >>> 1) ^^^ 0xEDB88320 else c >>> 1

/-- One byte of the division. -/
def checksumByte (c : UInt32) (b : UInt8) : UInt32 :=
  (List.range 8).foldl (fun c _ => checksumBit c) (c ^^^ b.toUInt32)

/-- The checksum of some bytes. -/
def checksum (bytes : Bytes) : UInt32 := bytes.foldl checksumByte 0xFFFFFFFF ^^^ 0xFFFFFFFF

/-- The check value of the algorithm. -/
example : checksum "123456789".toUTF8.toList = 0xCBF43926 := by decide +kernel

end SubclassIndex.Zip
