import SubclassIndex.Text.Utf8
import SubclassIndex.Text.Surrogates

/-!
# Modified UTF-8

Names in a class file are written in a variant of UTF-8: U+0000 is `C0 80`, and a code point beyond
U+FFFF is written as its two surrogates, three bytes each. Decoding joins the surrogates again when
all of them are paired; a text in which some surrogate stands alone is kept as it is.
-/

namespace SubclassIndex.ModifiedUtf8

/-- Every `C0 80`, from left to right, as a zero byte. -/
def restoreNul (bytes : Bytes) : Bytes :=
  go false bytes []
where
  /-- `held` says that a `C0` has been read and not yet passed on; `done` is the result
  backwards. -/
  go (held : Bool) : Bytes → Bytes → Bytes
    | [], done => (if held then 0xC0 :: done else done).reverse
    | b :: rest, done =>
      if held && b == 0x80 then go false rest (0 :: done)
      else
        let done := if held then 0xC0 :: done else done
        if b == 0xC0 then go true rest done else go false rest (b :: done)

/-- The text of some bytes, if they are modified UTF-8. Zero bytes, surrogates of either kind and
four-byte sequences are admitted as well. -/
def decode? (bytes : Bytes) : Option Text :=
  (Utf8.decode? .codePoints (restoreNul bytes)).map fun t =>
    if t.isWellPaired then t.joinPairs else t

/-- The bytes of a text. -/
def encode (t : Text) : Bytes :=
  t.splitPairs.flatMap fun c => if c.val = 0 then [0xC0, 0x80] else Utf8.bytesOf c

end SubclassIndex.ModifiedUtf8
