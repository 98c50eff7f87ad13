import SubclassIndex.Text.Basic

/-!
# Reading bytes in order

A cursor is a place in some bytes: how many have been read and which are left. Reading past the end
fails at the place where the read began. Numbers are written with the most significant byte first.
-/

namespace SubclassIndex

/-- The first bytes, if there are that many, and the rest. -/
def splitBytes? (count : Nat) (bytes : Bytes) : Option (Bytes × Bytes) :=
  go count bytes []
where
  /-- `taken` holds the bytes taken so far, backwards. -/
  go : Nat → Bytes → Bytes → Option (Bytes × Bytes)
    | 0, rest, taken => some (taken.reverse, rest)
    | _ + 1, [], _ => none
    | n + 1, b :: rest, taken => go n rest (b :: taken)

theorem splitBytes?_go (front rest taken : Bytes) :
    splitBytes?.go front.length (front ++ rest) taken = some (taken.reverse ++ front, rest) := by
  induction front generalizing taken with
  | nil => simp [splitBytes?.go]
  | cons b front ih => simp [splitBytes?.go, ih]

theorem splitBytes?_append (front rest : Bytes) :
    splitBytes? front.length (front ++ rest) = some (front, rest) := by
  simp [splitBytes?, splitBytes?_go]

theorem append_of_splitBytes?_go {n : Nat} {bytes taken front rest : Bytes}
    (h : splitBytes?.go n bytes taken = some (front, rest)) :
    ∃ middle, front = taken.reverse ++ middle ∧ bytes = middle ++ rest ∧ middle.length = n := by
  induction n generalizing bytes taken with
  | zero =>
    simp only [splitBytes?.go, Option.some.injEq, Prod.mk.injEq] at h
    exact ⟨[], by simp [← h.1, ← h.2]⟩
  | succ n ih =>
    cases bytes with
    | nil => simp [splitBytes?.go] at h
    | cons b bytes =>
      obtain ⟨middle, h₁, h₂, h₃⟩ := ih (by simpa [splitBytes?.go] using h)
      exact ⟨b :: middle, by simp [h₁], by simp [h₂], by simp [h₃]⟩

theorem append_of_splitBytes? {n : Nat} {bytes front rest : Bytes}
    (h : splitBytes? n bytes = some (front, rest)) : bytes = front ++ rest ∧ front.length = n := by
  obtain ⟨middle, h₁, h₂, h₃⟩ := append_of_splitBytes?_go h
  simp only [List.reverse_nil, List.nil_append] at h₁
  exact ⟨h₁ ▸ h₂, h₁ ▸ h₃⟩

/-- The number that some bytes write, the most significant one first. -/
def bigEndian (bytes : Bytes) : Nat := bytes.foldl (fun n b => n * 256 + b.toNat) 0

/-- The number that some bytes write, the least significant one first. -/
def littleEndian (bytes : Bytes) : Nat := bytes.foldr (fun b n => b.toNat + n * 256) 0

/-- A number in two bytes, the most significant one first. -/
def bytesOfU16 (n : Nat) : Bytes := [(n / 256).toUInt8, n.toUInt8]

theorem bigEndian_bytesOfU16 {n : Nat} (h : n < 65536) : bigEndian (bytesOfU16 n) = n := by
  simp [bigEndian, bytesOfU16]; omega

/-- A place in some bytes. -/
structure Cursor where
  offset : Nat
  rest : Bytes

namespace Cursor

/-- The beginning of some bytes. -/
def start (bytes : Bytes) : Cursor := ⟨0, bytes⟩

/-- The next bytes; the error is the offset at which there are too few. -/
def take (count : Nat) (c : Cursor) : Except Nat (Bytes × Cursor) :=
  match splitBytes? count c.rest with
  | some (front, rest) => .ok (front, ⟨c.offset + count, rest⟩)
  | none => .error c.offset

end Cursor

end SubclassIndex
