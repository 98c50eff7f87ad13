import Mathlib.Data.Nat.Find
import SubclassIndex.ClassFile.Reader

/-!
# Class files that are cut or continued

A reader of a part of a class file looks at no byte behind that part. More bytes behind it change
nothing, unless the reader had run out of bytes (`Agrees`), and this passes from the readers of bytes
through the pool to the whole header (`agrees_readHeader`). So an accepted file has a shortest
beginning that is accepted: whatever follows it, the header is the same, and all that is shorter is
cut off (`readHeader_take`).
-/

namespace SubclassIndex

/-- The cursor with more bytes behind those that are left. -/
def Cursor.extend (more : Bytes) (c : Cursor) : Cursor := ⟨c.offset, c.rest ++ more⟩

namespace ClassFile

variable {α β : Type} {more : Bytes}

/-- A reading that has run out of bytes. -/
def Starved (result : Reading α) : Prop :=
  ∃ offset, result = .error (.malformed (.truncated offset))

/-- A reading has run out of bytes, or another one differs from it only in what is left behind. -/
def Agrees (extend : α → α) (result result' : Reading α) : Prop :=
  Starved result ∨ result' = result.map extend

/-- What was read, with more bytes behind those that are left. -/
def withMore (more : Bytes) (r : α × Cursor) : α × Cursor := (r.1, r.2.extend more)

namespace Agrees

variable {extend : β → β}

theorem ok (b : β) : Agrees extend (.ok b) (.ok (extend b)) :=
  .inr rfl

theorem error (fault : HeaderFault) : Agrees extend (.error fault) (.error fault) :=
  .inr rfl

theorem bind {result result' : Reading (α × Cursor)} {next next' : α × Cursor → Reading β}
    (h : Agrees (withMore more) result result')
    (hnext : ∀ a c, Agrees extend (next (a, c)) (next' (a, c.extend more))) :
    Agrees extend (result >>= next) (result' >>= next') := by
  rcases h with ⟨offset, rfl⟩ | rfl
  · left
    exact ⟨offset, rfl⟩
  · cases result with
    | error fault => exact .error fault
    | ok r => exact hnext r.1 r.2

end Agrees

/-! ## Bytes and numbers -/

theorem splitBytes?_extend {count : Nat} {bytes front rest : Bytes}
    (h : splitBytes? count bytes = some (front, rest)) :
    splitBytes? count (bytes ++ more) = some (front, rest ++ more) := by
  obtain ⟨rfl, rfl⟩ := append_of_splitBytes? h
  rw [List.append_assoc]
  exact splitBytes?_append front (rest ++ more)

theorem agrees_readBytes (count : Nat) (c : Cursor) :
    Agrees (withMore more) (readBytes count c) (readBytes count (c.extend more)) := by
  cases hsplit : splitBytes? count c.rest with
  | none =>
    left
    refine ⟨c.offset, ?_⟩
    simp only [readBytes, Cursor.take, hsplit]
  | some r =>
    right
    simp only [readBytes, Cursor.take, Cursor.extend, hsplit, splitBytes?_extend hsplit]
    rfl

theorem readNumber_eq (width : Nat) (c : Cursor) :
    readNumber width c = readBytes width c >>= fun r => .ok (bigEndian r.1, r.2) := by
  unfold readNumber
  cases readBytes width c <;> rfl

theorem agrees_readNumber (width : Nat) (c : Cursor) :
    Agrees (withMore more) (readNumber width c) (readNumber width (c.extend more)) := by
  rw [readNumber_eq, readNumber_eq]
  apply (agrees_readBytes width c).bind
  intro bytes c
  exact .ok (bigEndian bytes, c)

/-! ## The pool -/

theorem agrees_readConstant (c : Cursor) :
    Agrees (withMore more) (readConstant c) (readConstant (c.extend more)) := by
  unfold readConstant
  apply (agrees_readBytes 1 c).bind
  intro code c
  dsimp only
  split
  · apply (agrees_readNumber 2 c).bind
    intro length c
    apply (agrees_readBytes length c).bind
    intro bytes c
    dsimp only
    cases literal? bytes with
    | none => exact .error .undecodable
    | some l => exact .ok (Constant.utf8 l, c)
  · split
    · apply (agrees_readNumber 2 c).bind
      intro slot c
      exact .ok (Constant.classRef slot, c)
    · cases Tag.ofCode? (code.headD 0) with
      | none => exact .error (.malformed _)
      | some tag =>
        apply (agrees_readBytes tag.width c).bind
        intro payload c
        exact .ok (Constant.other tag payload, c)

theorem readSlots_go_succ (n : Nat) (c : Cursor) (done : Pool) :
    readSlots.go (n + 1) false c done =
      readConstant c >>= fun r => readSlots.go n r.1.isWide r.2 (.entry r.1 :: done) := by
  rw [readSlots.go]
  cases readConstant c <;> rfl

theorem agrees_readSlots_go (n : Nat) (held : Bool) (c : Cursor) (done : Pool) :
    Agrees (withMore more) (readSlots.go n held c done)
      (readSlots.go n held (c.extend more) done) := by
  induction n generalizing held c done with
  | zero => exact .ok (done.reverse, c)
  | succ n ih =>
    cases held with
    | true => exact ih false c (.taken :: done)
    | false =>
      rw [readSlots_go_succ, readSlots_go_succ]
      apply (agrees_readConstant c).bind
      intro k c
      exact ih k.isWide c (.entry k :: done)

/-! ## The whole header -/

theorem agrees_readHeader (bytes more : Bytes) :
    Agrees id (readHeader bytes) (readHeader (bytes ++ more)) := by
  have hopening : Agrees (withMore more) (readNumber 4 (.start bytes))
      (readNumber 4 (.start (bytes ++ more))) := agrees_readNumber 4 (.start bytes)
  unfold readHeader
  apply hopening.bind
  intro opening c
  dsimp only
  split
  · exact .error (.malformed .magicMissing)
  · apply (agrees_readBytes 4 c).bind
    intro version c
    apply (agrees_readNumber 2 c).bind
    intro count c
    dsimp only
    split
    · exact .error (.malformed .emptyPool)
    · apply (agrees_readSlots_go (count - 1) false c []).bind
      intro pool c
      apply (agrees_readNumber 2 c).bind
      intro flags c
      apply (agrees_readNumber 2 c).bind
      intro self c
      apply (agrees_readNumber 2 c).bind
      intro slot c
      dsimp only
      cases superclassAt pool count slot with
      | error fault => exact .error fault
      | ok superclass => exact .ok (Header.mk flags superclass)

theorem readHeader_append {bytes : Bytes} {header : Header} (h : readHeader bytes = .ok header)
    (more : Bytes) : readHeader (bytes ++ more) = .ok header := by
  rcases agrees_readHeader bytes more with ⟨offset, hstarved⟩ | hsame
  · rw [h] at hstarved
    cases hstarved
  · rw [hsame, h]
    rfl

/-- If a continuation of some bytes is accepted, then they are accepted or cut off. -/
theorem starved_of_append {bytes more : Bytes} {header : Header}
    (h : readHeader (bytes ++ more) = .ok header) (hnot : readHeader bytes ≠ .ok header) :
    Starved (readHeader bytes) := by
  rcases agrees_readHeader bytes more with hstarved | hsame
  · exact hstarved
  · rw [h] at hsame
    cases hbytes : readHeader bytes with
    | error fault =>
      rw [hbytes] at hsame
      cases hsame
    | ok header' =>
      rw [hbytes] at hsame
      cases hsame
      exact absurd hbytes hnot

/-- An accepted file ends somewhere: whatever follows there, the same header is read, and all that
ends before is cut off. -/
theorem readHeader_take {data : Bytes} {header : Header} (h : readHeader data = .ok header) :
    ∃ n ≤ data.length, (∀ trailing, readHeader (data.take n ++ trailing) = .ok header) ∧
      ∀ k < n, ∃ offset, readHeader (data.take k) = .error (.malformed (.truncated offset)) := by
  classical
  have hexists : ∃ n, readHeader (data.take n) = .ok header := by
    refine ⟨data.length, ?_⟩
    rwa [List.take_length]
  refine ⟨Nat.find hexists, ?_, ?_, ?_⟩
  · apply Nat.find_le
    rwa [List.take_length]
  · exact readHeader_append (Nat.find_spec hexists)
  · intro k hk
    have hwhole : readHeader (data.take k ++ data.drop k) = .ok header := by
      rwa [List.take_append_drop]
    exact starved_of_append hwhole (Nat.find_min hexists hk)

/-- A class that extends `B`, with four bytes behind the index of the superclass. -/
def shortFile : Bytes :=
  [0xCA, 0xFE, 0xBA, 0xBE, 0, 0, 0, 52, 0, 3, 1, 0, 1, 0x42, 7, 0, 1, 0, 0x21, 0, 2, 0, 2,
    0, 0, 0, 0]

theorem readHeader_take_shortFile : readHeader shortFile = .ok ⟨0x21, some "B"⟩ ∧
    ∃ n ≤ shortFile.length,
      (∀ trailing, readHeader (shortFile.take n ++ trailing) = .ok ⟨0x21, some "B"⟩) ∧
      ∀ k < n, ∃ offset, readHeader (shortFile.take k) = .error (.malformed (.truncated offset)) :=
  have h : readHeader shortFile = .ok ⟨0x21, some "B"⟩ := by cbv
  ⟨h, readHeader_take h⟩

end ClassFile

end SubclassIndex
