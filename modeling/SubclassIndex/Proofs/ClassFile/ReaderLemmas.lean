import SubclassIndex.ClassFile.Reader
import SubclassIndex.ClassFile.Writer

/-!
# Reading what was written

Each reader of a part of a class file reads back what the writer of that part has written and leaves
the cursor behind it: `readBytes_append` for bytes, `readNumber_append` for numbers,
`readConstant_encode` for an entry of the pool and `readSlots_encode` for all of them.
`readHeader_prelude` puts them together. The last entry of a pool may take a slot more than there
are left (`Begins`).
-/

namespace SubclassIndex.ClassFile

variable {offset n : Nat} {rest : Bytes} {k : Constant} {ks : List Constant}

/-! ## Bytes and numbers -/

theorem readBytes_append (front : Bytes) (h : front.length = n) :
    readBytes n ⟨offset, front ++ rest⟩ = .ok (front, ⟨offset + n, rest⟩) := by
  subst h
  simp only [readBytes, Cursor.take, splitBytes?_append]

theorem readBytes_cons (b : UInt8) :
    readBytes 1 ⟨offset, b :: rest⟩ = .ok ([b], ⟨offset + 1, rest⟩) :=
  readBytes_append [b] rfl

theorem readNumber_append (h : n < 65536) :
    readNumber 2 ⟨offset, bytesOfU16 n ++ rest⟩ = .ok (n, ⟨offset + 2, rest⟩) := by
  have hread : readBytes 2 ⟨offset, bytesOfU16 n ++ rest⟩ =
      .ok (bytesOfU16 n, ⟨offset + 2, rest⟩) := readBytes_append _ rfl
  rw [readNumber, hread]
  simp only [bigEndian_bytesOfU16 h]

/-! ## Entries of the pool -/

/-- The bytes of a literal determine it. -/
theorem literal?_bytes (l : Literal) : literal? l.bytes = some l := by
  obtain ⟨bytes, text, hdecodes⟩ := l
  unfold literal?
  split
  · next text' h =>
    cases h.symm.trans hdecodes
    rfl
  · next h =>
    rw [hdecodes] at h
    cases h

theorem Tag.code_ne (t : Tag) : t.code ≠ utf8Code ∧ t.code ≠ classCode := by
  cases t <;> decide

theorem readConstant_encode (h : k.Fits) : readConstant ⟨offset, k.encode ++ rest⟩ =
    .ok (k, ⟨offset + k.encode.length, rest⟩) := by
  unfold readConstant
  cases k with
  | utf8 l =>
    have hlength : l.bytes.length < 65536 := h
    have hoffset : offset + (Constant.utf8 l).encode.length = offset + 1 + 2 + l.bytes.length := by
      simp only [Constant.encode, bytesOfU16, List.length_cons, List.length_append, List.length_nil]
      omega
    rw [hoffset]
    simp only [Constant.encode, List.cons_append, List.append_assoc, readBytes_cons, bind,
      Except.bind, List.headD_cons, if_pos, readNumber_append hlength,
      readBytes_append l.bytes rfl, literal?_bytes]
  | classRef slot =>
    have hslot : slot < 65536 := h
    simp only [Constant.encode, List.cons_append, readBytes_cons, bind, Except.bind,
      List.headD_cons, readNumber_append hslot]
    rfl
  | other tag payload =>
    have hwidth : payload.length = tag.width := h
    obtain ⟨hutf8, hclass⟩ := tag.code_ne
    have hoffset : offset + (Constant.other tag payload).encode.length =
        offset + 1 + tag.width := by
      simp only [Constant.encode, List.length_cons]
      omega
    rw [hoffset]
    simp only [Constant.encode, List.cons_append, readBytes_cons, bind, Except.bind,
      List.headD_cons, if_neg hutf8, if_neg hclass, Tag.ofCode?_code, readBytes_append payload hwidth]

/-! ## The pool -/

theorem Pool.lt_of_constant? {pool : Pool} {index : Nat} (h : pool.constant? index = some k) :
    index < pool.length + 1 := by
  unfold Pool.constant? at h
  split at h
  · cases h
  · next n =>
    split at h
    · next hget =>
      have := (List.getElem?_eq_some_iff.1 hget).1
      omega
    · cases h

theorem slotsOf_singleton (k : Constant) :
    slotsOf [k] = if k.isWide then [.entry k, .taken] else [.entry k] :=
  List.flatMap_singleton ..

theorem slotsOf_cons (k : Constant) (ks : List Constant) :
    slotsOf (k :: ks) = slotsOf [k] ++ slotsOf ks :=
  @List.flatMap_append _ _ [k] ks _

/-- Every entry begins at one of the slots that are left. -/
def Begins : Nat → List Constant → Prop
  | _, [] => True
  | n, k :: ks => 0 < n ∧ Begins (n - (slotsOf [k]).length) ks

theorem begins_of_le (h : (slotsOf ks).length ≤ n) : Begins n ks := by
  induction ks generalizing n with
  | nil => trivial
  | cons k ks ih =>
    rw [slotsOf_cons, List.length_append] at h
    refine ⟨?_, ih (by omega)⟩
    have hpos : 0 < (slotsOf [k]).length := by
      rw [slotsOf_singleton]
      split <;> exact Nat.succ_pos _
    omega

/-- One entry is read with the slots that it takes, as far as there are so many. -/
theorem readSlots_go_step (h : k.Fits) (hn : 0 < n) (done : Pool) :
    readSlots.go n false ⟨offset, k.encode ++ rest⟩ done =
      readSlots.go (n - (slotsOf [k]).length) false ⟨offset + k.encode.length, rest⟩
        (((slotsOf [k]).take n).reverse ++ done) := by
  obtain ⟨m, rfl⟩ := Nat.exists_eq_add_one.2 hn
  rw [readSlots.go, slotsOf_singleton]
  simp only [readConstant_encode h]
  cases k.isWide with
  | false => simp
  | true =>
    -- the second slot may lie outside
    cases m with
    | zero => simp [readSlots.go]
    | succ m => simp [readSlots.go]

/-- The slots of entries are read where their bytes are, in front of what is left to read. -/
theorem readSlots_go_encode (h : ∀ k ∈ ks, k.Fits) (hbegins : Begins n ks) (done : Pool) :
    readSlots.go n false ⟨offset, ks.flatMap Constant.encode ++ rest⟩ done =
      readSlots.go (n - (slotsOf ks).length) false
        ⟨offset + (ks.flatMap Constant.encode).length, rest⟩
        (((slotsOf ks).take n).reverse ++ done) := by
  induction ks generalizing offset n done with
  | nil => simp [slotsOf]
  | cons k ks ih =>
    have hks : ∀ k ∈ ks, k.Fits := fun k hmem => h k (List.mem_cons_of_mem _ hmem)
    have hslots : slotsOf (k :: ks) = slotsOf [k] ++ slotsOf ks := slotsOf_cons k ks
    rw [List.flatMap_cons, List.append_assoc,
      readSlots_go_step (h k List.mem_cons_self) hbegins.1, ih hks hbegins.2, hslots,
      List.take_append, List.reverse_append, List.append_assoc, List.length_append,
      List.length_append, Nat.sub_sub, Nat.add_assoc]

theorem readSlots_encode (h : ∀ k ∈ ks, k.Fits) (hbegins : Begins n ks)
    (hfull : n ≤ (slotsOf ks).length) :
    readSlots n ⟨offset, ks.flatMap Constant.encode ++ rest⟩ =
      .ok ((slotsOf ks).take n, ⟨offset + (ks.flatMap Constant.encode).length, rest⟩) := by
  rw [readSlots, readSlots_go_encode h hbegins, Nat.sub_eq_zero_of_le hfull, readSlots.go,
    List.append_nil, List.reverse_reverse]

/-! ## The whole header -/

namespace Prelude

/-- Whether the numbers of the parts fit into their fields. -/
structure Fits (p : Prelude) : Prop where
  version : p.version.length = 4
  constants : ∀ k ∈ p.constants, k.Fits
  slots : (slotsOf p.constants).length < 65535
  flags : p.flags < 65536
  self : p.self < 65536
  super : p.super < 65536

end Prelude

theorem readNumber_magic :
    readNumber 4 ⟨offset, Prelude.magicBytes ++ rest⟩ = .ok (magic, ⟨offset + 4, rest⟩) := by
  have hread : readBytes 4 ⟨offset, Prelude.magicBytes ++ rest⟩ =
      .ok (Prelude.magicBytes, ⟨offset + 4, rest⟩) := readBytes_append _ rfl
  rw [readNumber, hread]
  rfl

/-- What is read behind the pool. -/
def readTail (count : Nat) (r : Pool × Cursor) : Reading Header := do
  let (flags, c) ← readNumber 2 r.2
  let (_, c) ← readNumber 2 c
  let (slot, _) ← readNumber 2 c
  let superclass ← superclassAt r.1 count slot
  .ok ⟨flags, superclass⟩

/-- What opens a class file is read, and then its pool and what is behind that. -/
theorem readHeader_opening {version : Bytes} {count : Nat} (hversion : version.length = 4)
    (hpos : 0 < count) (hcount : count < 65536) :
    readHeader (Prelude.magicBytes ++ (version ++ (bytesOfU16 count ++ rest))) =
      readSlots (count - 1) ⟨10, rest⟩ >>= readTail count := by
  unfold readHeader
  simp only [Cursor.start, bind, Except.bind, readNumber_magic, readBytes_append version hversion,
    readNumber_append hcount]
  rw [if_neg (by decide), if_neg (Nat.ne_of_gt hpos)]
  rfl

theorem readTail_encode {count flags self super : Nat} {pool : Pool} (hflags : flags < 65536)
    (hself : self < 65536) (hsuper : super < 65536) :
    readTail count
        (pool, ⟨offset, bytesOfU16 flags ++ (bytesOfU16 self ++ (bytesOfU16 super ++ rest))⟩) =
      (superclassAt pool count super).map (Header.mk flags) := by
  unfold readTail
  simp only [bind, Except.bind, readNumber_append hflags, readNumber_append hself,
    readNumber_append hsuper]
  cases superclassAt pool count super <;> rfl

/-- Whatever follows the slot of the superclass, all parts before it are read back. -/
theorem readHeader_prelude {p : Prelude} (h : p.Fits) (trailing : Bytes) :
    readHeader (p.encode ++ trailing) =
      (superclassAt (slotsOf p.constants) ((slotsOf p.constants).length + 1) p.super).map
        (Header.mk p.flags) := by
  have hbegins : Begins (slotsOf p.constants).length p.constants := begins_of_le (Nat.le_refl _)
  have hpos : 0 < (slotsOf p.constants).length + 1 := Nat.succ_pos _
  have hcount : (slotsOf p.constants).length + 1 < 65536 := Nat.succ_lt_succ h.slots
  simp only [Prelude.encode, List.append_assoc]
  rw [readHeader_opening h.version hpos hcount, Nat.add_sub_cancel,
    readSlots_encode h.constants hbegins (Nat.le_refl _), List.take_length]
  simp only [bind, Except.bind, readTail_encode h.flags h.self h.super]

end SubclassIndex.ClassFile
