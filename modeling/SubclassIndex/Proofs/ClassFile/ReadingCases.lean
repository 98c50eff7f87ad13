import SubclassIndex.Proofs.ClassFile.Format
import SubclassIndex.Proofs.ModifiedUtf8Exact

/-!
# What reading a class file comes to

Reading goes along the format as far as the bytes follow it. It ends behind the index of the
superclass, or at a text that cannot be decoded, or the bytes are refused (`readHeader_cases`). Each
part has one such lemma, which says what the bytes are; what is then read is known from the writer.
-/

namespace SubclassIndex.ClassFile

variable {α β : Type} {offset n : Nat} {rest payload : Bytes}

/-- Bytes that are refused as no class file. -/
def Refused (result : Reading α) : Prop := ∃ fault, result = .error (.malformed fault)

theorem Refused.bind {result : Reading α} (h : Refused result) (next : α → Reading β) :
    Refused (result >>= next) := by
  obtain ⟨fault, rfl⟩ := h
  exact ⟨fault, rfl⟩

theorem Refused.after {result : Reading α} {next : α → Reading β} {a : α} (hresult : result = .ok a)
    (h : Refused (next a)) : Refused (result >>= next) := by
  rwa [hresult]

/-! ## Bytes and numbers -/

theorem exists_u16 (h : payload.length = 2) : ∃ n : UInt16, payload = bytesOfU16 n.toNat := by
  obtain ⟨a, b, rfl⟩ : ∃ a b, payload = [a, b] := by
    match payload, h with
    | [a, b], _ => exact ⟨a, b, rfl⟩
  have ha := a.toNat_lt
  have hb := b.toNat_lt
  refine ⟨UInt16.ofNat (a.toNat * 256 + b.toNat), ?_⟩
  have hvalue : (UInt16.ofNat (a.toNat * 256 + b.toNat)).toNat = a.toNat * 256 + b.toNat :=
    UInt16.toNat_ofNat_of_lt' (by simp only [UInt16.size]; omega)
  have hhigh : (a.toNat * 256 + b.toNat) / 256 = a.toNat := by omega
  have hlow : (a.toNat * 256 + b.toNat).toUInt8 = b := by
    apply UInt8.toNat_inj.1
    simp only [Nat.toUInt8, UInt8.toNat_ofNat']
    omega
  rw [hvalue, bytesOfU16, hhigh, hlow, Utf8.toUInt8_toNat]

theorem bytesOfU16_mod (n : Nat) : bytesOfU16 (n % 65536) = bytesOfU16 n := by
  have hhigh : (n % 65536 / 256).toUInt8 = (n / 256).toUInt8 := by
    apply UInt8.toNat_inj.1
    simp only [Nat.toUInt8, UInt8.toNat_ofNat']
    omega
  have hlow : (n % 65536).toUInt8 = n.toUInt8 := by
    apply UInt8.toNat_inj.1
    simp only [Nat.toUInt8, UInt8.toNat_ofNat']
    omega
  rw [bytesOfU16, bytesOfU16, hhigh, hlow]

/-- Bytes of an even number in two halves. -/
theorem exists_halves {k : Nat} (h : payload.length = k + k) :
    ∃ front back : Bytes, payload = front ++ back ∧ front.length = k ∧ back.length = k := by
  refine ⟨payload.take k, payload.drop k, (List.take_append_drop k payload).symm, ?_, ?_⟩
  · rw [List.length_take]
    omega
  · rw [List.length_drop]
    omega

theorem exists_u16_pair (h : payload.length = 4) :
    ∃ m n : UInt16, payload = bytesOfU16 m.toNat ++ bytesOfU16 n.toNat := by
  obtain ⟨front, back, rfl, hfront, hback⟩ := exists_halves (k := 2) h
  obtain ⟨m, rfl⟩ := exists_u16 hfront
  obtain ⟨n, rfl⟩ := exists_u16 hback
  exact ⟨m, n, rfl⟩

theorem exists_u32 (h : payload.length = 4) : ∃ n : UInt32, payload = bytesOfU32 n.toNat := by
  obtain ⟨m, n, rfl⟩ := exists_u16_pair h
  have hm := m.toNat_lt
  have hn := n.toNat_lt
  refine ⟨UInt32.ofNat (m.toNat * 65536 + n.toNat), ?_⟩
  have hvalue : (UInt32.ofNat (m.toNat * 65536 + n.toNat)).toNat = m.toNat * 65536 + n.toNat :=
    UInt32.toNat_ofNat_of_lt' (by simp only [UInt32.size]; omega)
  have hhigh : (m.toNat * 65536 + n.toNat) / 65536 = m.toNat := by omega
  have hlow : (m.toNat * 65536 + n.toNat) % 65536 = n.toNat := by omega
  rw [hvalue, bytesOfU32, hhigh, ← bytesOfU16_mod (m.toNat * 65536 + n.toNat), hlow]

theorem bytesOfU32_mod (n : Nat) : bytesOfU32 (n % 4294967296) = bytesOfU32 n := by
  have hhigh : n % 4294967296 / 65536 = n / 65536 % 65536 := by omega
  have hlow : n % 4294967296 % 65536 = n % 65536 := by omega
  rw [bytesOfU32, hhigh, bytesOfU16_mod, ← bytesOfU16_mod (n % 4294967296), hlow, bytesOfU16_mod]
  rfl

theorem exists_u64 (h : payload.length = 8) : ∃ n : UInt64, payload = bytesOfU64 n.toNat := by
  obtain ⟨front, back, rfl, hfront, hback⟩ := exists_halves (k := 4) h
  obtain ⟨m, rfl⟩ := exists_u32 hfront
  obtain ⟨n, rfl⟩ := exists_u32 hback
  have hm := m.toNat_lt
  have hn := n.toNat_lt
  refine ⟨UInt64.ofNat (m.toNat * 4294967296 + n.toNat), ?_⟩
  have hvalue : (UInt64.ofNat (m.toNat * 4294967296 + n.toNat)).toNat =
      m.toNat * 4294967296 + n.toNat :=
    UInt64.toNat_ofNat_of_lt' (by simp only [UInt64.size]; omega)
  have hhigh : (m.toNat * 4294967296 + n.toNat) / 4294967296 = m.toNat := by omega
  have hlow : (m.toNat * 4294967296 + n.toNat) % 4294967296 = n.toNat := by omega
  rw [hvalue, bytesOfU64, hhigh, ← bytesOfU32_mod (m.toNat * 4294967296 + n.toNat), hlow]

theorem readBytes_cases (count offset : Nat) (bytes : Bytes) :
    (∃ front rest : Bytes, bytes = front ++ rest ∧ front.length = count) ∨
      Refused (readBytes count ⟨offset, bytes⟩) := by
  cases hsplit : splitBytes? count bytes with
  | some r =>
    obtain ⟨front, rest⟩ := r
    left
    obtain ⟨hbytes, hlength⟩ := append_of_splitBytes? hsplit
    exact ⟨front, rest, hbytes, hlength⟩
  | none =>
    right
    refine ⟨.truncated offset, ?_⟩
    simp only [readBytes, Cursor.take, hsplit]

theorem readNumber_cases (offset : Nat) (bytes : Bytes) :
    (∃ (n : UInt16) (rest : Bytes), bytes = bytesOfU16 n.toNat ++ rest) ∨
      Refused (readNumber 2 ⟨offset, bytes⟩) := by
  rcases readBytes_cases 2 offset bytes with ⟨front, rest, rfl, hlength⟩ | ⟨fault, hrefused⟩
  · left
    obtain ⟨n, rfl⟩ := exists_u16 hlength
    exact ⟨n, rest, rfl⟩
  · right
    exact ⟨fault, by rw [readNumber, hrefused]⟩

/-! ## Entries -/

/-- The bytes of a text in the pool. -/
def textBytes (payload : Bytes) : Bytes := 1 :: (bytesOfU16 payload.length ++ payload)

/-- Some bytes in the pool in the place of a text, which are none. -/
structure BadText (payload : Bytes) : Prop where
  short : payload.length < 65536
  bad : ¬ModifiedUtf8.Encoded payload

theorem exists_entry_of_tag (t : Tag) (h : payload.length = t.width) :
    ∃ e : Entry, e.constant = .other t payload := by
  cases t with
  | integer =>
    obtain ⟨n, rfl⟩ := exists_u32 h
    exact ⟨.integer n, rfl⟩
  | float =>
    obtain ⟨n, rfl⟩ := exists_u32 h
    exact ⟨.float n, rfl⟩
  | long =>
    obtain ⟨n, rfl⟩ := exists_u64 h
    exact ⟨.long n, rfl⟩
  | double =>
    obtain ⟨n, rfl⟩ := exists_u64 h
    exact ⟨.double n, rfl⟩
  | string =>
    obtain ⟨n, rfl⟩ := exists_u16 h
    exact ⟨.string n, rfl⟩
  | field =>
    obtain ⟨m, n, rfl⟩ := exists_u16_pair h
    exact ⟨.field m n, rfl⟩
  | method =>
    obtain ⟨m, n, rfl⟩ := exists_u16_pair h
    exact ⟨.method m n, rfl⟩
  | interfaceMethod =>
    obtain ⟨m, n, rfl⟩ := exists_u16_pair h
    exact ⟨.interfaceMethod m n, rfl⟩
  | nameAndType =>
    obtain ⟨m, n, rfl⟩ := exists_u16_pair h
    exact ⟨.nameAndType m n, rfl⟩
  | methodHandle =>
    cases payload with
    | nil => cases h
    | cons kind payload =>
      obtain ⟨n, rfl⟩ := exists_u16 (Nat.succ.inj h)
      exact ⟨.methodHandle kind n, rfl⟩
  | methodType =>
    obtain ⟨n, rfl⟩ := exists_u16 h
    exact ⟨.methodType n, rfl⟩
  | dynamic =>
    obtain ⟨m, n, rfl⟩ := exists_u16_pair h
    exact ⟨.dynamic m n, rfl⟩
  | invokeDynamic =>
    obtain ⟨m, n, rfl⟩ := exists_u16_pair h
    exact ⟨.invokeDynamic m n, rfl⟩
  | moduleName =>
    obtain ⟨n, rfl⟩ := exists_u16 h
    exact ⟨.moduleName n, rfl⟩
  | packageName =>
    obtain ⟨n, rfl⟩ := exists_u16 h
    exact ⟨.packageName n, rfl⟩

theorem readConstant_utf8 : readConstant ⟨offset, utf8Code :: rest⟩ =
    readNumber 2 ⟨offset + 1, rest⟩ >>= fun r => readBytes r.1 r.2 >>= fun r =>
      match literal? r.1 with
      | some l => .ok (.utf8 l, r.2)
      | none => .error .undecodable := by
  unfold readConstant
  simp only [readBytes_cons]
  rfl

theorem readConstant_classRef : readConstant ⟨offset, classCode :: rest⟩ =
    readNumber 2 ⟨offset + 1, rest⟩ >>= fun r => .ok (.classRef r.1, r.2) := by
  unfold readConstant
  simp only [readBytes_cons]
  rfl

theorem readConstant_of_ne {code : UInt8} (hutf8 : code ≠ utf8Code) (hclass : code ≠ classCode) :
    readConstant ⟨offset, code :: rest⟩ =
      match Tag.ofCode? code with
      | some tag => readBytes tag.width ⟨offset + 1, rest⟩ >>= fun r => .ok (.other tag r.1, r.2)
      | none => .error (.malformed (.unknownTag code.toNat)) := by
  have hutf8 : [code].headD 0 ≠ utf8Code := hutf8
  have hclass : [code].headD 0 ≠ classCode := hclass
  unfold readConstant
  simp only [readBytes_cons, bind, Except.bind, if_neg hutf8, if_neg hclass]
  rfl

theorem literal?_eq_none_iff : literal? payload = none ↔ ¬ModifiedUtf8.Encoded payload := by
  rw [← ModifiedUtf8.decode?_eq_none_iff]
  unfold literal?
  split
  · next h => simp [h]
  · next h => simp [h]

theorem bytes_of_literal? {l : Literal} (h : literal? payload = some l) : l.bytes = payload := by
  unfold literal? at h
  split at h
  · cases h
    rfl
  · cases h

theorem readConstant_badText (h : BadText payload) :
    readConstant ⟨offset, textBytes payload ++ rest⟩ = .error .undecodable := by
  have hbytes : textBytes payload ++ rest =
      utf8Code :: (bytesOfU16 payload.length ++ (payload ++ rest)) := by
    simp [textBytes, utf8Code]
  rw [hbytes, readConstant_utf8, readNumber_append h.short]
  simp only [bind, Except.bind, readBytes_append payload rfl, literal?_eq_none_iff.2 h.bad]

theorem readConstant_utf8_cases (offset : Nat) (bytes : Bytes) :
    (∃ (e : Entry) (rest : Bytes), utf8Code :: bytes = e.encode ++ rest) ∨
    (∃ payload rest : Bytes, BadText payload ∧ utf8Code :: bytes = textBytes payload ++ rest) ∨
    Refused (readConstant ⟨offset, utf8Code :: bytes⟩) := by
  rw [readConstant_utf8]
  rcases readNumber_cases (offset + 1) bytes with ⟨length, rest, rfl⟩ | hrefused
  · rw [readNumber_append length.toNat_lt]
    rcases readBytes_cases length.toNat (offset + 1 + 2) rest with
      ⟨payload, rest, rfl, hpayload⟩ | hrefused
    · have hshort : payload.length < 65536 := hpayload ▸ length.toNat_lt
      rw [← hpayload]
      cases hliteral : literal? payload with
      | some l =>
        left
        obtain rfl := bytes_of_literal? hliteral
        refine ⟨.utf8 l hshort, rest, ?_⟩
        simp [Entry.encode, utf8Code]
      | none =>
        right
        left
        refine ⟨payload, rest, ⟨hshort, literal?_eq_none_iff.1 hliteral⟩, ?_⟩
        simp [textBytes, utf8Code]
    · exact .inr (.inr (hrefused.bind _))
  · exact .inr (.inr (hrefused.bind _))

theorem readConstant_classRef_cases (offset : Nat) (bytes : Bytes) :
    (∃ (e : Entry) (rest : Bytes), classCode :: bytes = e.encode ++ rest) ∨
    Refused (readConstant ⟨offset, classCode :: bytes⟩) := by
  rw [readConstant_classRef]
  rcases readNumber_cases (offset + 1) bytes with ⟨name, rest, rfl⟩ | hrefused
  · exact .inl ⟨.classRef name, rest, rfl⟩
  · exact .inr (hrefused.bind _)

theorem readConstant_other_cases {code : UInt8} (hutf8 : code ≠ utf8Code)
    (hclass : code ≠ classCode) (offset : Nat) (bytes : Bytes) :
    (∃ (e : Entry) (rest : Bytes), code :: bytes = e.encode ++ rest) ∨
    Refused (readConstant ⟨offset, code :: bytes⟩) := by
  rw [readConstant_of_ne hutf8 hclass]
  cases htag : Tag.ofCode? code with
  | none => exact .inr ⟨_, rfl⟩
  | some t =>
    rcases readBytes_cases t.width (offset + 1) bytes with ⟨payload, rest, rfl, hpayload⟩ | hrefused
    · left
      obtain ⟨e, he⟩ := exists_entry_of_tag t hpayload
      refine ⟨e, rest, ?_⟩
      rw [← e.encode_constant, he, Constant.encode, Tag.code_ofCode? htag]
      rfl
    · exact .inr (hrefused.bind _)

/-- The next bytes are an entry, or one with a text that cannot be decoded, or they are refused. -/
theorem readConstant_cases (offset : Nat) (bytes : Bytes) :
    (∃ (e : Entry) (rest : Bytes), bytes = e.encode ++ rest) ∨
    (∃ payload rest : Bytes, BadText payload ∧ bytes = textBytes payload ++ rest) ∨
    Refused (readConstant ⟨offset, bytes⟩) := by
  rcases readBytes_cases 1 offset bytes with ⟨front, rest, rfl, hlength⟩ | hrefused
  · obtain ⟨code, rfl⟩ := List.length_eq_one_iff.1 hlength
    rw [List.singleton_append]
    by_cases hutf8 : code = utf8Code
    · rw [hutf8]
      exact readConstant_utf8_cases offset rest
    · by_cases hclass : code = classCode
      · rw [hclass]
        exact (readConstant_classRef_cases offset rest).imp_right .inr
      · exact (readConstant_other_cases hutf8 hclass offset rest).imp_right .inr
  · exact .inr (.inr (hrefused.bind _))

/-! ## The pool -/

/-- Entries that fill so many slots, the last one perhaps with a slot more. -/
structure Fill (n : Nat) (entries : List Entry) : Prop where
  begins : Begins n (entries.map Entry.constant)
  full : n ≤ Entry.slotCount entries

theorem readSlots_go_entries {entries : List Entry}
    (h : Begins n (entries.map Entry.constant)) (done : Pool) :
    readSlots.go n false ⟨offset, entries.flatMap Entry.encode ++ rest⟩ done =
      readSlots.go (n - Entry.slotCount entries) false
        ⟨offset + (entries.flatMap Entry.encode).length, rest⟩
        (((slotsOf (entries.map Entry.constant)).take n).reverse ++ done) := by
  rw [← Entry.encode_constants, readSlots_go_encode (Entry.fits_constants entries) h,
    Entry.length_slotsOf]

theorem readSlots_go_entry (e : Entry) (done : Pool) :
    readSlots.go (n + 1) false ⟨offset, e.encode ++ rest⟩ done =
      readSlots.go (n + 1 - e.slots) false ⟨offset + e.encode.length, rest⟩
        (((slotsOf [e.constant]).take (n + 1)).reverse ++ done) := by
  rw [← e.encode_constant, readSlots_go_step e.fits_constant (Nat.succ_pos n),
    e.length_slotsOf_constant]

theorem readSlots_of_fill {entries : List Entry} (h : Fill n entries) :
    readSlots n ⟨offset, entries.flatMap Entry.encode ++ rest⟩ =
      .ok ((slotsOf (entries.map Entry.constant)).take n,
        ⟨offset + (entries.flatMap Entry.encode).length, rest⟩) := by
  rw [readSlots, readSlots_go_entries h.begins, Nat.sub_eq_zero_of_le h.full, readSlots.go,
    List.append_nil, List.reverse_reverse]

theorem readSlots_of_badText {entries : List Entry} (hslots : Entry.slotCount entries < n)
    (h : BadText payload) :
    readSlots n ⟨offset, entries.flatMap Entry.encode ++ (textBytes payload ++ rest)⟩ =
      .error .undecodable := by
  have hbegins : Begins n (entries.map Entry.constant) := by
    apply begins_of_le
    rw [Entry.length_slotsOf]
    exact Nat.le_of_lt hslots
  obtain ⟨m, hm⟩ := Nat.exists_eq_add_one.2 (Nat.sub_pos_of_lt hslots)
  rw [readSlots, readSlots_go_entries hbegins, hm, readSlots.go, readConstant_badText h]

theorem readSlots_go_cases (n offset : Nat) (bytes : Bytes) (done : Pool) :
    (∃ (entries : List Entry) (rest : Bytes), Fill n entries ∧
      bytes = entries.flatMap Entry.encode ++ rest) ∨
    (∃ (entries : List Entry) (payload rest : Bytes), Entry.slotCount entries < n ∧
      BadText payload ∧ bytes = entries.flatMap Entry.encode ++ (textBytes payload ++ rest)) ∨
    Refused (readSlots.go n false ⟨offset, bytes⟩ done) := by
  induction n using Nat.strongRecOn generalizing offset bytes done with
  | ind n ih =>
    cases n with
    | zero => exact .inl ⟨[], bytes, ⟨trivial, Nat.zero_le _⟩, rfl⟩
    | succ n =>
      rcases readConstant_cases offset bytes with
        ⟨e, rest, rfl⟩ | ⟨payload, rest, hbad, rfl⟩ | ⟨fault, hrefused⟩
      · -- the slots that the entry leaves are fewer
        have hslots := Entry.length_slotsOf_constant e
        have hpos := e.slots_pos
        rw [readSlots_go_entry]
        rcases ih (n + 1 - e.slots) (by omega) _ rest _ with
          ⟨entries, rest, hfill, rfl⟩ | ⟨entries, payload, rest, hlt, hbad, rfl⟩ | hrefused
        · left
          refine ⟨e :: entries, rest, ⟨⟨Nat.succ_pos n, ?_⟩, ?_⟩, ?_⟩
          · rw [hslots]
            exact hfill.begins
          · have hfull := hfill.full
            rw [Entry.slotCount]
            omega
          · rw [List.flatMap_cons, List.append_assoc]
        · right
          left
          refine ⟨e :: entries, payload, rest, ?_, hbad, ?_⟩
          · rw [Entry.slotCount]
            omega
          · rw [List.flatMap_cons, List.append_assoc]
        · exact .inr (.inr hrefused)
      · exact .inr (.inl ⟨[], payload, rest, Nat.succ_pos n, hbad, rfl⟩)
      · right
        right
        refine ⟨fault, ?_⟩
        rw [readSlots.go, hrefused]

/-! ## The whole header -/

/-- A class file up to the index of its superclass, with the count that it states. -/
structure Parts where
  minor : UInt16
  major : UInt16
  count : UInt16
  entries : List Entry
  flags : UInt16
  self : UInt16
  super : UInt16

/-- What opens a class file up to the count of its pool. -/
def openingBytes (minor major count : UInt16) : Bytes :=
  [0xCA, 0xFE, 0xBA, 0xBE] ++ bytesOfU16 minor.toNat ++ bytesOfU16 major.toNat ++
    bytesOfU16 count.toNat

namespace Parts

def encode (p : Parts) : Bytes :=
  openingBytes p.minor p.major p.count ++ p.entries.flatMap Entry.encode ++
    bytesOfU16 p.flags.toNat ++ bytesOfU16 p.self.toNat ++ bytesOfU16 p.super.toNat

/-- The pool has at least the index zero, which no entry has, and the entries fill all others. -/
structure Filled (p : Parts) : Prop where
  pos : 0 < p.count.toNat
  fill : Fill (p.count.toNat - 1) p.entries

/-- The slots that are read. -/
def pool (p : Parts) : Pool :=
  (slotsOf (p.entries.map Entry.constant)).take (p.count.toNat - 1)

end Parts

/-- Among the entries of the pool, in front of which all are whole, is a text that cannot be
decoded. -/
def HasBadText (data : Bytes) : Prop :=
  ∃ (minor major count : UInt16) (entries : List Entry) (payload trailing : Bytes),
    Entry.slotCount entries + 1 < count.toNat ∧ BadText payload ∧
      data = openingBytes minor major count ++ entries.flatMap Entry.encode ++
        textBytes payload ++ trailing

theorem readHeader_openingBytes {minor major count : UInt16} (hpos : 0 < count.toNat) :
    readHeader (openingBytes minor major count ++ rest) =
      readSlots (count.toNat - 1) ⟨10, rest⟩ >>= readTail count.toNat := by
  have hversion : (bytesOfU16 minor.toNat ++ bytesOfU16 major.toNat).length = 4 := rfl
  rw [← readHeader_opening hversion hpos count.toNat_lt]
  simp only [openingBytes, Prelude.magicBytes, List.append_assoc]

theorem readHeader_parts {p : Parts} (h : p.Filled) (trailing : Bytes) :
    readHeader (p.encode ++ trailing) =
      (superclassAt p.pool p.count.toNat p.super.toNat).map (Header.mk p.flags.toNat) := by
  simp only [Parts.encode, List.append_assoc]
  rw [readHeader_openingBytes h.pos, readSlots_of_fill h.fill]
  simp only [bind, Except.bind, readTail_encode p.flags.toNat_lt p.self.toNat_lt p.super.toNat_lt]
  rfl

theorem readHeader_of_hasBadText {data : Bytes} (h : HasBadText data) :
    readHeader data = .error .undecodable := by
  obtain ⟨minor, major, count, entries, payload, trailing, hslots, hbad, rfl⟩ := h
  have hpos : 0 < count.toNat := by omega
  have hlt : Entry.slotCount entries < count.toNat - 1 := by omega
  simp only [List.append_assoc]
  rw [readHeader_openingBytes hpos, readSlots_of_badText hlt hbad]
  rfl

theorem bigEndian_bytesOfU32 {n : Nat} (h : n < 4294967296) : bigEndian (bytesOfU32 n) = n := by
  simp [bigEndian, bytesOfU32, bytesOfU16]; omega

theorem eq_magicBytes {front : Bytes} (hlength : front.length = 4) (h : bigEndian front = magic) :
    front = [0xCA, 0xFE, 0xBA, 0xBE] := by
  obtain ⟨n, rfl⟩ := exists_u32 hlength
  rw [bigEndian_bytesOfU32 n.toNat_lt] at h
  rw [h]
  rfl

theorem opening_cases (data : Bytes) :
    (∃ (minor major count : UInt16) (rest : Bytes), 0 < count.toNat ∧
      data = openingBytes minor major count ++ rest) ∨ Refused (readHeader data) := by
  unfold readHeader Cursor.start
  rcases readBytes_cases 4 0 data with ⟨front, rest, rfl, hfront⟩ | ⟨fault, hrefused⟩
  · have hopening : readNumber 4 ⟨0, front ++ rest⟩ = .ok (bigEndian front, ⟨0 + 4, rest⟩) := by
      rw [readNumber, readBytes_append front hfront]
    refine Or.imp_right (.after hopening) ?_
    dsimp only
    by_cases hmagic : bigEndian front = magic
    · rw [if_neg (not_not_intro hmagic)]
      rcases readBytes_cases 4 (0 + 4) rest with ⟨version, rest, rfl, hversion⟩ | hrefused
      · refine Or.imp_right (.after (readBytes_append version hversion)) ?_
        rcases readNumber_cases (0 + 4 + 4) rest with ⟨count, rest, rfl⟩ | hrefused
        · refine Or.imp_right (.after (readNumber_append count.toNat_lt)) ?_
          dsimp only
          by_cases hcount : count.toNat = 0
          · rw [if_pos hcount]
            exact .inr ⟨.emptyPool, rfl⟩
          · left
            obtain ⟨minor, major, rfl⟩ := exists_u16_pair hversion
            refine ⟨minor, major, count, rest, Nat.pos_of_ne_zero hcount, ?_⟩
            rw [eq_magicBytes hfront hmagic]
            simp only [openingBytes, List.append_assoc]
        · exact .inr (hrefused.bind _)
      · exact .inr (hrefused.bind _)
    · rw [if_pos hmagic]
      exact .inr ⟨.magicMissing, rfl⟩
  · right
    refine Refused.bind ⟨fault, ?_⟩ _
    rw [readNumber, hrefused]

theorem readTail_cases (count offset : Nat) (pool : Pool) (bytes : Bytes) :
    (∃ (flags self super : UInt16) (rest : Bytes),
      bytes = bytesOfU16 flags.toNat ++ bytesOfU16 self.toNat ++ bytesOfU16 super.toNat ++ rest) ∨
    Refused (readTail count (pool, ⟨offset, bytes⟩)) := by
  unfold readTail
  rcases readNumber_cases offset bytes with ⟨flags, rest, rfl⟩ | hrefused
  · refine Or.imp_right (.after (readNumber_append flags.toNat_lt)) ?_
    rcases readNumber_cases (offset + 2) rest with ⟨self, rest, rfl⟩ | hrefused
    · refine Or.imp_right (.after (readNumber_append self.toNat_lt)) ?_
      rcases readNumber_cases (offset + 2 + 2) rest with ⟨super, rest, rfl⟩ | hrefused
      · left
        exact ⟨flags, self, super, rest, by simp only [List.append_assoc]⟩
      · exact .inr (hrefused.bind _)
    · exact .inr (hrefused.bind _)
  · exact .inr (hrefused.bind _)

/-- Bytes begin as a class file does, or they have a text that cannot be decoded, or they are
refused. -/
theorem readHeader_cases (data : Bytes) :
    (∃ (p : Parts) (trailing : Bytes), p.Filled ∧ data = p.encode ++ trailing) ∨
      HasBadText data ∨ Refused (readHeader data) := by
  rcases opening_cases data with ⟨minor, major, count, rest, hpos, rfl⟩ | hrefused
  · rw [readHeader_openingBytes hpos]
    rcases readSlots_go_cases (count.toNat - 1) 10 rest [] with
      ⟨entries, rest, hfill, rfl⟩ | ⟨entries, payload, rest, hslots, hbad, rfl⟩ | hrefused
    · rw [readSlots_of_fill hfill]
      rcases readTail_cases count.toNat (10 + (entries.flatMap Entry.encode).length)
          ((slotsOf (entries.map Entry.constant)).take (count.toNat - 1)) rest with
        ⟨flags, self, super, rest, rfl⟩ | hrefused
      · left
        refine ⟨⟨minor, major, count, entries, flags, self, super⟩, rest, ⟨hpos, hfill⟩, ?_⟩
        simp only [Parts.encode, List.append_assoc]
      · exact .inr (.inr hrefused)
    · right
      left
      refine ⟨minor, major, count, entries, payload, rest, by omega, hbad, ?_⟩
      simp only [List.append_assoc]
    · exact .inr (.inr (hrefused.bind _))
  · exact .inr (.inr hrefused)

/-- A header is returned or the bytes are refused, unless a text of the pool cannot be decoded. -/
theorem readHeader_ends_iff (data : Bytes) :
    ((∃ header, readHeader data = .ok header) ∨
      ∃ fault, readHeader data = .error (.malformed fault)) ↔ ¬HasBadText data := by
  constructor
  · intro h hbad
    rw [readHeader_of_hasBadText hbad] at h
    rcases h with ⟨header, hok⟩ | ⟨fault, hrefused⟩
    · cases hok
    · cases hrefused
  · intro hbad
    rcases readHeader_cases data with ⟨p, trailing, hfilled, rfl⟩ | hbad' | hrefused
    · rw [readHeader_parts hfilled]
      unfold superclassAt
      split
      · exact .inr ⟨_, rfl⟩
      · exact .inl ⟨_, rfl⟩
    · exact absurd hbad' hbad
    · exact .inr hrefused

/-- A class file whose only entry is a text with a byte that occurs in no encoding. -/
def badTextFile : Bytes :=
  openingBytes 0 52 2 ++ textBytes [0xFF] ++ [0, 0x21, 0, 0, 0, 0]

theorem readHeader_badTextFile : ¬((∃ header, readHeader badTextFile = .ok header) ∨
    ∃ fault, readHeader badTextFile = .error (.malformed fault)) := by
  have h : readHeader badTextFile = .error .undecodable := by cbv
  simp [h]

end SubclassIndex.ClassFile
