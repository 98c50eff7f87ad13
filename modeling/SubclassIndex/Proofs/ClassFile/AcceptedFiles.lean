import SubclassIndex.Proofs.ClassFile.ReadingCases

/-!
# Accepted class files

Which bytes are accepted, and with which header (`readHeader_eq_ok_iff`). Besides the class files in
the format there are two more kinds. The last entry may take a slot more than there are, and the
index of the superclass may lead to no text, and then there seems to be no superclass. A file has
its parts in one way only, since the reader finds them (`Parts.unique`), so these files are not in
the format (`wellFormed_iff`).
-/

namespace SubclassIndex.ClassFile

variable {n : Nat} {k : Constant} {ks : List Constant} {entries : List Entry} {pool : Pool}
variable {data trailing : Bytes} {header : Header} {text : Text} {superclass : Option Text}

/-! ## Pools that are filled -/

theorem begins_append_singleton (h : (slotsOf ks).length < n) : Begins n (ks ++ [k]) := by
  induction ks generalizing n with
  | nil => exact ⟨Nat.zero_lt_of_lt h, trivial⟩
  | cons front ks ih =>
    rw [slotsOf_cons, List.length_append] at h
    exact ⟨Nat.zero_lt_of_lt h, ih (by omega)⟩

theorem eq_nil_of_begins_zero (h : Begins 0 ks) : ks = [] := by
  cases ks with
  | nil => rfl
  | cons k ks => exact absurd h.1 (Nat.lt_irrefl 0)

theorem Entry.slotCount_append_singleton (entries : List Entry) (e : Entry) :
    slotCount (entries ++ [e]) = slotCount entries + e.slots := by
  induction entries with
  | nil => exact Nat.add_comm e.slots 0
  | cons front entries ih => rw [List.cons_append, slotCount, slotCount, ih, Nat.add_assoc]

theorem fill_of_slotCount_eq (h : Entry.slotCount entries = n) : Fill n entries where
  begins := by
    apply begins_of_le
    rw [Entry.length_slotsOf]
    exact Nat.le_of_eq h
  full := Nat.le_of_eq h.symm

theorem fill_append_singleton {last : Entry} (hlast : last.slots = 2)
    (h : Entry.slotCount entries + 1 = n) : Fill n (entries ++ [last]) where
  begins := by
    rw [List.map_append]
    apply begins_append_singleton
    rw [Entry.length_slotsOf]
    omega
  full := by
    rw [Entry.slotCount_append_singleton]
    omega

/-- Entries fill just the slots that there are, or the second slot of the last entry is too many. -/
theorem Fill.cases (h : Fill n entries) : Entry.slotCount entries = n ∨
    ∃ front last, entries = front ++ [last] ∧ last.slots = 2 ∧ Entry.slotCount front + 1 = n := by
  obtain ⟨hbegins, hfull⟩ := h
  induction entries generalizing n with
  | nil => exact .inl (Nat.le_zero.1 hfull).symm
  | cons e rest ih =>
    obtain ⟨hpos, hrest⟩ := hbegins
    rw [Entry.length_slotsOf_constant] at hrest
    rw [Entry.slotCount] at hfull ⊢
    by_cases hle : e.slots ≤ n
    · rcases ih hrest (by omega) with hcount | ⟨front, last, rfl, hlast, hfront⟩
      · left
        omega
      · right
        refine ⟨e :: front, last, rfl, hlast, ?_⟩
        rw [Entry.slotCount]
        omega
    · -- a wide entry in the last slot, so that nothing follows
      right
      rw [Nat.sub_eq_zero_of_le (Nat.le_of_not_le hle)] at hrest
      obtain rfl := List.map_eq_nil_iff.1 (eq_nil_of_begins_zero hrest)
      rcases e.slots_cases with ⟨hslots, _⟩ | ⟨hslots, _⟩
      · omega
      · refine ⟨[], e, rfl, hslots, ?_⟩
        rw [Entry.slotCount]
        omega

/-- The entry that begins in a slot. -/
def Slot.constant? : Slot → Option Constant
  | entry k => some k
  | taken => none

/-- The entries are found in the slots that are read. -/
theorem filterMap_slotsOf (h : Begins n ks) :
    ((slotsOf ks).take n).filterMap Slot.constant? = ks := by
  induction ks generalizing n with
  | nil => rw [slotsOf, List.flatMap_nil, List.take_nil, List.filterMap_nil]
  | cons k ks ih =>
    obtain ⟨m, rfl⟩ := Nat.exists_eq_add_one.2 h.1
    have hfront : ((slotsOf [k]).take (m + 1)).filterMap Slot.constant? = [k] := by
      rw [slotsOf_singleton]
      cases k.isWide with
      | false => simp [Slot.constant?]
      | true => cases m <;> simp [Slot.constant?]
    rw [slotsOf_cons, List.take_append, List.filterMap_append, hfront, ih h.2,
      List.singleton_append]

/-! ## Names in the pool -/

theorem Pool.className?_eq_some_iff {slot : Nat} : pool.className? slot = some text ↔
    ∃ name l, pool.constant? slot = some (.classRef name) ∧
      pool.constant? name = some (.utf8 l) ∧ l.text = text := by
  constructor
  · intro h
    unfold className? at h
    split at h
    · next name hclass =>
      unfold text? at h
      split at h
      · next l hname =>
        exact ⟨name, l, hclass, hname, Option.some.inj h⟩
      · cases h
    · cases h
  · rintro ⟨name, l, hclass, hname, rfl⟩
    simp only [className?, text?, hclass, hname]

namespace Parts

variable {p q : Parts}

/-- The entries take just the indices below the count. -/
def Exact (p : Parts) : Prop := Entry.slotCount p.entries + 1 = p.count.toNat

/-- The last entry takes two indices, and only the first one is below the count. -/
def Overhangs (p : Parts) : Prop :=
  ∃ front last, p.entries = front ++ [last] ∧ last.slots = 2 ∧
    Entry.slotCount front + 2 = p.count.toNat

theorem Exact.filled (h : p.Exact) : p.Filled := by
  rw [Exact] at h
  exact ⟨by omega, fill_of_slotCount_eq (by omega)⟩

theorem Overhangs.filled (h : p.Overhangs) : p.Filled := by
  obtain ⟨front, last, hentries, hlast, hfront⟩ := h
  refine ⟨by omega, ?_⟩
  rw [hentries]
  exact fill_append_singleton hlast (by omega)

theorem filled_iff : p.Filled ↔ p.Exact ∨ p.Overhangs := by
  constructor
  · intro h
    have hpos := h.pos
    rcases h.fill.cases with hcount | ⟨front, last, hentries, hlast, hfront⟩
    · left
      rw [Exact]
      omega
    · right
      exact ⟨front, last, hentries, hlast, by omega⟩
  · intro h
    rcases h with hexact | hoverhangs
    · exact hexact.filled
    · exact hoverhangs.filled

def entry? (p : Parts) (index : UInt16) : Option Entry := Entry.at? 1 p.entries index.toNat

/-- The index of the superclass is a class entry that refers to a text. -/
def Names (p : Parts) (text : Text) : Prop :=
  ∃ name literal short, p.entry? p.super = some (.classRef name) ∧
    p.entry? name = some (.utf8 literal short) ∧ literal.text = text

/-- The superclass that is read, which is none unless the index leads to a text. -/
def Reports (p : Parts) : Option Text → Prop
  | some text => p.Names text
  | none => ∀ text, ¬p.Names text

/-- The index of the superclass is not zero and leads to no text. -/
def Dangles (p : Parts) : Prop := p.super ≠ 0 ∧ p.Reports none

theorem constant?_pool (h : p.Filled) (index : UInt16) :
    p.pool.constant? index.toNat = (p.entry? index).map Entry.constant :=
  Entry.constant?_take h.fill.begins index.toNat

theorem className?_pool_iff (h : p.Filled) :
    p.pool.className? p.super.toNat = some text ↔ p.Names text := by
  rw [Pool.className?_eq_some_iff, constant?_pool h]
  constructor
  · rintro ⟨slot, l, hclass, hname, rfl⟩
    obtain ⟨e, he, hconstant⟩ := Option.map_eq_some_iff.1 hclass
    obtain ⟨name, rfl, rfl⟩ := Entry.constant_eq_classRef hconstant
    rw [constant?_pool h] at hname
    obtain ⟨e, he', hconstant⟩ := Option.map_eq_some_iff.1 hname
    obtain ⟨short, rfl⟩ := Entry.constant_eq_utf8 hconstant
    exact ⟨name, l, short, he, he', rfl⟩
  · rintro ⟨name, l, short, hclass, hname, rfl⟩
    refine ⟨name.toNat, l, ?_, ?_, rfl⟩
    · rw [hclass]
      rfl
    · rw [constant?_pool h, hname]
      rfl

theorem reports_iff (h : p.Filled) :
    p.Reports superclass ↔ p.pool.className? p.super.toNat = superclass := by
  cases superclass with
  | some text => exact (className?_pool_iff h).symm
  | none =>
    rw [Option.eq_none_iff_forall_ne_some]
    exact forall_congr' fun text => not_congr (className?_pool_iff h).symm

theorem super_ne_zero_of_names (h : p.Names text) : p.super ≠ 0 := by
  obtain ⟨name, l, short, hclass, _⟩ := h
  intro hzero
  rw [hzero, entry?, Entry.at?_of_lt (by decide)] at hclass
  cases hclass

theorem super_lt_of_names (hfilled : p.Filled) (h : p.Names text) :
    p.super.toNat < p.count.toNat := by
  obtain ⟨name, l, short, hclass, _⟩ := h
  have hslot := constant?_pool hfilled p.super
  rw [hclass] at hslot
  have hlt := Pool.lt_of_constant? hslot
  have hpos := hfilled.pos
  rw [pool, List.length_take] at hlt
  omega

theorem super_lt_of_not_dangles (hfilled : p.Filled) (h : ¬p.Dangles) :
    p.super.toNat < p.count.toNat := by
  by_cases hzero : p.super = 0
  · rw [hzero]
    exact hfilled.pos
  · apply Nat.lt_of_not_le
    intro houtside
    apply h
    refine ⟨hzero, ?_⟩
    intro text hnames
    exact Nat.not_lt_of_le houtside (super_lt_of_names hfilled hnames)

theorem readHeader_iff (h : p.Filled) : readHeader (p.encode ++ trailing) = .ok header ↔
    p.super.toNat < p.count.toNat ∧ header.flags = p.flags.toNat ∧
      p.Reports header.superclass := by
  have hpos := h.pos
  rw [readHeader_parts h, superclassAt, reports_iff h]
  split
  · next houtside =>
    constructor
    · intro hread
      cases hread
    · rintro ⟨hinside, _⟩
      omega
  · next hinside =>
    constructor
    · intro hread
      cases hread
      exact ⟨by omega, rfl, rfl⟩
    · rintro ⟨_, hflags, hsuperclass⟩
      obtain ⟨flags, superclass⟩ := header
      cases hflags
      cases hsuperclass
      rfl

end Parts

/-- The accepted files, those outside of the format among them, and what is read of them. -/
theorem readHeader_eq_ok_iff : readHeader data = .ok header ↔
    ∃ (p : Parts) (trailing : Bytes), data = p.encode ++ trailing ∧ (p.Exact ∨ p.Overhangs) ∧
      p.super.toNat < p.count.toNat ∧ header.flags = p.flags.toNat ∧
      p.Reports header.superclass := by
  constructor
  · intro h
    rcases readHeader_cases data with ⟨p, trailing, hfilled, rfl⟩ | hbad | ⟨fault, hrefused⟩
    · exact ⟨p, trailing, rfl, Parts.filled_iff.1 hfilled, (Parts.readHeader_iff hfilled).1 h⟩
    · rw [readHeader_of_hasBadText hbad] at h
      cases h
    · rw [hrefused] at h
      cases h
  · rintro ⟨p, trailing, rfl, hfilled, hread⟩
    exact (Parts.readHeader_iff (Parts.filled_iff.2 hfilled)).2 hread

/-! ## The parts of a file are determined -/

theorem bytesOfU16_inj {m n : UInt16} (h : bytesOfU16 m.toNat = bytesOfU16 n.toNat) : m = n := by
  apply UInt16.toNat_inj.1
  rw [← bigEndian_bytesOfU16 m.toNat_lt, h, bigEndian_bytesOfU16 n.toNat_lt]

theorem constants_unique {entries' : List Entry} {rest rest' : Bytes} (hfill : Fill n entries)
    (hfill' : Fill n entries')
    (h : entries.flatMap Entry.encode ++ rest = entries'.flatMap Entry.encode ++ rest') :
    entries.map Entry.constant = entries'.map Entry.constant ∧ rest = rest' := by
  have hread : readSlots n ⟨0, entries.flatMap Entry.encode ++ rest⟩ =
      .ok ((slotsOf (entries.map Entry.constant)).take n,
        ⟨0 + (entries.flatMap Entry.encode).length, rest⟩) := readSlots_of_fill hfill
  -- the reader reads the other entries from the same bytes
  rw [h, readSlots_of_fill hfill'] at hread
  simp only [Except.ok.injEq, Prod.mk.injEq, Cursor.mk.injEq] at hread
  obtain ⟨hslots, _, hrest⟩ := hread
  have hconstants := congrArg (List.filterMap Slot.constant?) hslots
  rw [filterMap_slotsOf hfill.begins, filterMap_slotsOf hfill'.begins] at hconstants
  exact ⟨hconstants.symm, hrest.symm⟩

namespace Parts

variable {p q : Parts}

/-- Two accounts of the parts of a file agree on all that the reader makes of them. -/
theorem unique {trailing' : Bytes} (hp : p.Filled) (hq : q.Filled)
    (h : p.encode ++ trailing = q.encode ++ trailing') :
    p.count = q.count ∧ p.entries.map Entry.constant = q.entries.map Entry.constant ∧
      p.super = q.super := by
  simp only [encode, openingBytes, List.append_assoc] at h
  obtain ⟨_, h⟩ := List.append_inj h rfl
  obtain ⟨_, h⟩ := List.append_inj h rfl
  obtain ⟨_, h⟩ := List.append_inj h rfl
  obtain ⟨hcount, h⟩ := List.append_inj h rfl
  have hcount := bytesOfU16_inj hcount
  obtain ⟨hconstants, h⟩ := constants_unique (hcount ▸ hp.fill) hq.fill h
  obtain ⟨_, h⟩ := List.append_inj h rfl
  obtain ⟨_, h⟩ := List.append_inj h rfl
  obtain ⟨hsuper, _⟩ := List.append_inj h rfl
  exact ⟨hcount, hconstants, bytesOfU16_inj hsuper⟩

theorem not_exact_of_overhangs (h : p.Overhangs) : ¬p.Exact := by
  obtain ⟨front, last, hentries, hlast, hfront⟩ := h
  rw [Exact, hentries, Entry.slotCount_append_singleton]
  omega

theorem not_lax_of_exact {trailing' : Bytes} (hp : p.Exact)
    (h : p.encode ++ trailing = q.encode ++ trailing') :
    ¬q.Overhangs ∧ (q.Exact → q.Dangles → p.Dangles) := by
  constructor
  · intro hoverhangs
    obtain ⟨hcount, hconstants, _⟩ := unique hp.filled hoverhangs.filled h
    apply not_exact_of_overhangs hoverhangs
    rw [Exact, ← hcount, ← Entry.length_slotsOf, ← hconstants, Entry.length_slotsOf]
    exact hp
  · intro hexact hdangles
    obtain ⟨hcount, hconstants, hsuper⟩ := unique hp.filled hexact.filled h
    refine ⟨hsuper ▸ hdangles.1, ?_⟩
    have hreports := hdangles.2
    rw [reports_iff hexact.filled, pool, ← hconstants, ← hcount, ← hsuper] at hreports
    exact (reports_iff hp.filled).2 hreports

end Parts

/-! ## Accepted and in the format -/

/-- Bytes begin with a class file in the format that has the header. -/
def WellFormed (data : Bytes) (header : Header) : Prop :=
  ∃ (o : Opening) (trailing : Bytes), data = o.encode ++ trailing ∧
    header.flags = o.flags.toNat ∧ o.Extends header.superclass

/-- Bytes begin like a class file, but the last entry of the pool has an index too many, or the
index of the superclass is not zero and leads to no text. -/
def Lax (data : Bytes) : Prop :=
  ∃ (p : Parts) (trailing : Bytes), data = p.encode ++ trailing ∧
    (p.Overhangs ∨ p.Exact ∧ p.Dangles)

namespace Opening

def parts (o : Opening) : Parts where
  minor := o.minor
  major := o.major
  count := UInt16.ofNat (Entry.slotCount o.entries + 1)
  entries := o.entries
  flags := o.flags
  self := o.self
  super := o.super

theorem exact_parts (o : Opening) : o.parts.Exact := by
  have hfits := o.fits
  rw [Parts.Exact, parts, UInt16.toNat_ofNat_of_lt' (by simp only [UInt16.size]; omega)]

theorem encode_parts (o : Opening) : o.parts.encode = o.encode := by
  have hcount := o.exact_parts
  rw [Parts.Exact] at hcount
  rw [Parts.encode, openingBytes, ← hcount]
  rfl

theorem exists_of_exact {p : Parts} (h : p.Exact) : ∃ o : Opening, o.parts = p := by
  have hlt := p.count.toNat_lt
  rw [Parts.Exact] at h
  refine ⟨⟨p.minor, p.major, p.entries, p.flags, p.self, p.super, by omega⟩, ?_⟩
  rw [parts]
  simp only [h, UInt16.ofNat_toNat]

theorem extends_iff (o : Opening) :
    o.Extends superclass ↔ o.parts.Reports superclass ∧ ¬o.parts.Dangles := by
  constructor
  · intro h
    cases h with
    | nothing hzero =>
      refine ⟨?_, fun hdangles => hdangles.1 hzero⟩
      intro text hnames
      exact Parts.super_ne_zero_of_names hnames hzero
    | named hclass hname =>
      have hnames : o.parts.Names _ := ⟨_, _, _, hclass, hname, rfl⟩
      exact ⟨hnames, fun hdangles => hdangles.2 _ hnames⟩
  · rintro ⟨hreports, hdangles⟩
    cases superclass with
    | none =>
      by_cases hzero : o.super = 0
      · exact .nothing hzero
      · exact absurd ⟨hzero, hreports⟩ hdangles
    | some text =>
      obtain ⟨name, l, short, hclass, hname, rfl⟩ := hreports
      exact .named hclass hname

end Opening

theorem readHeader_of_wellFormed (h : WellFormed data header) : readHeader data = .ok header := by
  obtain ⟨o, trailing, rfl, hflags, hextends⟩ := h
  have hfilled := o.exact_parts.filled
  obtain ⟨hreports, hdangles⟩ := o.extends_iff.1 hextends
  rw [← o.encode_parts]
  apply (Parts.readHeader_iff hfilled).2
  exact ⟨Parts.super_lt_of_not_dangles hfilled hdangles, hflags, hreports⟩

theorem not_lax_of_wellFormed (h : WellFormed data header) : ¬Lax data := by
  obtain ⟨o, trailing, rfl, _, hextends⟩ := h
  rintro ⟨p, trailing', hsame, hlax⟩
  rw [← o.encode_parts] at hsame
  obtain ⟨hfits, hleads⟩ := Parts.not_lax_of_exact o.exact_parts hsame
  rcases hlax with hoverhangs | ⟨hexact, hdangles⟩
  · exact hfits hoverhangs
  · exact (o.extends_iff.1 hextends).2 (hleads hexact hdangles)

/-- The class files in the format are the accepted files that are not lax. -/
theorem wellFormed_iff :
    WellFormed data header ↔ readHeader data = .ok header ∧ ¬Lax data := by
  constructor
  · intro h
    exact ⟨readHeader_of_wellFormed h, not_lax_of_wellFormed h⟩
  · rintro ⟨hread, hlax⟩
    obtain ⟨p, trailing, rfl, hfilled, _, hflags, hreports⟩ := readHeader_eq_ok_iff.1 hread
    have hexact : p.Exact := by
      apply hfilled.resolve_right
      intro hoverhangs
      exact hlax ⟨p, trailing, rfl, .inl hoverhangs⟩
    obtain ⟨o, rfl⟩ := Opening.exists_of_exact hexact
    refine ⟨o, trailing, by rw [o.encode_parts], hflags, ?_⟩
    apply o.extends_iff.2
    refine ⟨hreports, ?_⟩
    intro hdangles
    exact hlax ⟨o.parts, trailing, rfl, .inr ⟨hexact, hdangles⟩⟩

/-- A pool of one index with an entry that takes two. -/
def overhangingParts : Parts where
  minor := 0
  major := 52
  count := 2
  entries := [.long 0]
  flags := 0x21
  self := 0
  super := 0

/-- The index of the superclass is that of a text. -/
def danglingParts : Parts where
  minor := 0
  major := 52
  count := 2
  entries := [.utf8 ⟨[0x41], "A", rfl⟩ (by decide)]
  flags := 0x21
  self := 0
  super := 1

theorem readHeader_accepts_lax :
    (readHeader overhangingParts.encode = .ok ⟨0x21, none⟩ ∧
      ¬WellFormed overhangingParts.encode ⟨0x21, none⟩) ∧
    readHeader danglingParts.encode = .ok ⟨0x21, none⟩ ∧
      ¬WellFormed danglingParts.encode ⟨0x21, none⟩ := by
  have hoverhangs : overhangingParts.Overhangs := ⟨[], .long 0, rfl, rfl, rfl⟩
  have hdangles : danglingParts.Dangles := by
    refine ⟨by decide, ?_⟩
    rintro text ⟨name, l, short, hclass, _⟩
    cases hclass
  refine ⟨⟨by cbv, fun h => ?_⟩, by cbv, fun h => ?_⟩
  · apply not_lax_of_wellFormed h
    exact ⟨overhangingParts, [], (List.append_nil _).symm, .inl hoverhangs⟩
  · apply not_lax_of_wellFormed h
    exact ⟨danglingParts, [], (List.append_nil _).symm, .inr ⟨rfl, hdangles⟩⟩

end SubclassIndex.ClassFile
