import Mathlib.Data.List.Basic
import Mathlib.Data.List.Induction
import SubclassIndex.ClassName
import SubclassIndex.Disk.Basic
import SubclassIndex.Proofs.TextLemmas
import SubclassIndex.Proofs.Utf8Exact

/-!
# Names and the texts that spell them

Every name on a disk is spelled by its text (`DiskName.ofText?_toText`). Bytes of ASCII come from
ASCII code points alone, so that a name has a slash, is `..` or has the ending of compiled classes
exactly where its text does.
-/

namespace SubclassIndex

namespace DiskName

variable {c : CodePoint} {t t' : Text} {n n' : DiskName} {b : UInt8} {bytes : Bytes}

/-! ## The bytes of a text -/

@[simp] theorem ofText?_nil : ofText? [] = some [] := rfl

theorem ofText?_cons : ofText? (c :: t) = some n ↔
    ∃ front rest, bytesOf? c = some front ∧ ofText? t = some rest ∧ front ++ rest = n := by
  simp only [ofText?, List.mapM_cons, Option.bind_eq_bind, Option.pure_def, Option.map_eq_some_iff,
    Option.bind_eq_some_iff, Option.some.injEq]
  constructor
  · rintro ⟨_, ⟨front, hfront, rest, hrest, rfl⟩, rfl⟩
    exact ⟨front, _, hfront, ⟨rest, hrest, rfl⟩, rfl⟩
  · rintro ⟨front, _, hfront, ⟨rest, hrest, rfl⟩, rfl⟩
    exact ⟨_, ⟨front, hfront, rest, hrest, rfl⟩, rfl⟩

theorem ofText?_append (h : ofText? t = some n) (h' : ofText? t' = some n') :
    ofText? (t ++ t') = some (n ++ n') := by
  induction t generalizing n with
  | nil =>
    cases h
    exact h'
  | cons c t ih =>
    obtain ⟨front, rest, hfront, hrest, rfl⟩ := ofText?_cons.1 h
    exact ofText?_cons.2 ⟨front, rest ++ n', hfront, ih hrest, by simp⟩

theorem exists_of_ofText?_append (h : ofText? (t ++ t') = some bytes) :
    ∃ n n', ofText? t = some n ∧ ofText? t' = some n' ∧ n ++ n' = bytes := by
  induction t generalizing bytes with
  | nil => exact ⟨[], bytes, rfl, h, rfl⟩
  | cons c t ih =>
    obtain ⟨front, _, hfront, hrest, rfl⟩ := ofText?_cons.1 h
    obtain ⟨n, n', hn, hn', rfl⟩ := ih hrest
    exact ⟨front ++ n, n', ofText?_cons.2 ⟨front, n, hfront, hn, rfl⟩, hn', by simp⟩

/-! ## ASCII -/

theorem toNat_lt_limit (b : UInt8) : b.toNat < 0x110000 :=
  Nat.lt_of_lt_of_le b.toNat_lt (by decide)

/-- The code point of a byte of ASCII, or another one below U+0100. -/
def pointOf (b : UInt8) : CodePoint := ⟨b.toNat, toNat_lt_limit b⟩

theorem isSurrogate_pointOf (b : UInt8) : (pointOf b).isSurrogate = false :=
  Utf8.isSurrogate_eq_false (.inl (by have := b.toNat_lt; simp only [pointOf]; omega))

theorem bytesOf_pointOf (h : b.toNat < 0x80) : Utf8.bytesOf (pointOf b) = [b] := by
  unfold Utf8.bytesOf pointOf
  rw [if_pos h, Utf8.toUInt8_toNat]

theorem eq_of_mem_bytesOf (h : b ∈ Utf8.bytesOf c) (hb : b.toNat < 0x80) :
    c = pointOf b ∧ Utf8.bytesOf c = [b] := by
  have hlt := c.isLt
  have hlarge : ∀ n : Nat, 0x80 ≤ n → n < 256 → b ≠ n.toUInt8 := by
    rintro n hn hn' rfl
    rw [Utf8.toNat_toUInt8 hn'] at hb
    omega
  unfold Utf8.bytesOf at h ⊢
  dsimp only at h ⊢
  split_ifs at h ⊢ with h₁ h₂ h₃
  · obtain rfl := List.mem_singleton.1 h
    have hval := Utf8.toNat_toUInt8 (n := c.val) (by omega)
    exact ⟨CodePoint.ext hval.symm, rfl⟩
  · simp only [List.mem_cons, List.not_mem_nil, or_false] at h
    rcases h with h | h <;> exact absurd h (hlarge _ (by omega) (by omega))
  · simp only [List.mem_cons, List.not_mem_nil, or_false] at h
    rcases h with h | h | h <;> exact absurd h (hlarge _ (by omega) (by omega))
  · simp only [List.mem_cons, List.not_mem_nil, or_false] at h
    rcases h with h | h | h | h <;> exact absurd h (hlarge _ (by omega) (by omega))

/-- A byte of ASCII comes from its code point alone. -/
theorem eq_pointOf (h : bytesOf? c = some bytes) (hb : b ∈ bytes) (hascii : b.toNat < 0x80) :
    c = pointOf b ∧ bytes = [b] := by
  unfold bytesOf? at h
  split_ifs at h with hescape hsurrogate
  · cases h
    have hval := Utf8.toNat_toUInt8 (n := c.val - 0xDC00) (by omega)
    rw [List.mem_singleton.1 hb, hval] at hascii
    omega
  · cases h
    exact eq_of_mem_bytesOf hb hascii

theorem bytesOf?_ne_nil (h : bytesOf? c = some bytes) : bytes ≠ [] := by
  unfold bytesOf? Utf8.bytesOf at h
  dsimp only at h
  split_ifs at h <;> cases h <;> exact List.cons_ne_nil _ _

/-- Where the bytes of a text end in ASCII, the text ends in the same. -/
theorem exists_of_ofText?_ascii (h : ofText? t = some (n ++ bytes))
    (hascii : ∀ b ∈ bytes, b.toNat < 0x80) :
    ∃ front, t = front ++ bytes.map pointOf ∧ ofText? front = some n := by
  induction bytes using List.reverseRecOn generalizing t with
  | nil => exact ⟨t, by simp, by simpa using h⟩
  | append_singleton bytes b ih =>
    rcases List.eq_nil_or_concat' t with rfl | ⟨t, c, rfl⟩
    · rw [ofText?_nil] at h
      simp at h
    · obtain ⟨n₁, n₂, hn₁, hn₂, heq⟩ := exists_of_ofText?_append h
      obtain ⟨last, _, hlast, hnil, rfl⟩ := ofText?_cons.1 hn₂
      obtain rfl := Option.some.inj (ofText?_nil.symm.trans hnil)
      rw [List.append_nil, ← List.append_assoc] at heq
      -- the last code point has the last byte, and so no other one
      obtain ⟨last, x, rfl⟩ := (List.eq_nil_or_concat' last).resolve_left (bytesOf?_ne_nil hlast)
      rw [← List.append_assoc] at heq
      obtain ⟨hfront, hx⟩ := List.append_inj' heq rfl
      obtain rfl := List.singleton_inj.1 hx
      obtain ⟨rfl, hone⟩ := eq_pointOf hlast (by simp) (hascii x (by simp))
      obtain rfl : last = [] := by simpa using hone
      rw [List.append_nil] at hfront
      obtain ⟨front, rfl, hn⟩ := ih (hfront ▸ hn₁) fun b hb => hascii b (by simp [hb])
      exact ⟨front, by simp, hn⟩

/-- A byte of ASCII in a name comes from its code point in the text. -/
theorem pointOf_mem (h : ofText? t = some n) (hb : b ∈ n) (hascii : b.toNat < 0x80) :
    pointOf b ∈ t := by
  induction t generalizing n with
  | nil =>
    cases h
    cases hb
  | cons c t ih =>
    obtain ⟨front, rest, hfront, hrest, rfl⟩ := ofText?_cons.1 h
    rcases List.mem_append.1 hb with hb | hb
    · rw [(eq_pointOf hfront hb hascii).1]
      exact List.mem_cons_self
    · exact List.mem_cons_of_mem _ (ih hrest hb)

/-! ## The text of a name -/

theorem firstPoint?_eq_some {width : Nat} (h : firstPoint? bytes = some (c, width)) :
    1 ≤ width ∧ bytesOf? c = some (bytes.take width) := by
  unfold firstPoint? at h
  obtain ⟨width', hmem, hfound⟩ := List.exists_of_findSome?_eq_some h
  split at hfound
  · next c' hdecode =>
    cases hfound
    obtain ⟨hscalar, hbytes⟩ := Utf8.decode?_eq_some.1 hdecode
    have hc := (hscalar c List.mem_cons_self).resolve_left (by decide)
    have hescape : ¬(0xDC80 ≤ c.val ∧ c.val ≤ 0xDCFF) := by
      intro hrange
      simp [CodePoint.isSurrogate] at hc
      omega
    refine ⟨?_, ?_⟩
    · simp only [List.mem_cons, List.not_mem_nil, or_false] at hmem
      omega
    · rw [bytesOf?, if_neg hescape, hc, if_neg Bool.false_ne_true, ← hbytes]
      simp
  · cases hfound

theorem firstPoint?_of_ascii (h : b.toNat < 0x80) (bytes : Bytes) :
    firstPoint? (b :: bytes) = some (pointOf b, 1) := by
  have hdecode : Utf8.decode? .scalars ((b :: bytes).take 1) = some [pointOf b] := by
    refine Utf8.decode?_eq_some.2 ⟨fun c hc => .inr ?_, ?_⟩
    · rw [List.mem_singleton.1 hc]
      exact isSurrogate_pointOf b
    · simpa using bytesOf_pointOf h
  unfold firstPoint?
  rw [List.findSome?_cons, hdecode]

theorem ofText?_go (skip : Nat) (bytes : Bytes) :
    ofText? (toText.go skip bytes) = some (bytes.drop skip) := by
  induction bytes generalizing skip with
  | nil => cases skip <;> rfl
  | cons b bytes ih =>
    cases skip with
    | succ skip => exact ih skip
    | zero =>
      rw [toText.go]
      split
      · next c width hfirst =>
        obtain ⟨hwidth, hbytes⟩ := firstPoint?_eq_some hfirst
        obtain ⟨width, rfl⟩ := Nat.exists_eq_add_of_le' hwidth
        exact ofText?_cons.2
          ⟨_, _, hbytes, ih width, List.take_append_drop (width + 1) (b :: bytes)⟩
      · next hfirst =>
        have hlarge : 0x80 ≤ b.toNat := by
          by_contra hsmall
          rw [firstPoint?_of_ascii (Nat.lt_of_not_le hsmall)] at hfirst
          cases hfirst
        refine ofText?_cons.2 ⟨[b], bytes, ?_, ih 0, rfl⟩
        have hlt := b.toNat_lt
        rw [bytesOf?, if_pos (by simp only [escaped]; omega)]
        simp [escaped]

/-- The text of a name spells it. -/
theorem ofText?_toText (n : DiskName) : ofText? n.toText = some n := ofText?_go 0 n

theorem toText_inj (h : n.toText = n'.toText) : n = n' := by
  have hspelled := ofText?_toText n
  rw [h, ofText?_toText] at hspelled
  exact (Option.some.inj hspelled).symm

/-! ## Proper names -/

/-- A name that an entry of a directory can have. -/
structure IsProper (n : DiskName) : Prop where
  ne_nil : n ≠ []
  length_le : n.length ≤ maxLength
  slash : 0x2F ∉ n
  zero : 0 ∉ n
  ne_dot : n ≠ [0x2E]
  ne_up : n ≠ Disk.upName

instance (n : DiskName) : Decidable n.IsProper :=
  decidable_of_iff (n ≠ [] ∧ n.length ≤ maxLength ∧ 0x2F ∉ n ∧ 0 ∉ n ∧ n ≠ [0x2E] ∧
      n ≠ Disk.upName)
    ⟨fun ⟨h₁, h₂, h₃, h₄, h₅, h₆⟩ => ⟨h₁, h₂, h₃, h₄, h₅, h₆⟩,
      fun ⟨h₁, h₂, h₃, h₄, h₅, h₆⟩ => ⟨h₁, h₂, h₃, h₄, h₅, h₆⟩⟩

theorem text_eq_of_ascii (h : ofText? t = some n) (hascii : ∀ b ∈ n, b.toNat < 0x80) :
    t = n.map pointOf := by
  obtain ⟨front, rfl, hfront⟩ := exists_of_ofText?_ascii (n := []) h hascii
  cases front with
  | nil => rfl
  | cons c front =>
    obtain ⟨first, rest, hfirst, _, hnil⟩ := ofText?_cons.1 hfront
    exact absurd (List.append_eq_nil_iff.1 hnil).1 (bytesOf?_ne_nil hfirst)

theorem isPathPart_iff : isPathPart t = true ↔ t ≠ [] ∧ t ≠ "." ∧ CodePoint.ofChar '/' ∉ t := by
  simp [isPathPart, and_assoc]

/-- The name that a part of a path spells can be that of an entry, unless it leads up, is too long
or has a zero. -/
theorem isProper_of_isPathPart (ht : isPathPart t = true) (h : ofText? t = some n)
    (hup : t ≠ Path.up) (hlen : n.length ≤ maxLength) (hzero : 0 ∉ n) : n.IsProper := by
  obtain ⟨hne, hdot, hslash⟩ := isPathPart_iff.1 ht
  refine ⟨?_, hlen, fun hmem => hslash ?_, hzero, ?_, ?_⟩
  · rintro rfl
    exact hne (text_eq_of_ascii h (by simp))
  · exact pointOf_mem h hmem (by decide)
  · rintro rfl
    exact hdot (text_eq_of_ascii h (by decide +kernel))
  · rintro rfl
    exact hup (text_eq_of_ascii h (by decide +kernel))

theorem isPathPart_toText (h : n.IsProper) : isPathPart n.toText = true := by
  have hspelled := ofText?_toText n
  refine isPathPart_iff.2 ⟨fun hnil => ?_, fun hdot => ?_, fun hslash => ?_⟩
  · rw [hnil] at hspelled
    cases hspelled
    exact h.ne_nil rfl
  · rw [hdot] at hspelled
    exact h.ne_dot (Option.some.inj hspelled).symm
  · obtain ⟨front, rest, heq⟩ := List.append_of_mem hslash
    rw [heq] at hspelled
    obtain ⟨n₁, _, _, hrest, hbytes⟩ := exists_of_ofText?_append hspelled
    obtain ⟨first, n₂, hfirst, _, rfl⟩ := ofText?_cons.1 hrest
    cases hfirst
    exact h.slash (hbytes ▸ by simp [Utf8.bytesOf])

theorem mapM_ofText?_append {ts ts' : List Text} {ns : List DiskName} :
    (ts ++ ts').mapM ofText? = some ns ↔ ∃ ns₁ ns₂, ts.mapM ofText? = some ns₁ ∧
      ts'.mapM ofText? = some ns₂ ∧ ns₁ ++ ns₂ = ns := by
  simp only [List.mapM_append, Option.bind_eq_bind, Option.bind_eq_some_iff, Option.pure_def,
    Option.some.injEq]
  constructor
  · rintro ⟨ns₁, h₁, ns₂, h₂, rfl⟩
    exact ⟨ns₁, ns₂, h₁, h₂, rfl⟩
  · rintro ⟨ns₁, ns₂, h₁, h₂, rfl⟩
    exact ⟨ns₁, h₁, ns₂, h₂, rfl⟩

theorem mapM_ofText?_singleton {ns : List DiskName} :
    [t].mapM ofText? = some ns ↔ ∃ n, ofText? t = some n ∧ [n] = ns := by
  simp [List.mapM_cons, Option.bind_eq_some_iff]

/-- All texts that spell a name have the ending of compiled classes, or none has it. -/
theorem isClassPath_congr (h : ofText? t = some n) (h' : ofText? t' = some n) :
    ClassName.isClassPath t = ClassName.isClassPath t' := by
  have himp : ∀ {u u' : Text}, ofText? u = some n → ofText? u' = some n →
      ClassName.isClassPath u = true → ClassName.isClassPath u' = true := by
    intro u u' hu hu' hclass
    obtain ⟨front, rfl⟩ := List.isSuffixOf_iff_suffix.1 hclass
    obtain ⟨n₁, bytes, _, hbytes, rfl⟩ := exists_of_ofText?_append hu
    have hsuffix : bytes = [0x2E, 0x63, 0x6C, 0x61, 0x73, 0x73] := by
      have hspelled : ofText? ClassName.classSuffix =
          some [0x2E, 0x63, 0x6C, 0x61, 0x73, 0x73] := by decide
      exact Option.some.inj (hbytes.symm.trans hspelled)
    subst hsuffix
    obtain ⟨front', rfl, _⟩ := exists_of_ofText?_ascii hu' (by decide +kernel)
    exact List.isSuffixOf_iff_suffix.2 ⟨front', congrArg (front' ++ ·) (by decide)⟩
  exact Bool.eq_iff_iff.2 ⟨himp h h', himp h' h⟩

end DiskName

end SubclassIndex
