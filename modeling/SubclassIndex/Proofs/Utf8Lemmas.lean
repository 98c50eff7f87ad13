import Mathlib.Tactic.SplitIfs
import SubclassIndex.Text.Utf8

/-!
# Reading UTF-8 back

The reader hands out each code point at the last of its bytes (`foldl_feed_bytesOf`), and so a text
that has been written in UTF-8 is read back as it was (`decode?_of_encode?`).
-/

namespace SubclassIndex.Utf8

variable {r : Repertoire} {c : CodePoint} {t : Text} {bytes : Bytes} {n : Nat}
  {pieces : List (Option CodePoint)} {p : Partial}

theorem toNat_toUInt8 (h : n < 256) : n.toUInt8.toNat = n := by
  rw [Nat.toUInt8_eq, UInt8.toNat_ofNat', Nat.mod_eq_of_lt h]

/-! ## First bytes -/

theorem start_whole (h : n < 0x80) : ∃ hn, start r n.toUInt8 = .whole ⟨n, hn⟩ := by
  have hb : n.toUInt8.toNat = n := toNat_toUInt8 (by omega)
  refine ⟨by omega, ?_⟩
  simp only [start, hb, h, dite_true]

theorem start_two (h : 0x80 ≤ n) (h' : n < 0x800) :
    start r (0xC0 + n / 64).toUInt8 = .opens ⟨n / 64, 1, 0x80, 0xBF⟩ := by
  have hb : (0xC0 + n / 64).toUInt8.toNat = 0xC0 + n / 64 := toNat_toUInt8 (by omega)
  simp only [start, hb]
  rw [dif_neg (by omega), if_neg (by omega), if_pos (by omega), Nat.add_sub_cancel_left]

/-- The bounds on the second of three bytes admit every code point but the surrogates, and these too
where the repertoire has them. -/
theorem start_three (h : 0x800 ≤ n) (h' : n < 0x10000)
    (hr : r = .codePoints ∨ n < 0xD800 ∨ 0xE000 ≤ n) :
    ∃ low high, start r (0xE0 + n / 4096).toUInt8 = .opens ⟨n / 4096, 2, low, high⟩ ∧
      low ≤ 0x80 + n / 64 % 64 ∧ 0x80 + n / 64 % 64 ≤ high := by
  have hb : (0xE0 + n / 4096).toUInt8.toNat = 0xE0 + n / 4096 := toNat_toUInt8 (by omega)
  simp only [start, hb]
  rw [dif_neg (by omega), if_neg (by omega), if_neg (by omega)]
  split_ifs with h₀ h₁ h₂
  · have hn : n / 4096 = 0 := by omega
    rw [hn]
    exact ⟨_, _, rfl, by omega, by omega⟩
  · have hn : n / 4096 = 0xD := by omega
    rw [hn]
    refine ⟨_, _, rfl, by omega, ?_⟩
    cases r with
    | codePoints => dsimp only; omega
    | scalars =>
      have hscalar : n < 0xD800 := by
        rcases hr with hr | hr | hr
        · cases hr
        · exact hr
        · omega
      dsimp only
      omega
  · have hn : 0xE0 + n / 4096 - 0xE0 = n / 4096 := by omega
    rw [hn]
    exact ⟨_, _, rfl, by omega, by omega⟩
  all_goals omega

theorem start_four (h : 0x10000 ≤ n) (h' : n < 0x110000) :
    ∃ low high, start r (0xF0 + n / 262144).toUInt8 = .opens ⟨n / 262144, 3, low, high⟩ ∧
      low ≤ 0x80 + n / 4096 % 64 ∧ 0x80 + n / 4096 % 64 ≤ high := by
  have hb : (0xF0 + n / 262144).toUInt8.toNat = 0xF0 + n / 262144 := toNat_toUInt8 (by omega)
  simp only [start, hb]
  rw [dif_neg (by omega), if_neg (by omega), if_neg (by omega), if_neg (by omega),
    if_neg (by omega), if_neg (by omega)]
  split_ifs with h₀ h₁ h₂
  · have hn : n / 262144 = 0 := by omega
    rw [hn]
    exact ⟨_, _, rfl, by omega, by omega⟩
  · have hn : 0xF0 + n / 262144 - 0xF0 = n / 262144 := by omega
    rw [hn]
    exact ⟨_, _, rfl, by omega, by omega⟩
  · have hn : n / 262144 = 4 := by omega
    rw [hn]
    exact ⟨_, _, rfl, by omega, by omega⟩
  · omega

/-! ## One byte -/

theorem feed_whole {b : UInt8} (h : start r b = .whole c) :
    State.feed r ⟨none, pieces⟩ b = ⟨none, some c :: pieces⟩ := by
  simp only [State.feed, State.begin, h]

theorem feed_opens {b : UInt8} (h : start r b = .opens p) :
    State.feed r ⟨none, pieces⟩ b = ⟨some p, pieces⟩ := by
  simp only [State.feed, State.begin, h]

theorem feed_continue (hlow : p.low ≤ 0x80 + n % 64) (hhigh : 0x80 + n % 64 ≤ p.high)
    (howed : 1 < p.owed) : State.feed r ⟨some p, pieces⟩ (0x80 + n % 64).toUInt8 =
      ⟨some ⟨p.bits * 64 + n % 64, p.owed - 1, 0x80, 0xBF⟩, pieces⟩ := by
  have hb : (0x80 + n % 64).toUInt8.toNat = 0x80 + n % 64 := toNat_toUInt8 (by omega)
  have hbits : 0x80 + n % 64 - 0x80 = n % 64 := by omega
  simp only [State.feed, hb, hbits]
  rw [if_pos ⟨hlow, hhigh⟩, if_neg (by omega)]

theorem feed_last (hlow : p.low ≤ 0x80 + n % 64) (hhigh : 0x80 + n % 64 ≤ p.high)
    (howed : p.owed ≤ 1) (hc : p.bits * 64 + n % 64 = c.val) :
    State.feed r ⟨some p, pieces⟩ (0x80 + n % 64).toUInt8 = ⟨none, some c :: pieces⟩ := by
  have hb : (0x80 + n % 64).toUInt8.toNat = 0x80 + n % 64 := toNat_toUInt8 (by omega)
  have hbits : p.bits * 64 + (0x80 + n % 64 - 0x80) = c.val := by omega
  have hpoint : CodePoint.ofNat? c.val = some c := dif_pos c.isLt
  simp only [State.feed, hb, hbits]
  rw [if_pos ⟨hlow, hhigh⟩, if_pos howed, hpoint]

/-! ## Code points and texts -/

/-- Between sequences, the bytes of a code point of the repertoire give that code point. -/
theorem foldl_feed_bytesOf (h : r = .codePoints ∨ c.isSurrogate = false)
    (pieces : List (Option CodePoint)) :
    (bytesOf c).foldl (State.feed r) ⟨none, pieces⟩ = ⟨none, some c :: pieces⟩ := by
  have hlt := c.isLt
  have hr : r = .codePoints ∨ c.val < 0xD800 ∨ 0xE000 ≤ c.val := by
    refine h.imp_right fun h => ?_
    simp only [CodePoint.isSurrogate, Bool.and_eq_false_iff, decide_eq_false_iff_not] at h
    omega
  unfold bytesOf
  dsimp only
  split_ifs with h₁ h₂ h₃
  · obtain ⟨_, hs⟩ := start_whole (r := r) h₁
    rw [List.foldl_cons, feed_whole hs]
    rfl
  · have hs := start_two (r := r) (Nat.le_of_not_lt h₁) h₂
    rw [List.foldl_cons, feed_opens hs, Nat.div_one]
    exact feed_last (by dsimp only; omega) (by dsimp only; omega) (Nat.le_refl 1)
      (by dsimp only; omega)
  · obtain ⟨low, high, hs, hlow, hhigh⟩ := start_three (Nat.le_of_not_lt h₂) h₃ hr
    rw [List.foldl_cons, feed_opens hs, List.foldl_cons,
      feed_continue hlow hhigh (by dsimp only; omega), Nat.div_one]
    exact feed_last (by dsimp only; omega) (by dsimp only; omega) (Nat.le_refl 1)
      (by dsimp only; omega)
  · obtain ⟨low, high, hs, hlow, hhigh⟩ := start_four (r := r) (Nat.le_of_not_lt h₃) hlt
    rw [List.foldl_cons, feed_opens hs, List.foldl_cons,
      feed_continue hlow hhigh (by dsimp only; omega), List.foldl_cons,
      feed_continue (by dsimp only; omega) (by dsimp only; omega) (by dsimp only; omega),
      Nat.div_one]
    exact feed_last (by dsimp only; omega) (by dsimp only; omega) (Nat.le_refl 1)
      (by dsimp only; omega)

theorem foldl_feed_flatMap (h : ∀ c ∈ t, r = .codePoints ∨ c.isSurrogate = false)
    (pieces : List (Option CodePoint)) :
    (t.flatMap bytesOf).foldl (State.feed r) ⟨none, pieces⟩ =
      ⟨none, (t.map some).reverse ++ pieces⟩ := by
  induction t generalizing pieces with
  | nil => rfl
  | cons c t ih =>
    rw [List.flatMap_cons, List.foldl_append, foldl_feed_bytesOf (h c List.mem_cons_self),
      ih fun c' hc' => h c' (List.mem_cons_of_mem _ hc')]
    simp

/-- The bytes of a text of the repertoire are read as that text. -/
theorem decode?_flatMap_bytesOf (h : ∀ c ∈ t, r = .codePoints ∨ c.isSurrogate = false) :
    decode? r (t.flatMap bytesOf) = some t := by
  have hfold := foldl_feed_flatMap h []
  have hpieces : Utf8.pieces r (t.flatMap bytesOf) = t.map some := by
    rw [Utf8.pieces, hfold]
    simp [State.finish]
  have hid : (id ∘ some : CodePoint → Option CodePoint) = fun c => pure (id c) := rfl
  rw [decode?, hpieces, List.mapM_map, hid, List.mapM_pure, List.map_id]
  rfl

theorem encode?_eq_some : encode? t = some bytes ↔
    (∀ c ∈ t, c.isSurrogate = false) ∧ t.flatMap bytesOf = bytes := by
  unfold encode?
  split_ifs with h
  · obtain ⟨c, hc, hs⟩ := List.any_eq_true.1 h
    refine iff_of_false (fun h => by cases h) fun ⟨hall, _⟩ => ?_
    rw [hall c hc] at hs
    cases hs
  · have hall : ∀ c ∈ t, c.isSurrogate = false := fun c hc =>
      Bool.eq_false_iff.2 fun hs => h (List.any_eq_true.2 ⟨c, hc, hs⟩)
    rw [Option.some.injEq]
    exact ⟨fun heq => ⟨hall, heq⟩, And.right⟩

theorem decode?_of_encode? (h : encode? t = some bytes) : decode? .scalars bytes = some t := by
  obtain ⟨hs, rfl⟩ := encode?_eq_some.1 h
  exact decode?_flatMap_bytesOf fun c hc => .inr (hs c hc)

end SubclassIndex.Utf8
