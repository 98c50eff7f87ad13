import SubclassIndex.Proofs.Utf8Lemmas

/-!
# What UTF-8 accepts

Bytes are read as a text exactly if they are the bytes of that text (`decode?_eq_some`), so that
reading loses nothing. The bytes that a sequence in progress has taken are completed by whatever it
accepts (`Completes`); the bounds that a first byte sets exclude all that is no code point of the
repertoire (`begins_of_start`).
-/

namespace SubclassIndex.Utf8

variable {r : Repertoire} {c : CodePoint} {t : Text} {bytes : Bytes} {n : Nat}
  {pieces : List (Option CodePoint)} {p : Partial}

/-! ## Code points by their bytes -/

theorem toUInt8_toNat (b : UInt8) : b.toNat.toUInt8 = b := by simp

/-- A number names a code point of the repertoire with some bytes. -/
def Names (r : Repertoire) (n : Nat) (bytes : Bytes) : Prop :=
  ∃ c, CodePoint.ofNat? n = some c ∧ bytesOf c = bytes ∧ (r = .codePoints ∨ c.isSurrogate = false)

theorem isSurrogate_eq_false (h : c.val < 0xD800 ∨ 0xE000 ≤ c.val) : c.isSurrogate = false := by
  simp only [CodePoint.isSurrogate, Bool.and_eq_false_iff, decide_eq_false_iff_not]
  omega

theorem names_two {v : Nat} {x : UInt8} (hv : 2 ≤ v ∧ v < 32)
    (hx : 0x80 ≤ x.toNat ∧ x.toNat ≤ 0xBF) :
    Names r (v * 64 + (x.toNat - 0x80)) [(0xC0 + v).toUInt8, x] := by
  have hlt : v * 64 + (x.toNat - 0x80) < 0x110000 := by omega
  refine ⟨⟨_, hlt⟩, dif_pos hlt, ?_, .inr (isSurrogate_eq_false (by dsimp only; omega))⟩
  have hfront : (v * 64 + (x.toNat - 0x80)) / 64 = v := by omega
  have hlast : 0x80 + (v * 64 + (x.toNat - 0x80)) % 64 = x.toNat := by omega
  unfold bytesOf
  dsimp only
  rw [if_neg (by omega), if_pos (by omega), hfront, Nat.div_one, hlast, toUInt8_toNat]

theorem names_three {v : Nat} {x y : UInt8} (hv : v < 16)
    (hlong : 0x800 ≤ v * 4096 + (x.toNat - 0x80) * 64)
    (hr : r = .codePoints ∨ v ≠ 0xD ∨ x.toNat ≤ 0x9F)
    (hx : 0x80 ≤ x.toNat ∧ x.toNat ≤ 0xBF) (hy : 0x80 ≤ y.toNat ∧ y.toNat ≤ 0xBF) :
    Names r ((v * 64 + (x.toNat - 0x80)) * 64 + (y.toNat - 0x80))
      [(0xE0 + v).toUInt8, x, y] := by
  have hlt : (v * 64 + (x.toNat - 0x80)) * 64 + (y.toNat - 0x80) < 0x110000 := by omega
  generalize hn : (v * 64 + (x.toNat - 0x80)) * 64 + (y.toNat - 0x80) = n at hlt
  refine ⟨⟨_, hlt⟩, dif_pos hlt, ?_, hr.imp_right fun h =>
    isSurrogate_eq_false (by dsimp only; omega)⟩
  have hfront : n / 4096 = v := by omega
  have hmiddle : 0x80 + n / 64 % 64 = x.toNat := by omega
  have hlast : 0x80 + n % 64 = y.toNat := by omega
  unfold bytesOf
  dsimp only
  rw [if_neg (by omega), if_neg (by omega), if_pos (by omega), hfront, hmiddle, Nat.div_one, hlast,
    toUInt8_toNat, toUInt8_toNat]

theorem names_four {v : Nat} {x y z : UInt8}
    (hlong : 0x10000 ≤ v * 262144 + (x.toNat - 0x80) * 4096)
    (hshort : v * 262144 + (x.toNat - 0x80) * 4096 < 0x110000)
    (hx : 0x80 ≤ x.toNat ∧ x.toNat ≤ 0xBF) (hy : 0x80 ≤ y.toNat ∧ y.toNat ≤ 0xBF)
    (hz : 0x80 ≤ z.toNat ∧ z.toNat ≤ 0xBF) :
    Names r (((v * 64 + (x.toNat - 0x80)) * 64 + (y.toNat - 0x80)) * 64 + (z.toNat - 0x80))
      [(0xF0 + v).toUInt8, x, y, z] := by
  have hlt : ((v * 64 + (x.toNat - 0x80)) * 64 + (y.toNat - 0x80)) * 64 + (z.toNat - 0x80) <
      0x110000 := by omega
  generalize hn : ((v * 64 + (x.toNat - 0x80)) * 64 + (y.toNat - 0x80)) * 64 + (z.toNat - 0x80) = n
    at hlt
  refine ⟨⟨_, hlt⟩, dif_pos hlt, ?_, .inr (isSurrogate_eq_false (by dsimp only; omega))⟩
  have hfront : n / 262144 = v := by omega
  have hsecond : 0x80 + n / 4096 % 64 = x.toNat := by omega
  have hthird : 0x80 + n / 64 % 64 = y.toNat := by omega
  have hlast : 0x80 + n % 64 = z.toNat := by omega
  unfold bytesOf
  dsimp only
  rw [if_neg (by omega), if_neg (by omega), if_neg (by omega), hfront, hsecond, hthird,
    Nat.div_one, hlast, toUInt8_toNat, toUInt8_toNat, toUInt8_toNat]

/-! ## Sequences in progress -/

/-- What is still owed to a sequence completes some bytes: whichever bytes are accepted, together
they are the bytes of the code point that is read. -/
def Completes (r : Repertoire) : (owed bits low high : Nat) → (front : Bytes) → Prop
  | 0, _, _, _, _ => False
  | 1, bits, low, high, front => ∀ b : UInt8, low ≤ b.toNat → b.toNat ≤ high →
    Names r (bits * 64 + (b.toNat - 0x80)) (front ++ [b])
  | owed + 2, bits, low, high, front => ∀ b : UInt8, low ≤ b.toNat → b.toNat ≤ high →
    Completes r (owed + 1) (bits * 64 + (b.toNat - 0x80)) 0x80 0xBF (front ++ [b])

/-- A sequence in progress has some bytes so far. -/
def Partial.Begins (r : Repertoire) (p : Partial) (front : Bytes) : Prop :=
  Completes r p.owed p.bits p.low p.high front

theorem begins_of_start {b : UInt8} (h : start r b = .opens p) : p.Begins r [b] := by
  have hb : ∀ n, b.toNat = n → n.toUInt8 = b := by
    rintro _ rfl
    exact toUInt8_toNat b
  have hopens : ∀ q : Partial, Start.opens q = .opens p → q.Begins r [b] → p.Begins r [b] :=
    fun q h hq => Start.opens.inj h ▸ hq
  unfold start at h
  dsimp only at h
  split_ifs at h with h₀ h₁ h₂ h₃ h₄ h₅ h₆ h₇ h₈ <;>
    (refine hopens _ h ?_; unfold Partial.Begins; dsimp only)
  · intro x hx hx'
    have hnames := names_two (r := r) (v := b.toNat - 0xC0) ⟨by omega, by omega⟩ ⟨hx, hx'⟩
    rwa [hb _ (by omega)] at hnames
  · intro x hx hx' y hy hy'
    have hnames := names_three (r := r) (v := 0) (by omega) (by omega) (.inr (.inl (by decide)))
      ⟨by omega, hx'⟩ ⟨hy, hy'⟩
    rwa [hb _ (by omega)] at hnames
  · intro x hx hx' y hy hy'
    have hsecond : x.toNat ≤ 0xBF ∧ (r = .codePoints ∨ x.toNat ≤ 0x9F) := by
      cases r with
      | scalars => exact ⟨Nat.le_trans hx' (by decide), .inr hx'⟩
      | codePoints => exact ⟨hx', .inl rfl⟩
    have hnames := names_three (v := 0xD) (by omega) (by omega) (hsecond.2.imp_right .inr)
      ⟨hx, hsecond.1⟩ ⟨hy, hy'⟩
    rwa [hb _ (by omega)] at hnames
  · intro x hx hx' y hy hy'
    have hnames := names_three (r := r) (v := b.toNat - 0xE0) (by omega) (by omega)
      (.inr (.inl (by omega))) ⟨hx, hx'⟩ ⟨hy, hy'⟩
    rwa [hb _ (by omega)] at hnames
  · intro x hx hx' y hy hy' z hz hz'
    have hnames := names_four (r := r) (v := 0) (by omega) (by omega) ⟨by omega, hx'⟩ ⟨hy, hy'⟩
      ⟨hz, hz'⟩
    rwa [hb _ (by omega)] at hnames
  · intro x hx hx' y hy hy' z hz hz'
    have hnames := names_four (r := r) (v := b.toNat - 0xF0) (by omega) (by omega) ⟨hx, hx'⟩
      ⟨hy, hy'⟩ ⟨hz, hz'⟩
    rwa [hb _ (by omega)] at hnames
  · intro x hx hx' y hy hy' z hz hz'
    have hnames := names_four (r := r) (v := 4) (by omega) (by omega) ⟨hx, by omega⟩ ⟨hy, hy'⟩
      ⟨hz, hz'⟩
    rwa [hb _ (by omega)] at hnames

/-- The bytes that a state has read of the sequence in progress. -/
def State.Holds (r : Repertoire) (s : State) (front : Bytes) : Prop :=
  match s.sequence with
  | none => front = []
  | some p => p.Begins r front

theorem none_mem_begin {b : UInt8} (h : none ∈ pieces) :
    none ∈ (State.begin r pieces b).pieces := by
  unfold State.begin
  split <;> simp [h]

theorem none_mem_finish {s : State} (h : none ∈ s.pieces) :
    none ∈ (bytes.foldl (State.feed r) s).finish := by
  induction bytes generalizing s with
  | nil =>
    rw [List.foldl_nil, State.finish]
    split <;> simp [h]
  | cons b bytes ih =>
    refine ih ?_
    unfold State.feed
    split
    · exact none_mem_begin h
    · split
      · dsimp only
        split <;> simp [h]
      · exact none_mem_begin (List.mem_cons_of_mem _ h)

/-- One more byte belongs to the sequence in progress, or completes it, or it is not decodable. -/
theorem feed_cases {s : State} {front : Bytes} (b : UInt8) (h : s.Holds r front) :
    ((s.feed r b).Holds r (front ++ [b]) ∧ (s.feed r b).pieces = s.pieces) ∨
      (∃ c, s.feed r b = ⟨none, some c :: s.pieces⟩ ∧ bytesOf c = front ++ [b] ∧
        (r = .codePoints ∨ c.isSurrogate = false)) ∨
      none ∈ (s.feed r b).pieces := by
  obtain ⟨sequence, pieces⟩ := s
  cases sequence with
  | none =>
    obtain rfl : front = [] := h
    unfold State.feed State.begin
    dsimp only
    split
    · next c hstart =>
      refine .inr (.inl ⟨c, rfl, ?_⟩)
      unfold start at hstart
      dsimp only at hstart
      split_ifs at hstart with hsmall
      cases hstart
      refine ⟨?_, .inr (isSurrogate_eq_false (by dsimp only; omega))⟩
      unfold bytesOf
      rw [if_pos hsmall, toUInt8_toNat]
      rfl
    · next p hstart => exact .inl ⟨begins_of_start hstart, rfl⟩
    · exact .inr (.inr List.mem_cons_self)
  | some p =>
    change p.Begins r front at h
    unfold State.feed
    dsimp only
    split
    · next hrange =>
      obtain ⟨bits, owed, low, high⟩ := p
      obtain _ | _ | owed := owed
      · exact False.elim h
      · obtain ⟨c, hc, hbytes⟩ := h b hrange.1 hrange.2
        exact .inr (.inl ⟨c, by simp [hc], hbytes⟩)
      · refine .inl ?_
        rw [if_neg (by dsimp only; omega)]
        exact ⟨h b hrange.1 hrange.2, rfl⟩
    · exact .inr (.inr (none_mem_begin List.mem_cons_self))

/-! ## Texts -/

/-- Where every piece is a code point, the bytes read are those of the code points. -/
theorem flatMap_bytesOf_of_finish {s : State} {front : Bytes} (hs : s.Holds r front)
    (h : (bytes.foldl (State.feed r) s).finish = t.map some) :
    ∃ t₀ t₁, s.pieces.reverse = t₀.map some ∧ t = t₀ ++ t₁ ∧ t₁.flatMap bytesOf = front ++ bytes ∧
      ∀ c ∈ t₁, r = .codePoints ∨ c.isSurrogate = false := by
  -- `front` is what has been read of the sequence in progress, and each byte adds to it or ends it
  induction bytes generalizing s front with
  | nil =>
    rw [List.foldl_nil, State.finish] at h
    unfold State.Holds at hs
    split at h
    · next heq =>
      rw [heq] at hs
      subst hs
      exact ⟨t, [], h, by simp, by simp, by simp⟩
    · have hmem : none ∈ t.map some := by simp [← h]
      simp at hmem
  | cons b bytes ih =>
    rw [List.foldl_cons] at h
    obtain ⟨hholds, hpieces⟩ | ⟨c, hfeed, hbytes, hc⟩ | hnone := feed_cases b hs
    · obtain ⟨t₀, t₁, hpieces', ht, hflat, hr⟩ := ih hholds h
      exact ⟨t₀, t₁, hpieces ▸ hpieces', ht, by rw [hflat]; simp, hr⟩
    · rw [hfeed] at h
      have hbetween : State.Holds r ⟨none, some c :: s.pieces⟩ [] := rfl
      obtain ⟨t₀, t₁, hpieces, ht, hflat, hr⟩ := ih hbetween h
      rw [List.reverse_cons] at hpieces
      obtain ⟨t₂, u, rfl, hpieces₂, hu⟩ := List.append_eq_map_iff.1 hpieces
      obtain rfl : u = [c] := by simpa using hu
      refine ⟨t₂, c :: t₁, hpieces₂.symm, by simp [ht], ?_, fun c' hc' => ?_⟩
      · rw [List.flatMap_cons, hbytes, hflat]
        simp
      · rcases List.mem_cons.1 hc' with rfl | hc'
        · exact hc
        · exact hr c' hc'
    · have hmem : none ∈ (bytes.foldl (State.feed r) (s.feed r b)).finish := none_mem_finish hnone
      rw [h] at hmem
      simp at hmem

theorem mapM_id_eq_some {l : List (Option CodePoint)} : l.mapM id = some t ↔ l = t.map some := by
  induction l generalizing t with
  | nil => cases t <;> simp
  | cons o l ih =>
    rw [List.mapM_cons]
    cases o with
    | none => cases t <;> simp
    | some c =>
      simp only [id, Option.bind_eq_bind, Option.bind_some, Option.bind_eq_some_iff,
        Option.pure_def, Option.some.injEq, ih]
      constructor
      · rintro ⟨t, rfl, rfl⟩
        rfl
      · intro h
        cases t with
        | nil => cases h
        | cons c' t =>
          cases h
          exact ⟨t, rfl, rfl⟩

/-- Bytes are read as a text of the repertoire exactly if they are the bytes of that text. -/
theorem decode?_eq_some : decode? r bytes = some t ↔
    (∀ c ∈ t, r = .codePoints ∨ c.isSurrogate = false) ∧ t.flatMap bytesOf = bytes := by
  refine ⟨fun h => ?_, fun ⟨hr, h⟩ => h ▸ decode?_flatMap_bytesOf hr⟩
  have hstart : State.Holds r {} [] := rfl
  obtain ⟨t₀, t₁, h₀, rfl, hflat, hr⟩ := flatMap_bytesOf_of_finish hstart (mapM_id_eq_some.1 h)
  obtain rfl : t₀ = [] := by simpa using h₀
  exact ⟨hr, hflat⟩

end SubclassIndex.Utf8
