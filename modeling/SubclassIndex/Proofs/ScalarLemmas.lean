import SubclassIndex.ClassName
import SubclassIndex.Proofs.TextLemmas
import SubclassIndex.Proofs.Utf8Exact

/-!
# Scalar texts

A text can be written in UTF-8 exactly if no surrogate is among its code points
(`Text.encode?_eq_none_iff`). Texts that are put together of scalar ones are scalar, and so is what
the lossy decoder reads from any bytes (`Text.IsScalar.decodeLossy`).
-/

namespace SubclassIndex

/-- No code point is a surrogate. -/
def Text.IsScalar (t : Text) : Prop := ∀ c ∈ t, c.isSurrogate = false

instance (t : Text) : Decidable t.IsScalar :=
  inferInstanceAs (Decidable (∀ c ∈ t, c.isSurrogate = false))

namespace Text

variable {t t' : Text} {ts : List Text} {separator : Text} {bytes : Bytes}

theorem isScalar_append : IsScalar (t ++ t') ↔ t.IsScalar ∧ t'.IsScalar := List.forall_mem_append

theorem IsScalar.subset (h : t.IsScalar) (hsub : t' ⊆ t) : t'.IsScalar := fun c hc => h c (hsub hc)

theorem isScalar_flatMap {α : Type} {f : α → Text} {items : List α} :
    IsScalar (items.flatMap f) ↔ ∀ a ∈ items, (f a).IsScalar := by
  simp only [IsScalar, List.mem_flatMap]
  exact ⟨fun h a ha c hc => h c ⟨a, ha, hc⟩, fun h c ⟨a, ha, hc⟩ => h a ha c hc⟩

theorem subset_join (h : t ∈ ts) : t ⊆ join separator ts := by
  induction ts with
  | nil => cases h
  | cons t₀ ts ih =>
    by_cases hts : ts = []
    · subst hts
      rw [join_singleton, List.mem_singleton.1 h]
      exact List.Subset.refl _
    · rw [join_cons hts]
      rcases List.mem_cons.1 h with rfl | h
      · exact fun c hc => List.mem_append_left _ (List.mem_append_left _ hc)
      · exact fun c hc => List.mem_append_right _ (ih h hc)

theorem isScalar_join (hs : separator.IsScalar) :
    IsScalar (join separator ts) ↔ ∀ t ∈ ts, t.IsScalar := by
  refine ⟨fun h t ht => h.subset (subset_join ht), fun h c hc => ?_⟩
  rcases mem_join hc with hc | ⟨t, ht, hc⟩
  · exact hs c hc
  · exact h t ht c hc

theorem isScalar_replacePoint {old new : CodePoint} (hold : old.isSurrogate = false)
    (hnew : new.isSurrogate = false) : (t.replacePoint old new).IsScalar ↔ t.IsScalar := by
  refine ⟨fun h c hc => ?_, fun h c hc => ?_⟩
  · by_cases heq : c = old
    · rw [heq, hold]
    · exact h c (List.mem_map.2 ⟨c, hc, if_neg heq⟩)
  · rcases mem_replacePoint hc with hc | rfl
    · exact h c hc
    · exact hnew

theorem isScalar_dotted : (ClassName.dotted t).IsScalar ↔ t.IsScalar :=
  isScalar_replacePoint (by decide) (by decide)

theorem isScalar_internal : (ClassName.internal t).IsScalar ↔ t.IsScalar :=
  isScalar_replacePoint (by decide) (by decide)

theorem encode?_eq_none_iff : Utf8.encode? t = none ↔ ¬t.IsScalar := by
  unfold Utf8.encode? IsScalar
  simp

end Text

/-! ## The lossy decoder -/

namespace Utf8

variable {s : State} {front : Bytes}

/-- The code points read so far are no surrogates, and the sequence in progress will give none. -/
structure State.IsScalar (s : State) : Prop where
  holds : ∃ front, s.Holds .scalars front
  pieces : ∀ c, some c ∈ s.pieces → c.isSurrogate = false

theorem isScalar_begin {pieces : List (Option CodePoint)} (b : UInt8)
    (h : ∀ c, some c ∈ pieces → c.isSurrogate = false) :
    (State.begin .scalars pieces b).IsScalar := by
  unfold State.begin
  split
  · next c hstart =>
    refine ⟨⟨[], rfl⟩, fun c' hc' => ?_⟩
    rcases List.mem_cons.1 hc' with heq | hc'
    · cases heq
      unfold start at hstart
      dsimp only at hstart
      split_ifs at hstart with hsmall
      cases hstart
      exact isSurrogate_eq_false (.inl (by dsimp only; omega))
    · exact h c' hc'
  · next p hstart => exact ⟨⟨[b], begins_of_start hstart⟩, h⟩
  · refine ⟨⟨[], rfl⟩, fun c hc => ?_⟩
    rcases List.mem_cons.1 hc with heq | hc
    · cases heq
    · exact h c hc

theorem isScalar_feed (b : UInt8) (h : s.IsScalar) : (s.feed .scalars b).IsScalar := by
  obtain ⟨sequence, pieces⟩ := s
  obtain ⟨⟨front, hholds⟩, hpieces⟩ := h
  unfold State.feed
  cases sequence with
  | none => exact isScalar_begin b hpieces
  | some p =>
    dsimp only
    split
    · next hrange =>
      obtain ⟨bits, owed, low, high⟩ := p
      change Completes .scalars owed bits low high front at hholds
      obtain _ | _ | owed := owed
      · exact False.elim hholds
      · obtain ⟨c, hc, _, hscalar⟩ := hholds b hrange.1 hrange.2
        refine ⟨⟨[], by simp [State.Holds]⟩, fun c' hc' => ?_⟩
        simp only [Nat.zero_add, Nat.le_refl, if_true, hc, List.mem_cons, Option.some.injEq] at hc'
        rcases hc' with rfl | hc'
        · exact hscalar.resolve_left nofun
        · exact hpieces c' hc'
      · rw [if_neg (by dsimp only; omega)]
        exact ⟨⟨_, hholds b hrange.1 hrange.2⟩, hpieces⟩
    · refine isScalar_begin b fun c hc => ?_
      rcases List.mem_cons.1 hc with heq | hc
      · cases heq
      · exact hpieces c hc

theorem isScalar_foldl (bytes : Bytes) (h : s.IsScalar) :
    (bytes.foldl (State.feed .scalars) s).IsScalar := by
  induction bytes generalizing s with
  | nil => exact h
  | cons b bytes ih => exact ih (isScalar_feed b h)

end Utf8

theorem Text.IsScalar.decodeLossy (bytes : Bytes) : (Utf8.decodeLossy bytes).IsScalar := by
  have hs : Utf8.State.IsScalar {} := ⟨⟨[], rfl⟩, fun _ hc => nomatch hc⟩
  have hpieces := (Utf8.isScalar_foldl bytes hs).pieces
  intro c hc
  obtain ⟨piece, hmem, rfl⟩ := List.mem_map.1 hc
  cases piece with
  | none => decide
  | some c =>
    refine hpieces c ?_
    rw [Utf8.pieces, Utf8.State.finish] at hmem
    split at hmem <;> simpa using hmem

end SubclassIndex
