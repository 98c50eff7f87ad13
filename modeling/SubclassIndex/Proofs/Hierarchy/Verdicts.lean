import SubclassIndex.Proofs.Hierarchy.ChainLemmas
import SubclassIndex.Proofs.NameSetLemmas

/-!
# Verdicts about descent

A climb records one verdict for all classes that it passes. The verdict is right for each of them
because they all lead to the same superclass (`linked_of_mem_climb`); what can be wrong is only the
verdict of a climb that gave up. Where no chain is too long for a climb, the recorded verdicts stay
exact through any sequence of questions (`Verdicts.Exact.isDescendant`), and so the descendants
that are found are the linked classes, in whatever order a store holds them
(`mem_descendants_iff`). A chain of 258 classes that is asked about from its far end shows that the
bound is needed.
-/

namespace SubclassIndex

/-- Every recorded verdict is right. -/
def Verdicts.Exact (s : HeaderStore) (base : Text) (memo : Verdicts) : Prop :=
  ∀ name verdict, memo.get? name = some verdict → (verdict = true ↔ Linked s base name)

variable {s s' : HeaderStore} {base name : Text} {memo : Verdicts} {superclass : Option Text}
  {budget between : Nat} {passed : List Text}

theorem Verdicts.exact_empty : Verdicts.Exact s base ∅ :=
  fun name _ h => by rw [show (∅ : Verdicts).get? name = none from rfl] at h; cases h

/-! ## One climb -/

/-- Whether the base is reached is the same from each class that a climb passes. -/
theorem linked_of_mem_climb (h : name ∈ (climb s base memo budget superclass passed).1) :
    name ∈ passed ∨ (Linked s base name ↔ Reaches s base superclass) := by
  fun_induction climb s base memo budget superclass passed with
  | case1 | case2 | case3 | case4 | case5 | case6 => exact .inl (List.mem_reverse.1 h)
  | case7 budget parent passed hb ho _ header hc ih =>
    -- the parent reaches the base exactly if its own superclass does
    have hparent : Reaches s base (some parent) ↔ Reaches s base header.superclass :=
      (reaches_iff_linked hb ho).trans (linked_iff hc)
    rcases ih h with h | h
    · rcases List.mem_cons.1 h with rfl | h
      · exact .inr (reaches_iff_linked hb ho).symm
      · exact .inl h
    · exact .inr (h.trans hparent.symm)

/-- A climb that succeeds has reached the base. -/
theorem reaches_of_climb (hm : ∀ name, memo.get? name = some true → Linked s base name)
    (h : (climb s base memo budget superclass passed).2 = true) : Reaches s base superclass := by
  fun_induction climb s base memo budget superclass passed with
  | case1 | case2 | case4 | case6 => cases h
  | case3 => exact ⟨0, rfl⟩
  | case5 _ parent _ hb ho verdict hv =>
    rw [show verdict = true from h] at hv
    exact (reaches_iff_linked hb ho).2 (hm parent hv)
  | case7 _ parent _ hb ho _ header hc ih =>
    exact (reaches_iff_linked hb ho).2 ((linked_iff hc).2 (ih h))

/-- A climb succeeds where its budget exceeds the number of classes in between. -/
theorem climb_of_leads (hm : ∀ name, memo.get? name = some false → ¬Linked s base name)
    (h : Leads s base between superclass) (hk : between < budget) :
    (climb s base memo budget superclass passed).2 = true := by
  fun_induction climb s base memo budget superclass passed generalizing between with
  | case1 => exact h.ne_none.elim
  | case2 => exact absurd hk (Nat.not_lt_zero _)
  | case3 => rfl
  | case4 _ _ hb =>
    obtain ⟨ho, _⟩ := h.chain hb
    exact absurd rfl ho
  | case5 _ parent _ hb ho verdict hv =>
    obtain ⟨_, rest, _, hc⟩ := h.chain hb
    cases verdict with
    | true => rfl
    | false => exact absurd ⟨rest, hc⟩ (hm parent hv)
  | case6 _ parent _ hb ho _ hn =>
    obtain ⟨_, rest, _, hc⟩ := h.chain hb
    exact absurd ⟨rest, hc⟩ (not_linked_of_concrete?_eq_none hn)
  | case7 budget parent _ hb ho _ header hc ih =>
    obtain ⟨_, rest, rfl, hchain⟩ := h.chain hb
    obtain ⟨_, hc', hleads⟩ := chain_iff.1 hchain
    cases hc.symm.trans hc'
    exact ih hleads (Nat.lt_of_succ_lt_succ hk)

/-! ## One question -/

theorem Verdicts.get?_settle (memo : Verdicts) (names : List Text) (verdict : Bool) (name : Text) :
    (memo.settle names verdict).get? name =
      (memo.get? name).or (if name ∈ names then some verdict else none) := by
  rw [settle, Table.get?_foldl_insertNew (fun name => name) fun _ => verdict]
  congr 1
  induction names with
  | nil => rfl
  | cons n names ih =>
    by_cases h : n = name
    · simp [Table.lookup, h]
    · simpa [Table.lookup, h, Ne.symm h] using ih

/-- What a question can come to: a recorded verdict, a class that is not concrete, or a climb. -/
theorem isDescendant_cases (s : HeaderStore) (base name : Text) (memo : Verdicts) :
    (∃ verdict, memo.get? name = some verdict ∧
      isDescendant s base name memo = (verdict, memo)) ∨
    (memo.get? name = none ∧ s.concrete? name = none ∧
      isDescendant s base name memo = (false, memo.insert name false)) ∨
    ∃ header passed verdict, memo.get? name = none ∧ s.concrete? name = some header ∧
      climb s base memo (maxBetween + 1) header.superclass [name] = (passed, verdict) ∧
      isDescendant s base name memo = (verdict, memo.settle passed verdict) := by
  unfold isDescendant
  cases hm : memo.get? name with
  | some verdict => exact .inl ⟨verdict, rfl, rfl⟩
  | none =>
    cases hc : s.concrete? name with
    | none => exact .inr (.inl ⟨rfl, rfl, rfl⟩)
    | some header => exact .inr (.inr ⟨header, _, _, rfl, rfl, rfl, rfl⟩)

theorem isDescendant_of_recorded {verdict : Bool} (h : memo.get? name = some verdict) :
    isDescendant s base name memo = (verdict, memo) := by
  simp only [isDescendant, h]

/-- What is recorded after a question was recorded before, or is the verdict of the question about a
class that is linked exactly if the one in question is. -/
theorem Verdicts.get?_isDescendant {n : Text} {verdict : Bool}
    (h : (isDescendant s base name memo).2.get? n = some verdict) :
    memo.get? n = some verdict ∨
      verdict = (isDescendant s base name memo).1 ∧ (Linked s base n ↔ Linked s base name) := by
  rcases isDescendant_cases s base name memo with
    ⟨_, _, heq⟩ | ⟨_, _, heq⟩ | ⟨header, passed, v, _, hc, hclimb, heq⟩
  · rw [heq] at h
    exact .inl h
  · rw [heq, Table.get?_insert] at h
    split at h
    · next hname =>
      cases h
      exact .inr ⟨by rw [heq], by rw [hname]⟩
    · exact .inl h
  · rw [heq, get?_settle] at h
    cases hn : memo.get? n with
    | some w =>
      rw [hn, Option.some_or] at h
      exact .inl h
    | none =>
      rw [hn, Option.none_or] at h
      split at h
      · next hmem =>
        cases h
        refine .inr ⟨by rw [heq], ?_⟩
        -- the superclass of the class in question is where the climb began
        have hpassed : n ∈ (climb s base memo (maxBetween + 1) header.superclass [name]).1 := by
          rwa [hclimb]
        rcases linked_of_mem_climb hpassed with hself | hlinked
        · rw [List.mem_singleton.1 hself]
        · exact hlinked.trans (linked_iff hc).symm
      · cases h

/-- Where no chain is too long, a question is answered rightly and leaves right verdicts behind. -/
theorem Verdicts.Exact.isDescendant (hs : Shallow s base) (hm : memo.Exact s base)
    (name : Text) :
    ((isDescendant s base name memo).1 = true ↔ Linked s base name) ∧
      (isDescendant s base name memo).2.Exact s base := by
  have hanswer : (SubclassIndex.isDescendant s base name memo).1 = true ↔ Linked s base name := by
    rcases isDescendant_cases s base name memo with
      ⟨verdict, hv, heq⟩ | ⟨_, hc, heq⟩ | ⟨header, passed, verdict, _, hc, hclimb, heq⟩
    · rw [heq]
      exact hm name verdict hv
    · rw [heq]
      exact iff_of_false Bool.false_ne_true (not_linked_of_concrete?_eq_none hc)
    · have hverdict : (climb s base memo (maxBetween + 1) header.superclass [name]).2 = verdict := by
        rw [hclimb]
      rw [heq, linked_iff hc, ← hverdict]
      constructor
      · intro hv
        exact reaches_of_climb (fun n hn => (hm n true hn).1 rfl) hv
      · rintro ⟨between, hl⟩
        have hk := hs name between (chain_iff.2 ⟨header, hc, hl⟩)
        exact climb_of_leads (fun n hn hlink => Bool.noConfusion ((hm n false hn).2 hlink)) hl
          (Nat.lt_succ_of_le hk)
  refine ⟨hanswer, ?_⟩
  intro n verdict hn
  rcases Verdicts.get?_isDescendant hn with hrecorded | ⟨rfl, hlinked⟩
  · exact hm n verdict hrecorded
  · exact hanswer.trans hlinked.symm

/-! ## All classes of a store -/

theorem descendantsAmong_cons (found : NameSet) (names : List Text) :
    descendantsAmong s base (name :: names) (found, memo) = descendantsAmong s base names
      (if (isDescendant s base name memo).1 then found.insert name else found,
        (isDescendant s base name memo).2) := rfl

theorem mem_of_mem_descendantsAmong {names : List Text} {found : NameSet}
    (h : name ∈ (descendantsAmong s base names (found, memo)).1) : name ∈ found ∨ name ∈ names := by
  induction names generalizing found memo with
  | nil => exact .inl h
  | cons n names ih =>
    rw [descendantsAmong_cons] at h
    rcases ih h with h | h
    · split at h
      · rcases NameSet.mem_insert.1 h with rfl | h
        · exact .inr List.mem_cons_self
        · exact .inl h
      · exact .inl h
    · exact .inr (List.mem_cons_of_mem _ h)

theorem mem_descendantsAmong (hs : Shallow s base) (names : List Text) (found : NameSet)
    (hm : memo.Exact s base) : name ∈ (descendantsAmong s base names (found, memo)).1 ↔
      name ∈ found ∨ name ∈ names ∧ Linked s base name := by
  induction names generalizing found memo with
  | nil => simp [descendantsAmong]
  | cons n names ih =>
    obtain ⟨hv, hm'⟩ := hm.isDescendant hs n
    rw [descendantsAmong_cons, ih _ hm']
    by_cases hlink : Linked s base n
    · rw [if_pos (hv.2 hlink), NameSet.mem_insert, List.mem_cons]
      constructor
      · rintro ((rfl | h) | h)
        · exact .inr ⟨.inl rfl, hlink⟩
        · exact .inl h
        · exact .inr ⟨.inr h.1, h.2⟩
      · rintro (h | ⟨rfl | h, hl⟩)
        · exact .inl (.inr h)
        · exact .inl (.inl rfl)
        · exact .inr ⟨h, hl⟩
    · rw [if_neg fun h => hlink (hv.1 h), List.mem_cons]
      refine or_congr_right ⟨fun h => ⟨.inr h.1, h.2⟩, ?_⟩
      rintro ⟨rfl | h, hl⟩
      · exact absurd hl hlink
      · exact ⟨h, hl⟩

/-- Where no chain is too long, the descendants are the linked classes. -/
theorem mem_descendants_iff (hs : Shallow s base) :
    name ∈ (descendants s base ∅).1 ↔ Linked s base name := by
  rw [descendants, mem_descendantsAmong hs _ _ Verdicts.exact_empty]
  constructor
  · rintro (h | h)
    · exact absurd h (NameSet.not_mem_empty name)
    · exact h.2
  · exact fun h => .inr ⟨h.mem_concreteNames, h⟩

/-- Where no chain is too long, sharing the verdicts changes nothing: the descendants are the
concrete classes that a question of their own, with nothing recorded, would find. Hence they do not
depend on the order of the store. -/
theorem descendants_eq_fresh (hs : Shallow s base) :
    (∀ name, name ∈ (descendants s base ∅).1 ↔
      name ∈ concreteNames s ∧ (isDescendant s base name ∅).1 = true) ∧
    ∀ s' : HeaderStore, (∀ name, s.header? name = s'.header? name) →
      (descendants s' base ∅).1 = (descendants s base ∅).1 := by
  constructor
  · intro name
    obtain ⟨hv, _⟩ := Verdicts.exact_empty.isDescendant hs name
    rw [mem_descendants_iff hs, hv]
    exact ⟨fun h => ⟨h.mem_concreteNames, h⟩, fun h => h.2⟩
  · intro s' h
    refine NameSet.ext_mem fun name => ?_
    rw [mem_descendants_iff hs, mem_descendants_iff (shallow_congr h hs)]
    exact (linked_congr h).symm

/-! ## A climb that gives up -/

/-- A climb that spends its budget on classes without a verdict passes them all and fails, whatever
lies beyond. -/
theorem climb_of_ascent {names : List Text} (h : Ascent s superclass names)
    (hn : ∀ name ∈ names, name ≠ base ∧ name ≠ ClassName.object ∧ memo.get? name = none) :
    climb s base memo names.length superclass passed = (passed.reverse ++ names, false) := by
  induction h generalizing passed with
  | nil superclass => cases superclass <;> simp [climb]
  | @cons name header names hc _ ih =>
    obtain ⟨hb, ho, hm⟩ := hn name List.mem_cons_self
    rw [List.length_cons, climb, if_neg hb, if_neg ho]
    simp only [hm, hc]
    rw [ih fun n h => hn n (List.mem_cons_of_mem _ h), List.reverse_cons, List.append_assoc,
      List.singleton_append]

/-- A question with nothing recorded finds a chain that is not too long. -/
theorem isDescendant_of_chain (h : Chain s base between name) (hk : between ≤ maxBetween) :
    (isDescendant s base name ∅).1 = true := by
  rcases isDescendant_cases s base name ∅ with
    ⟨_, hv, _⟩ | ⟨_, hc, _⟩ | ⟨header, passed, verdict, _, hc, hclimb, hres⟩
  · cases hv
  · exact absurd ⟨between, h⟩ (not_linked_of_concrete?_eq_none hc)
  · obtain ⟨_, hc', hl⟩ := chain_iff.1 h
    cases hc.symm.trans hc'
    have hv : (climb s base ∅ (maxBetween + 1) header.superclass [name]).2 = true :=
      climb_of_leads (fun _ hn => by cases hn) hl (Nat.lt_succ_of_le hk)
    rw [hclimb] at hv
    rwa [hres]

/-- Questions that are answered by recorded verdicts change nothing. -/
theorem descendantsAmong_of_recorded {names : List Text} {found : NameSet}
    (h : ∀ name ∈ names, memo.get? name = some false) :
    descendantsAmong s base names (found, memo) = (found, memo) := by
  induction names with
  | nil => rfl
  | cons n names ih =>
    have hn : isDescendant s base n memo = (false, memo) :=
      isDescendant_of_recorded (h n List.mem_cons_self)
    rw [descendantsAmong_cons, hn]
    exact ih fun n' h' => h n' (List.mem_cons_of_mem _ h')

/-- If the first class of a store gives up on a climb past all the others, none is found. -/
theorem descendants_eq_empty {first : Text} {rest : List Text} {header : Header}
    (hnames : concreteNames s = first :: rest) (hc : s.concrete? first = some header)
    (h : Ascent s header.superclass rest) (hlen : rest.length = maxBetween + 1)
    (hn : ∀ name ∈ rest, name ≠ base ∧ name ≠ ClassName.object) :
    (descendants s base ∅).1 = ∅ := by
  have hclimb : climb s base ∅ (maxBetween + 1) header.superclass [first] =
      (first :: rest, false) := by
    rw [← hlen]
    exact climb_of_ascent h fun name hmem => ⟨(hn name hmem).1, (hn name hmem).2, rfl⟩
  -- the failed climb settles the verdict of every other class
  have hfirst : isDescendant s base first ∅ =
      (false, Verdicts.settle ∅ (first :: rest) false) := by
    simp only [isDescendant, hc, hclimb]
    rfl
  have hrest : ∀ name ∈ rest,
      (Verdicts.settle ∅ (first :: rest) false).get? name = some false := by
    intro name hmem
    rw [Verdicts.get?_settle, if_pos (List.mem_cons_of_mem _ hmem)]
    rfl
  rw [descendants, hnames, descendantsAmong_cons, hfirst]
  exact congrArg Prod.fst (descendantsAmong_of_recorded hrest)

theorem Text.ofNat_inj {m n : Nat} (h : Text.ofNat m = Text.ofNat n) : m = n := by
  have hd : Nat.toDigits 10 m = Nat.toDigits 10 n :=
    (List.map_inj_right fun _ _ => CodePoint.ofChar_inj.1).1 h
  rw [← Nat.ofDigitChars_ten_toDigits (n := m), hd, Nat.ofDigitChars_ten_toDigits]

theorem Text.ofNat_ne {n : Nat} {t : Text} {c : Char} (hc : CodePoint.ofChar c ∈ t)
    (hd : c.isDigit = false) : Text.ofNat n ≠ t := by
  rintro rfl
  obtain ⟨d, hmem, heq⟩ := List.mem_map.1 hc
  cases CodePoint.ofChar_inj.1 heq
  rw [Nat.isDigit_of_mem_toDigits (by decide) (by decide) hmem] at hd
  cases hd

/-- Two branches below a base beside a cycle. -/
def branchesAndCycle : HeaderStore :=
  .ofSources [⟨"app", [("a/D", ⟨33, some "a/C"⟩), ("a/C", ⟨33, some "a/B"⟩),
    ("a/E", ⟨33, some "a/B"⟩), ("x/X", ⟨33, some "x/Y"⟩), ("x/Y", ⟨33, some "x/X"⟩)]⟩]

theorem descendants_branchesAndCycle : Shallow branchesAndCycle "a/B" ∧
    (∀ name, name ∈ (descendants branchesAndCycle "a/B" ∅).1 ↔
      name ∈ concreteNames branchesAndCycle ∧
        (isDescendant branchesAndCycle "a/B" name ∅).1 = true) ∧
    ∀ s' : HeaderStore, (∀ name, branchesAndCycle.header? name = s'.header? name) →
      (descendants s' "a/B" ∅).1 = (descendants branchesAndCycle "a/B" ∅).1 :=
  have hs : Shallow branchesAndCycle "a/B" := shallow_of_length_le (by decide +kernel)
  ⟨hs, descendants_eq_fresh hs⟩

/-- A chain of 258 classes named by numbers, each the superclass of the one before and the last
one a child of the base, held from its far end. -/
def longChain : HeaderStore where
  entries := (List.range 258).map fun i =>
    (Text.ofNat i, ⟨⟨1, some (if i = 257 then "base" else Text.ofNat (i + 1))⟩, []⟩)
  nodup := by
    rw [List.map_map]
    exact List.Pairwise.map _ (fun _ _ h heq => h (Text.ofNat_inj heq)) List.nodup_range

theorem concrete?_longChain {i : Nat} (hi : i < 258) : longChain.concrete? (Text.ofNat i) =
    some ⟨1, some (if i = 257 then "base" else Text.ofNat (i + 1))⟩ := by
  have hmem : (Text.ofNat i, (⟨⟨1, some (if i = 257 then "base" else Text.ofNat (i + 1))⟩, []⟩ :
      KnownClass)) ∈ longChain.entries := List.mem_map.2 ⟨i, List.mem_range.2 hi, rfl⟩
  refine HeaderStore.concrete?_eq_some.2 ⟨?_, rfl⟩
  rw [HeaderStore.header?, Table.mem_entries_iff.1 hmem]
  rfl

theorem ascent_longChain (n i : Nat) (h : i + n = 258) :
    Ascent longChain (some (Text.ofNat i)) ((List.range' i n).map Text.ofNat) := by
  induction n generalizing i with
  | zero => exact .nil _
  | succ n ih =>
    refine .cons (concrete?_longChain (by omega)) ?_
    by_cases hi : i = 257
    · obtain rfl : n = 0 := by omega
      exact .nil _
    · rw [if_neg hi]
      exact ih (i + 1) (by omega)

theorem chain_longChain (n i : Nat) (h : i + n = 257) :
    Chain longChain "base" n (Text.ofNat i) := by
  induction n generalizing i with
  | zero => exact .direct (concrete?_longChain (by omega)) (by rw [if_pos (by omega)])
  | succ n ih =>
    refine .step (concrete?_longChain (by omega)) (by rw [if_neg (by omega)]) ?_ ?_
      (ih (i + 1) (by omega))
    · exact Text.ofNat_ne (c := 'b') (by decide) rfl
    · exact Text.ofNat_ne (c := 'j') (by decide) rfl

/-- The first question about a chain that is one class too long gives up, and its verdict is
recorded for all classes of the chain: none is found, although each of the others would be on its
own. -/
theorem descendants_longChain : (descendants longChain "base" ∅).1 = ∅ ∧
    ∀ i, 0 < i → i < 258 → Text.ofNat i ∈ concreteNames longChain ∧
      (isDescendant longChain "base" (Text.ofNat i) ∅).1 = true := by
  have hnames : concreteNames longChain =
      Text.ofNat 0 :: (List.range' 1 257).map Text.ofNat := by
    rw [concreteNames, List.filter_eq_self.2 fun e he => by
      obtain ⟨i, _, rfl⟩ := List.mem_map.1 he
      rfl]
    rw [longChain, List.map_map, List.range_eq_range']
    rfl
  constructor
  · refine descendants_eq_empty hnames (concrete?_longChain (by decide))
      (ascent_longChain 257 1 rfl) (by simp [maxBetween]) fun name hmem => ?_
    obtain ⟨i, _, rfl⟩ := List.mem_map.1 hmem
    exact ⟨Text.ofNat_ne (c := 'b') (by decide) rfl, Text.ofNat_ne (c := 'j') (by decide) rfl⟩
  · intro i hpos hi
    have hchain := chain_longChain (257 - i) i (by omega)
    exact ⟨Linked.mem_concreteNames ⟨_, hchain⟩,
      isDescendant_of_chain hchain (by unfold maxBetween; omega)⟩

end SubclassIndex
