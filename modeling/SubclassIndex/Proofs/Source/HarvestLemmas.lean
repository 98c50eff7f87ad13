import SubclassIndex.Source.Failure

/-!
# Harvests

What a source supplies is decided item by item: items that are passed over may be left out
(`Harvest.collect_filter`), items that are read alike supply the same (`Harvest.collect_congr`), and
the first item that cannot be read stops the source (`Harvest.failure_collect`).
-/

namespace SubclassIndex

namespace Harvest

variable {α β κ : Type} {read : α → Except Failure (Option (Text × Header))}
  {read' : β → Except Failure (Option (Text × Header))}

/-- Items that are passed over may be left out. -/
theorem collect_filter_of_mem {p : α → Bool} {items : List α}
    (h : ∀ item ∈ items, p item = false → read item = .ok none) :
    collect read (items.filter p) = collect read items := by
  induction items with
  | nil => rfl
  | cons item items ih =>
    obtain ⟨hitem, hitems⟩ := List.forall_mem_cons.1 h
    cases hp : p item with
    | true =>
      rw [List.filter_cons_of_pos hp]
      simp only [collect, ih hitems]
    | false =>
      rw [List.filter_cons_of_neg (Bool.eq_false_iff.1 hp), ih hitems]
      simp only [collect, hitem hp]

theorem collect_filter {p : α → Bool} (h : ∀ item, p item = false → read item = .ok none)
    (items : List α) : collect read (items.filter p) = collect read items :=
  collect_filter_of_mem fun item _ => h item

/-- Items that agree in all that is read of them supply the same classes and fail alike. -/
theorem collect_congr {key : α → κ} {key' : β → κ} {items : List α} {items' : List β}
    (hread : ∀ a b, key a = key' b → read a = read' b)
    (h : items.map key = items'.map key') : collect read items = collect read' items' := by
  induction items generalizing items' with
  | nil =>
    cases items' with
    | nil => rfl
    | cons b items' => cases h
  | cons a items ih =>
    cases items' with
    | nil => cases h
    | cons b items' =>
      obtain ⟨hkey, hrest⟩ := List.cons_eq_cons.1 h
      simp only [collect, hread a b hkey, ih hrest]

theorem collect_congr_left {read₁ read₂ : α → Except Failure (Option (Text × Header))}
    {items : List α} (h : ∀ item ∈ items, read₁ item = read₂ item) :
    collect read₁ items = collect read₂ items := by
  induction items with
  | nil => rfl
  | cons item items ih =>
    obtain ⟨hitem, hitems⟩ := List.forall_mem_cons.1 h
    simp only [collect, hitem, ih hitems]

theorem exists_first_cons {P Q : α → Prop} {item : α} {items : List α} :
    (∃ front i rest, item :: items = front ++ i :: rest ∧ (∀ j ∈ front, P j) ∧ Q i) ↔
      Q item ∨ P item ∧ ∃ front i rest, items = front ++ i :: rest ∧ (∀ j ∈ front, P j) ∧ Q i := by
  constructor
  · rintro ⟨front, i, rest, hitems, hfront, hi⟩
    cases front with
    | nil =>
      cases hitems
      exact .inl hi
    | cons j front =>
      cases hitems
      obtain ⟨hitem, hfront⟩ := List.forall_mem_cons.1 hfront
      exact .inr ⟨hitem, front, i, rest, rfl, hfront, hi⟩
  · rintro (hitem | ⟨hitem, front, i, rest, rfl, hfront, hi⟩)
    · exact ⟨[], item, items, rfl, List.forall_mem_nil _, hitem⟩
    · exact ⟨item :: front, i, rest, rfl, List.forall_mem_cons.2 ⟨hitem, hfront⟩, hi⟩

theorem failure_collect {items : List α} {e : Failure} : (collect read items).failure = some e ↔
      ∃ front item rest, items = front ++ item :: rest ∧
        (∀ i ∈ front, (read i).isOk = true) ∧ read item = .error e := by
  induction items with
  | nil => simp [collect]
  | cons item items ih =>
    rw [exists_first_cons, ← ih]
    cases hread : read item with
    | error e' =>
      have hfailure : (collect read (item :: items)).failure = some e' := by
        simp only [collect, hread]
      simp [hfailure, Except.isOk, Except.toBool]
    | ok o =>
      have hfailure : (collect read (item :: items)).failure = (collect read items).failure := by
        cases o <;> simp only [collect, hread]
      simp [hfailure, Except.isOk, Except.toBool]

end Harvest

end SubclassIndex
