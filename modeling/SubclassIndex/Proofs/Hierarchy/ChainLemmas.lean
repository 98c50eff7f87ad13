import SubclassIndex.Hierarchy.Descent
import SubclassIndex.Proofs.Hierarchy.HeaderStoreLemmas

/-!
# Chains of superclasses

`Leads` is a chain seen from the superclass of its first class, which is where a climb begins.
The number of classes in a chain is determined by the class it starts from (`Chain.unique`), and
only the headers of the store matter to it (`Chain.mono`, `chain_congr`). A base is `Shallow` in a
store where no chain to it is longer than a climb may be.
-/

namespace SubclassIndex

/-- What a superclass has to be for a chain with a number of classes in between to go through
it. -/
def Leads (s : HeaderStore) (base : Text) : Nat → Option Text → Prop
  | 0, superclass => superclass = some base
  | between + 1, superclass => ∃ parent, superclass = some parent ∧ parent ≠ base ∧
      parent ≠ ClassName.object ∧ Chain s base between parent

/-- A superclass that leads to the base, with however many classes in between. -/
def Reaches (s : HeaderStore) (base : Text) (superclass : Option Text) : Prop :=
  ∃ between, Leads s base between superclass

/-- No class needs more classes in between to descend from the base than a climb passes. -/
def Shallow (s : HeaderStore) (base : Text) : Prop :=
  ∀ name between, Chain s base between name → between ≤ maxBetween

/-- Classes that follow one another as superclasses, beginning with a given superclass. -/
inductive Ascent (s : HeaderStore) : Option Text → List Text → Prop
  | nil (superclass : Option Text) : Ascent s superclass []
  | cons {name : Text} {header : Header} {names : List Text} : s.concrete? name = some header →
    Ascent s header.superclass names → Ascent s (some name) (name :: names)

variable {s s' : HeaderStore} {base name parent : Text} {header : Header}
  {superclass : Option Text} {between : Nat}

theorem chain_iff : Chain s base between name ↔
    ∃ header, s.concrete? name = some header ∧ Leads s base between header.superclass := by
  constructor
  · rintro (⟨hc, hs⟩ | ⟨hc, hs, hb, ho, h⟩)
    · exact ⟨_, hc, hs⟩
    · exact ⟨_, hc, _, hs, hb, ho, h⟩
  · rintro ⟨header, hc, h⟩
    cases between with
    | zero => exact .direct hc h
    | succ between =>
      obtain ⟨parent, hs, hb, ho, h⟩ := h
      exact .step hc hs hb ho h

theorem linked_iff (hc : s.concrete? name = some header) :
    Linked s base name ↔ Reaches s base header.superclass := by
  constructor
  · rintro ⟨between, h⟩
    obtain ⟨header', hc', h⟩ := chain_iff.1 h
    cases hc.symm.trans hc'
    exact ⟨between, h⟩
  · rintro ⟨between, h⟩
    exact ⟨between, chain_iff.2 ⟨header, hc, h⟩⟩

theorem not_linked_of_concrete?_eq_none (hc : s.concrete? name = none) : ¬Linked s base name := by
  rintro ⟨between, h⟩
  obtain ⟨header, hc', _⟩ := chain_iff.1 h
  rw [hc] at hc'
  cases hc'

namespace Leads

/-- A superclass that is not the base leads to it only through a chain of its own. -/
theorem chain (hb : parent ≠ base) (h : Leads s base between (some parent)) :
    parent ≠ ClassName.object ∧ ∃ rest, between = rest + 1 ∧ Chain s base rest parent := by
  cases between with
  | zero => exact absurd (Option.some.inj h) hb
  | succ rest =>
    obtain ⟨_, heq, _, ho, h⟩ := h
    cases heq
    exact ⟨ho, rest, rfl, h⟩

theorem ne_none (h : Leads s base between none) : False := by
  cases between with
  | zero => cases h
  | succ between =>
    obtain ⟨_, h, _⟩ := h
    cases h

end Leads

theorem reaches_iff_linked (hb : parent ≠ base) (ho : parent ≠ ClassName.object) :
    Reaches s base (some parent) ↔ Linked s base parent := by
  constructor
  · rintro ⟨between, h⟩
    obtain ⟨_, rest, rfl, hc⟩ := h.chain hb
    exact ⟨rest, hc⟩
  · rintro ⟨between, h⟩
    exact ⟨between + 1, parent, rfl, hb, ho, h⟩

namespace Chain

/-- The class a chain starts from determines how many classes lie in between. -/
theorem unique {between' : Nat} (h : Chain s base between name)
    (h' : Chain s base between' name) : between = between' := by
  induction h generalizing between' with
  | direct hc hs =>
    cases h' with
    | direct => rfl
    | step hc' hs' hb =>
      cases hc.symm.trans hc'
      cases hs.symm.trans hs'
      exact absurd rfl hb
  | step hc hs hb _ _ ih =>
    cases h' with
    | direct hc' hs' =>
      cases hc.symm.trans hc'
      cases hs.symm.trans hs'
      exact absurd rfl hb
    | step hc' hs' _ _ h' =>
      cases hc.symm.trans hc'
      cases hs.symm.trans hs'
      rw [ih h']

/-- A chain stays one where its classes keep their headers. -/
theorem mono (hs : ∀ name header, s.concrete? name = some header →
    s'.concrete? name = some header) (h : Chain s base between name) :
    Chain s' base between name := by
  induction h with
  | direct hc hsup => exact .direct (hs _ _ hc) hsup
  | step hc hsup hb ho _ ih => exact .step (hs _ _ hc) hsup hb ho ih

end Chain

/-- Only the headers of a store matter to its chains, not their order or their origins. -/
theorem chain_congr (h : ∀ name, s.header? name = s'.header? name) :
    Chain s base between name ↔ Chain s' base between name := by
  have hc := HeaderStore.concrete?_congr h
  exact ⟨.mono fun name _ h' => hc name ▸ h', .mono fun name _ h' => (hc name).symm ▸ h'⟩

theorem linked_congr (h : ∀ name, s.header? name = s'.header? name) :
    Linked s base name ↔ Linked s' base name :=
  exists_congr fun _ => chain_congr h

theorem shallow_congr (h : ∀ name, s.header? name = s'.header? name) (hs : Shallow s base) :
    Shallow s' base :=
  fun name between hc => hs name between ((chain_congr h).2 hc)

/-! ## Chains through fewer sources -/

section

variable {sources sources' : List Source} (hagree : HeaderStore.SourcesAgree sources)
  (hsub : sources' ⊆ sources)
include hagree hsub

/-- A chain through the classes of some sources is one through those of more, if all of them
agree. -/
theorem Chain.of_subset (h : Chain (.ofSources sources') base between name) :
    Chain (.ofSources sources) base between name := by
  refine h.mono fun name header hconc => ?_
  obtain ⟨hheader, hconc⟩ := HeaderStore.concrete?_eq_some.1 hconc
  exact HeaderStore.concrete?_eq_some.2
    ⟨HeaderStore.header?_ofSources_of_subset hagree hsub hheader, hconc⟩

theorem Linked.of_subset (h : Linked (.ofSources sources') base name) :
    Linked (.ofSources sources) base name :=
  h.imp fun _ => Chain.of_subset hagree hsub

theorem Shallow.of_subset (h : Shallow (.ofSources sources) base) :
    Shallow (.ofSources sources') base :=
  fun name between hc => h name between (hc.of_subset hagree hsub)

end

/-! ## Concrete classes -/

theorem mem_concreteNames : name ∈ concreteNames s ↔ ∃ header, s.concrete? name = some header := by
  simp only [concreteNames, List.mem_map, List.mem_filter, Prod.exists]
  constructor
  · rintro ⟨_, known, ⟨hmem, hc⟩, rfl⟩
    refine ⟨known.header, HeaderStore.concrete?_eq_some.2 ⟨?_, hc⟩⟩
    rw [HeaderStore.header?, Table.mem_entries_iff.1 hmem]
    rfl
  · rintro ⟨header, h⟩
    obtain ⟨h, hc⟩ := HeaderStore.concrete?_eq_some.1 h
    obtain ⟨known, hget, rfl⟩ := Option.map_eq_some_iff.1 h
    exact ⟨name, known, ⟨Table.mem_entries_iff.2 hget, hc⟩, rfl⟩

theorem Linked.mem_concreteNames (h : Linked s base name) : name ∈ concreteNames s := by
  obtain ⟨between, h⟩ := h
  obtain ⟨header, hc, _⟩ := chain_iff.1 h
  exact SubclassIndex.mem_concreteNames.2 ⟨header, hc⟩

namespace Chain

/-- As many concrete classes as a chain says, and one more, are different from one another. -/
theorem exists_classes (h : Chain s base between name) : ∃ names : List Text,
    names.length = between + 1 ∧ names.Nodup ∧ ∀ n ∈ names, ∃ k ≤ between, Chain s base k n := by
  induction h with
  | @direct name _ hc hs =>
    refine ⟨[name], rfl, by simp, fun n hn => ⟨0, Nat.le_refl 0, ?_⟩⟩
    rw [List.mem_singleton.1 hn]
    exact .direct hc hs
  | @step between name _ _ hc hs hb ho hrest ih =>
    obtain ⟨names, hlen, hd, hnames⟩ := ih
    have hchain : Chain s base (between + 1) name := .step hc hs hb ho hrest
    refine ⟨name :: names, by rw [List.length_cons, hlen], List.nodup_cons.2 ⟨fun hn => ?_, hd⟩,
      fun n hn => ?_⟩
    · obtain ⟨k, hk, h⟩ := hnames name hn
      have := h.unique hchain
      omega
    · rcases List.mem_cons.1 hn with rfl | hn
      · exact ⟨between + 1, Nat.le_refl _, hchain⟩
      · obtain ⟨k, hk, h⟩ := hnames n hn
        exact ⟨k, Nat.le_succ_of_le hk, h⟩

end Chain

/-- Few concrete classes make no long chain. -/
theorem shallow_of_length_le (h : (concreteNames s).length ≤ maxBetween + 1) :
    Shallow s base := by
  intro name between hc
  obtain ⟨names, hlen, hd, hnames⟩ := hc.exists_classes
  have hsub : names ⊆ concreteNames s := fun n hn => by
    obtain ⟨k, _, hk⟩ := hnames n hn
    exact Linked.mem_concreteNames ⟨k, hk⟩
  have := hd.length_le_of_subset hsub
  omega

end SubclassIndex
