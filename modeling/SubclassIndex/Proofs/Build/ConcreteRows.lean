import SubclassIndex.Proofs.Build.Collected
import SubclassIndex.Proofs.Build.SmallDisk
import SubclassIndex.Proofs.Hierarchy.Verdicts

/-!
# Concrete rows

The classes that descend from a base are concrete by the climb that finds them. A name that an index
lists is taken as it is, even where a source of higher precedence has a header for it that says
otherwise (`build_listsAbstract`). `build_concrete_iff` says that nothing else can put a name in a
row that is known not to be concrete.
-/

namespace SubclassIndex

/-- Whether a class is concrete as far as a store knows. -/
def HeaderStore.ConcreteIfKnown (s : HeaderStore) (name : Text) : Prop :=
  ∀ header, s.header? name = some header → header.isConcrete = true

variable {s : Settings} {d : Disk} {r : BuildResult} {base name : Text}

theorem exists_header_of_mem_descendants {store : HeaderStore}
    (h : name ∈ (descendants store base ∅).1) :
    ∃ header, store.header? name = some header ∧ header.isConcrete = true := by
  rcases mem_of_mem_descendantsAmong h with h | h
  · exact absurd h (NameSet.not_mem_empty name)
  · obtain ⟨header, hc⟩ := mem_concreteNames.1 h
    exact ⟨header, HeaderStore.concrete?_eq_some.1 hc⟩

/-- A name in a row has a concrete header or is listed for the base by an index that was consulted.
So all rows are concrete as far as is known exactly if all that is listed for a base is. -/
theorem build_concrete_iff [Zip.Library] (h : (build s d).value = .ok (some r)) :
    (∀ base names, r.rows.get? base = some names → ∀ name ∈ names,
      (∃ header, (collectedOn s d).headers.header? name = some header ∧
        header.isConcrete = true) ∨
      ListedAmong s d s.archives s.requestedBases base name) ∧
    ((∀ base names, r.rows.get? base = some names → ∀ name ∈ names,
        (collectedOn s d).headers.ConcreteIfKnown name) ↔
      ∀ base ∈ Index.basesRead s.shape s.requestedBases, ∀ name,
        ListedAmong s d s.archives s.requestedBases base name →
        (collectedOn s d).headers.ConcreteIfKnown name) := by
  have hcases : ∀ base names, r.rows.get? base = some names → ∀ name ∈ names,
      (∃ header, (collectedOn s d).headers.header? name = some header ∧
        header.isConcrete = true) ∨
      (base ∈ Index.basesRead s.shape s.requestedBases ∧
        ListedAmong s d s.archives s.requestedBases base name) := by
    intro base names hget name hn
    obtain ⟨_, _, hmem⟩ := row_of_build h hget
    rcases (hmem name).1 hn with hlisted | hdescends
    · exact .inr hlisted
    · exact .inl (exists_header_of_mem_descendants hdescends)
  refine ⟨fun base names hget name hn => (hcases base names hget name hn).imp_right And.right,
    fun hall base hb name hlisted => ?_, fun hall base names hget name hn => ?_⟩
  · obtain ⟨names, hget⟩ := exists_row_of_build h (Index.mem_of_mem_basesRead hb)
    obtain ⟨_, _, hmem⟩ := row_of_build h hget
    exact hall base names hget name ((hmem name).2 (.inl ⟨hb, hlisted⟩))
  · rcases hcases base names hget name hn with ⟨header, hheader, hconcrete⟩ | ⟨hb, hlisted⟩
    · intro header' hheader'
      cases hheader.symm.trans hheader'
      exact hconcrete
    · exact hall base hb name hlisted

/-! ## A listed name that is known to be abstract -/

/-- Settings with a second archive. -/
def twoArchives : Settings := { smallSettings with archives := [.text "x", .text "y"] }

/-- An abstract class beside an archive whose index lists it and an archive with a concrete one. -/
def contradictedDisk : Disk :=
  smallDisk [("E.class", ClassFile.childOf "a/B" 0x421)]
    [("x", Zip.pack [⟨"i", ("a.B=E,l.M" : Text).flatMap Utf8.bytesOf, 0⟩]),
      ("y", Zip.pack [⟨"l/N.class", ClassFile.childOf "a/B" 33, 0⟩])]

theorem exists_build_contradictedDisk :
    ∃ r, (build twoArchives contradictedDisk).value = .ok (some r) ∧
      r.rows.get? "a/B" = some [("E" : Text), "l/M", "l/N"] := by
  have hfound : (build twoArchives contradictedDisk).value.toOption.map
      (fun result => result.bind fun r => r.rows.get? "a/B") =
        some (some (NameSet.ofList [("E" : Text), "l/M", "l/N"]).names) := by decide +kernel
  obtain ⟨result, hvalue, hrow⟩ := exists_ok_of_toOption hfound
  obtain ⟨r, rfl, hget⟩ := Option.bind_eq_some_iff.1 hrow
  exact ⟨r, hvalue, hget⟩

theorem build_concrete_iff_contradictedDisk :
    ∃ r, (build twoArchives contradictedDisk).value = .ok (some r) ∧
      (∀ name ∈ [("E" : Text), "l/M", "l/N"],
        (∃ header, (collectedOn twoArchives contradictedDisk).headers.header? name =
          some header ∧ header.isConcrete = true) ∨
        ListedAmong twoArchives contradictedDisk twoArchives.archives
          twoArchives.requestedBases "a/B" name) ∧
      ((∀ base names, r.rows.get? base = some names → ∀ name ∈ names,
          (collectedOn twoArchives contradictedDisk).headers.ConcreteIfKnown name) ↔
        ∀ base ∈ Index.basesRead twoArchives.shape twoArchives.requestedBases, ∀ name,
          ListedAmong twoArchives contradictedDisk twoArchives.archives
            twoArchives.requestedBases base name →
          (collectedOn twoArchives contradictedDisk).headers.ConcreteIfKnown name) := by
  obtain ⟨r, hr, hget⟩ := exists_build_contradictedDisk
  obtain ⟨hnames, hiff⟩ := build_concrete_iff hr
  exact ⟨r, hr, hnames _ _ hget, hiff⟩

/-- The row of the base holds a class that the classes directory supplied as an abstract one. -/
theorem build_listsAbstract :
    ∃ r names header, (build twoArchives contradictedDisk).value = .ok (some r) ∧
      r.rows.get? "a/B" = some names ∧ ("E" : Text) ∈ names ∧
      (collectedOn twoArchives contradictedDisk).headers.header? "E" = some header ∧
      header.isConcrete = false := by
  obtain ⟨r, hr, hget⟩ := exists_build_contradictedDisk
  have hheader : (collectedOn twoArchives contradictedDisk).headers.header? "E" =
      some ⟨0x421, some "a/B"⟩ := by decide +kernel
  exact ⟨r, _, _, hr, hget, List.mem_cons_self, hheader, rfl⟩

end SubclassIndex
