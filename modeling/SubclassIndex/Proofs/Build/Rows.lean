import SubclassIndex.Proofs.Build.ReadableSources
import SubclassIndex.Proofs.Build.SmallDisk
import SubclassIndex.Proofs.Hierarchy.Verdicts

/-!
# The rows of a build

`build_rows` says what a build comes to from end to end: the row of a base holds the names that the
consulted indices list for it and the names of the known classes that are linked to it.
-/

namespace SubclassIndex

variable {s : Settings} {d : Disk} {xs : List Dependency}

/-- A build of readable sources, in which no class is too far from a requested base, has a row for
each requested base. It is the ascending list of the names that the consulted indices list for the
base and of the known classes that descend from it. -/
theorem build_rows [Zip.Library] (h : ReadableSources s d xs)
    (hshallow : ∀ base ∈ s.requestedBases, Shallow (knownClasses s d xs) base) :
    ∃ r : BuildResult, (build s d).value = .ok (some r) ∧
      r.headerCount = (knownClasses s d xs).size ∧
      r.rows.keys = (s.baseClasses.map ClassName.internal).eraseDups ∧
      ∀ base ∈ r.rows.keys, ∃ names, r.rows.get? base = some names ∧ names.Pairwise (· < ·) ∧
        ∀ name, name ∈ names ↔ (∃ x ∈ xs, x.Lists s s.requestedBases base name) ∨
          Linked (knownClasses s d xs) base name := by
  obtain ⟨r, hbuild, hcount, hkeys, hrows⟩ := build_of_readable h
  refine ⟨r, hbuild, hcount, hkeys, fun base hb => ?_⟩
  rw [hkeys] at hb
  obtain ⟨found, hget, hfound⟩ := hrows base hb
  refine ⟨found.names, hget, found.ascending, fun name => ?_⟩
  rw [← mem_descendants_iff (hshallow base hb)]
  exact hfound name

/-! ## A served archive and a scanned one -/

/-- A class whose superclass is in the scanned archive `y`, beside the archive `x` that is served
from its index. -/
def mixedDisk : Disk :=
  smallDisk [("D.class", ClassFile.childOf "m/P" 33)]
    [("x", Zip.pack [⟨"l/M.class", ClassFile.childOf "a/B" 33, 0⟩,
      ⟨"i", ("a.B=l.M" : Text).flatMap Utf8.bytesOf, 0⟩]),
    ("y", Zip.pack [⟨"m/P.class", ClassFile.childOf "a/B" 33, 0⟩])]

def mixedSettings : Settings := { smallSettings with archives := [.text "x", .text "y"] }

def mixedArchives : List Dependency := archivesOn mixedSettings mixedDisk

theorem readableSources_mixed : ReadableSources mixedSettings mixedDisk mixedArchives :=
  readableSources_of_checks (by decide +kernel)

theorem build_rows_mixed :
    (∀ base ∈ mixedSettings.requestedBases,
      Shallow (knownClasses mixedSettings mixedDisk mixedArchives) base) ∧
    ∃ r : BuildResult, (build mixedSettings mixedDisk).value = .ok (some r) ∧
      r.headerCount = (knownClasses mixedSettings mixedDisk mixedArchives).size ∧
      r.rows.keys = (mixedSettings.baseClasses.map ClassName.internal).eraseDups ∧
      ∀ base ∈ r.rows.keys, ∃ names, r.rows.get? base = some names ∧ names.Pairwise (· < ·) ∧
        ∀ name, name ∈ names ↔
          (∃ x ∈ mixedArchives, x.Lists mixedSettings mixedSettings.requestedBases base name) ∨
            Linked (knownClasses mixedSettings mixedDisk mixedArchives) base name := by
  have hshallow : ∀ base ∈ mixedSettings.requestedBases,
      Shallow (knownClasses mixedSettings mixedDisk mixedArchives) base :=
    fun _ _ => shallow_of_length_le (by decide +kernel)
  exact ⟨hshallow, build_rows readableSources_mixed hshallow⟩

/-- The listed class, the class of the directory and its superclass in the scanned archive. -/
example : ((build mixedSettings mixedDisk).value.toOption.bind id).map (·.rows.entries) =
    some [(("a/B" : Text), ([("D" : Text), ("l/M" : Text), ("m/P" : Text)] : List Text))] := by
  decide +kernel

end SubclassIndex
