import Mathlib.Data.List.Basic
import SubclassIndex.Proofs.Build.QueriedBack

/-!
# Reported rows and written rows

The report of a build dots the names of each row in the order in which the row has them; the writer
dots them first and sorts them then. Both come to the same list, because dotting keeps the order of
names without dots, and so the written index has line by line what is reported
(`renderKeyed_of_build`).
-/

namespace SubclassIndex

open ClassName Index

variable {s : Settings} {d : Disk} {r : BuildResult} {names : List Text}

namespace Index

/-- Ascending names without dots are written in the order in which they stand. -/
theorem dottedSorted_of_ascending (ha : names.Pairwise (· < ·))
    (hdot : ∀ n ∈ names, CodePoint.ofChar '.' ∉ n) : dottedSorted names = names.map dotted := by
  rw [dottedSorted_eq (Text.nodup_of_ascending ha) hdot, names_ofList_dotted ha hdot]

end Index

/-- If no listed name has a dot, then the written index has a line for each reported base, in their
order: the base, an equals sign, and the reported names with commas between them. The names of a row
are strictly ascending, as they are and dotted. -/
theorem renderKeyed_of_build [Zip.Library] (h : (build s d).value = .ok (some r))
    (hdot : ∀ row ∈ r.rows.entries, ∀ n ∈ row.2, CodePoint.ofChar '.' ∉ n) :
    r.dotted.entries = r.rows.entries.map (fun row => (dotted row.1, row.2.map dotted)) ∧
    render r.rows .properties =
      r.dotted.entries.flatMap (fun row => (row.1 ++ "=" ++ Text.join "," row.2 ++ "\n" : Text)) ∧
    ∀ row ∈ r.rows.entries, row.2.Pairwise (· < ·) ∧ (row.2.map dotted).Pairwise (· < ·) := by
  have hentries := entries_dotted_of_build h
  refine ⟨hentries, ?_, fun row hrow => ?_⟩
  · rw [hentries, List.flatMap_map, render, renderKeyed]
    refine List.flatMap_congr fun row hrow => ?_
    rw [rowLine, dottedSorted_of_ascending (ascending_of_build h hrow) (hdot row hrow)]
  · have hascending := ascending_of_build h hrow
    exact ⟨hascending, pairwise_map_dotted hascending (hdot row hrow)⟩

/-- Two bases, and names that differ where one has a slash and the others a sign next to it. -/
def neighbourDisk : Disk :=
  smallDisk [("x.class", ClassFile.childOf "l/M" 33)]
    [("x", Zip.pack [⟨"x0.class", ClassFile.childOf "a/B" 33, 0⟩,
      ⟨"x/Y.class", ClassFile.childOf "a/B" 33, 0⟩, ⟨"x-.class", ClassFile.childOf "a/B" 33, 0⟩])]

def neighbourSettings : Settings := { smallSettings with baseClasses := ["l.M", "a.B"] }

theorem renderKeyed_of_build_neighbourDisk : ∃ r : BuildResult,
    (build neighbourSettings neighbourDisk).value = .ok (some r) ∧
    (∀ row ∈ r.rows.entries, ∀ n ∈ row.2, CodePoint.ofChar '.' ∉ n) ∧
    r.dotted.entries = [(("l.M" : Text), [("x" : Text)]), ("a.B", ["x-", "x.Y", "x0"])] ∧
    render r.rows .properties = "l.M=x\na.B=x-,x.Y,x0\n" := by
  have hfound : (build neighbourSettings neighbourDisk).value.toOption.map
      (fun result => result.map fun r => r.rows.entries) =
        some (some [(("l/M" : Text), [("x" : Text)]), ("a/B", ["x-", "x/Y", "x0"])]) := by
    decide +kernel
  obtain ⟨result, hbuild, hresult⟩ := exists_ok_of_toOption hfound
  obtain ⟨r, rfl, hrows⟩ := Option.map_eq_some_iff.1 hresult
  have hdot : ∀ row ∈ r.rows.entries, ∀ n ∈ row.2, CodePoint.ofChar '.' ∉ n := by
    rw [hrows]
    decide
  obtain ⟨hdotted, hwritten, _⟩ := renderKeyed_of_build hbuild hdot
  rw [hrows] at hdotted
  rw [hdotted] at hwritten
  exact ⟨r, hbuild, hdot, hdotted, hwritten⟩

end SubclassIndex
