import CodecMocks.Json.Reader
import CodecMocks.Schema.Document
import CodecMocks.Text.Utf8

/-!
# Loading a catalog from the content of a file

The content is UTF-8, its line ends may have any form, and it holds one JSON object. How deep values
can be nested, when they are read and when they are spelled, is given from outside.
-/

namespace CodecMocks.Schema

open CodecMocks CodecMocks.Text

/-- How deep values can be nested: the containers in a text that is read, and the levels of a value
that is spelled. A document that is read has four containers at least around a constant. So a
constant has no more than `reading - 3` levels. -/
structure Limits where
  reading : Nat
  spelling : Nat
  reading_le : reading ≤ spelling + 3

/-- Why the content of a file is no catalog. -/
inductive LoadError where
  | encoding (fault : Utf8.Fault)
  | json (error : Json.ReadError)
  | notObject
  | catalog (error : CatalogError)

/-- The error counts as a fault of the file; any other stops the whole program. -/
def LoadError.isReported : LoadError → Bool
  | .json (.tooManyDigits _) | .json (.tooDeep _) => false
  | .catalog error => error.isReported
  | _ => true

/-- The wording of a load error for a file shown as `path`. -/
def LoadError.message (path : String) : LoadError → String
  | .encoding fault => "'" ++ path ++ "' is not valid UTF-8 encoded JSON: " ++ fault.message
  | .json (.defect kind position) =>
    "'" ++ path ++ "' is not valid UTF-8 encoded JSON: " ++
      (Json.ReadError.defect kind position).message
  | .json error => error.message
  | .notObject => "'" ++ path ++ "' does not hold a JSON object."
  | .catalog error => error.message

/-- The catalog in the content of a file. -/
def Catalog.ofContent (limits : Limits) (content : List UInt8) : Except LoadError Catalog :=
  match Utf8.decode content with
  | .error fault => .error (.encoding fault)
  | .ok chars =>
    match Json.parse limits.reading (unifyLineEnds chars) with
    | .error error => .error (.json error)
    | .ok (.object members) =>
      (Catalog.ofDocument limits.spelling (.object members)).mapError .catalog
    | .ok _ => .error .notObject

end CodecMocks.Schema
