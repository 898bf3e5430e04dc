import CodecMocks.Schema.Token

/-!
# Catalogs

A catalog holds what is known of a schema: the package of its codecs and the token ranges of the
message header, of the types and of the messages. The header is never empty.
-/

namespace CodecMocks.Schema

/-- The token ranges of a schema. -/
structure Catalog where
  package : CodeText
  header : List Token
  types : List (List Token)
  messages : List (List Token)
  header_ne_nil : header ≠ []
deriving DecidableEq

/-- The header of a schema that declares none. -/
def emptyHeader : List Token :=
  [{ signal := .beginComposite, name := "messageHeader" },
   { signal := .endComposite, name := "messageHeader" }]

/-- The header in use when a schema declares the given one. -/
def headerOr (declared : List Token) : List Token :=
  if declared.isEmpty then emptyHeader else declared

theorem headerOr_ne_nil (declared : List Token) : headerOr declared ≠ [] := by
  cases declared <;> simp [headerOr, emptyHeader]

@[simp] theorem headerOr_of_ne_nil {declared : List Token} (h : declared ≠ []) :
    headerOr declared = declared := by
  cases declared <;> simp_all [headerOr]

/-- The catalog with the given parts; an empty header is replaced. -/
def Catalog.ofParts (package : CodeText) (header : List Token)
    (types messages : List (List Token)) :
    Catalog where
  package := package
  header := headerOr header
  types := types
  messages := messages
  header_ne_nil := headerOr_ne_nil header

/-- The same catalog for another package. -/
def Catalog.withPackage (c : Catalog) (package : CodeText) : Catalog :=
  { c with package := package }

end CodecMocks.Schema
