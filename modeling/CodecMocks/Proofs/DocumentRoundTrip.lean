import CodecMocks.Proofs.DocumentParts

/-!
# Documents of catalogs

`Catalog.toDocument` writes every member of an encoding, a constant only if there is one, and an
encoding only if the token has one. Reading such a document gives the catalog back whatever its
tokens are: markers in any order, any names, array lengths and constants. The one thing that a
catalog needs to be read is a package.

* `encodingOf_toDocument`, `tokenOf_toDocument`: an encoding and a token are read back.
* `tokensOf_rangeToDocument`, `rangesOf_rangeToDocument`: so are their lists.
* `ofDocument_toDocument_iff`: a catalog is read back exactly if it has a package.
-/

namespace CodecMocks.Schema

open CodecMocks CodecMocks.Text

variable (depth : Nat)

theorem primitiveOf_ofString (p : Primitive) : primitiveOf depth (.ofString p.name) = .ok p := by
  simp [primitiveOf, Json.ofString]

theorem presenceOf_ofString (p : Presence) : presenceOf depth (.ofString p.name) = .ok p := by
  simp [presenceOf, Json.ofString]

theorem signalOf_ofString (s : Signal) : signalOf depth (.ofString s.name) = .ok s := by
  simp [signalOf, Json.ofString]

/-- A constant is kept as it is, also the empty one. -/
theorem constantOf_text (value : CodeText) :
    constantOf depth (some (.text value)) = .ok (some value) :=
  rfl

theorem encodingOf_toDocument (e : Encoding) : encodingOf depth e.toDocument = .ok e := by
  rw [Encoding.toDocument, Json.record, encodingOf_eq_ok_iff]
  refine ⟨?_, ?_, ?_, ?_⟩
  · simp [primitivePart, memberOf, bind, Except.bind, primitiveOf_ofString]
  · simp [presencePart, presenceOf_ofString]
  · simp [lengthPart, lengthOf, Except.mapError]
  · cases e.constValue with
    | none => simp [constantPart, constantOf]
    | some value => simp [constantPart, constantOf_text]

theorem tokenOf_toDocument (t : Token) : tokenOf depth t.toDocument = .ok t := by
  rw [Token.toDocument, Json.record, tokenOf_eq_ok_iff]
  refine ⟨?_, ?_, ?_⟩
  · simp [namePart, memberOf, bind, Except.bind]
  · simp [signalPart, memberOf, bind, Except.bind, signalOf_ofString]
  · cases t.encoding with
    | none => simp [encodingPart]
    | some e =>
      have hread : (encodingOf depth e.toDocument).map some = .ok (some e) := by
        rw [encodingOf_toDocument]
        rfl
      simpa [encodingPart, Encoding.toDocument, Json.record] using hread

theorem tokensOf_rangeToDocument (tokens : List Token) :
    tokensOf depth (rangeToDocument tokens) = .ok tokens :=
  mapM_map_eq_ok (tokenOf_toDocument depth) tokens

theorem rangesOf_rangeToDocument (ranges : List (List Token)) :
    rangesOf depth (.list (ranges.map rangeToDocument)) = .ok ranges :=
  mapM_map_eq_ok (tokensOf_rangeToDocument depth) ranges

theorem partsOfCatalog_toDocument (c : Catalog) :
    partsOfCatalog depth c.toDocument = .ok (.text c.package, c.header, c.types, c.messages) := by
  have hpackage : memberOf "namespace" c.toDocument = .ok (.text c.package) := by
    simp [Catalog.toDocument, Json.record, memberOf]
  have hheader : memberOrEmpty "header" c.toDocument = rangeToDocument c.header := by
    simp [Catalog.toDocument, Json.record, memberOrEmpty]
  have htypes : memberOrEmpty "types" c.toDocument = .list (c.types.map rangeToDocument) := by
    simp [Catalog.toDocument, Json.record, memberOrEmpty]
  have hmessages : memberOrEmpty "messages" c.toDocument =
      .list (c.messages.map rangeToDocument) := by
    simp [Catalog.toDocument, Json.record, memberOrEmpty]
  rw [partsOfCatalog, hpackage, hheader, htypes, hmessages, tokensOf_rangeToDocument,
    rangesOf_rangeToDocument, rangesOf_rangeToDocument]
  rfl

/-- A header that is not empty is kept; so a catalog is made of its own parts. -/
theorem ofParts_self (c : Catalog) :
    Catalog.ofParts c.package c.header c.types c.messages = c := by
  simp [Catalog.ofParts, headerOr_of_ne_nil c.header_ne_nil]

/-- **Reading undoes writing.** The document of a catalog is read as this very catalog, whatever its
tokens are, exactly if its package is not empty. -/
theorem ofDocument_toDocument_iff (c : Catalog) :
    Catalog.ofDocument depth c.toDocument = .ok c ↔ c.package ≠ "" := by
  rw [Catalog.ofDocument, partsOfCatalog_toDocument]
  constructor
  · intro h hpackage
    rw [hpackage] at h
    cases h
  · intro h
    rw [← CodeText.isEmpty_eq_false_iff] at h
    simp [h, ofParts_self]

end CodecMocks.Schema
