import CodecMocks.Proofs.DocumentParts

/-!
# Members that nothing is read from

The objects of a document may have members of any names beside those that are read. What is read of
a document, and what is reported of it, is the same without them.

* `prunedDocument`: the document without such members, down to its tokens and their encodings.
* `lookup_prunedMembers`: the other members are where they were.
* `ofDocument_prunedDocument`: the pruned document is read as the document is.
-/

namespace CodecMocks.Schema

open CodecMocks CodecMocks.Text

/-! ### Pruning -/

/-- The members that are known, each with its value replaced. -/
def prunedMembers (known : List (String × (Json → Json))) (members : Members) : Members :=
  members.filterMap fun member =>
    (known.find? (CodeText.ofString ·.1 = member.1)).map fun entry =>
      (member.1, entry.2 member.2)

/-- An object without the members that are not known. -/
def pruned (known : List (String × (Json → Json))) : Json → Json
  | .object members => .object (prunedMembers known members)
  | value => value

/-- A list with every item replaced. -/
def prunedEach (prune : Json → Json) : Json → Json
  | .list items => .list (items.map prune)
  | value => value

/-- An encoding without the members that are not read. -/
def prunedEncoding : Json → Json :=
  pruned [("primitive_type", id), ("presence", id), ("array_length", id), ("const_value", id)]

/-- A token and its encoding without the members that are not read. -/
def prunedToken : Json → Json :=
  pruned [("signal", id), ("name", id), ("encoding", prunedEncoding)]

/-- A document without the members that are not read, down to its tokens and their encodings. -/
def prunedDocument : Json → Json :=
  pruned [("namespace", id), ("header", prunedEach prunedToken),
    ("types", prunedEach (prunedEach prunedToken)),
    ("messages", prunedEach (prunedEach prunedToken))]

/-! ### Known members -/

section

variable {known : List (String × (Json → Json))} {name : String} {prune : Json → Json}
variable {members : Members}

/-- The values of known members are replaced and stay under their names. -/
theorem lookup_prunedMembers (h : known.find? (·.1 = name) = some (name, prune)) :
    Json.lookup name (prunedMembers known members) = (Json.lookup name members).map prune := by
  induction members with
  | nil => rfl
  | cons member members ih =>
    unfold Json.lookup prunedMembers at ih ⊢
    rw [List.filterMap_cons, Entries.get?]
    by_cases hname : member.1 = CodeText.ofString name
    · simp [hname, CodeText.ofString_inj, h, Entries.get?]
    · rw [if_neg hname, ← ih]
      split
      · rfl
      · next entry hentry =>
        obtain ⟨found, -, rfl⟩ := Option.map_eq_some_iff.mp hentry
        rw [Entries.get?, if_neg hname]

/-- A known member that is not changed is found as before. -/
theorem lookup_prunedMembers_id (h : known.find? (·.1 = name) = some (name, id)) :
    Json.lookup name (prunedMembers known members) = Json.lookup name members := by
  rw [lookup_prunedMembers h, Option.map_id, id]

theorem memberOf_prunedMembers_id (h : known.find? (·.1 = name) = some (name, id)) :
    memberOf name (.object (prunedMembers known members)) = memberOf name (.object members) := by
  rw [memberOf, memberOf, lookup_prunedMembers_id h]

/-- A part of a catalog is read as before if its values are. -/
theorem memberOrEmpty_prunedMembers {α : Type} {read : Json → Except DocumentError α}
    (h : known.find? (·.1 = name) = some (name, prune))
    (hread : ∀ value, read (prune value) = read value) :
    read (memberOrEmpty name (.object (prunedMembers known members))) =
      read (memberOrEmpty name (.object members)) := by
  rw [memberOrEmpty, memberOrEmpty, Json.member?_object, Json.member?_object,
    lookup_prunedMembers h]
  cases Json.lookup name members with
  | none => rfl
  | some value => exact hread value

end

/-! ### What is read -/

variable (depth : Nat)

theorem encodingOf_prunedEncoding (value : Json) :
    encodingOf depth (prunedEncoding value) = encodingOf depth value := by
  cases value with
  | object members =>
    show encodingOf depth (.object (prunedMembers _ members)) = _
    rw [encodingOf_object, encodingOf_object, primitivePart, presencePart, lengthPart,
      constantPart, memberOf_prunedMembers_id rfl, lookup_prunedMembers_id rfl,
      lookup_prunedMembers_id rfl, lookup_prunedMembers_id rfl]
    rfl
  | _ => rfl

theorem tokenOf_prunedToken (value : Json) :
    tokenOf depth (prunedToken value) = tokenOf depth value := by
  cases value with
  | object members =>
    show tokenOf depth (.object (prunedMembers _ members)) = _
    have hencoding : encodingPart depth (.object (prunedMembers
        [("signal", id), ("name", id), ("encoding", prunedEncoding)] members)) =
        encodingPart depth (.object members) := by
      rw [encodingPart, encodingPart, Json.member?_object, Json.member?_object,
        lookup_prunedMembers rfl]
      cases Json.lookup "encoding" members with
      | none => rfl
      | some encoding =>
        cases encoding with
        | object inner =>
          exact congrArg (·.map some) (encodingOf_prunedEncoding depth (.object inner))
        | _ => rfl
    rw [tokenOf_eq, tokenOf_eq, namePart, signalPart, memberOf_prunedMembers_id rfl,
      memberOf_prunedMembers_id rfl, hencoding]
    rfl
  | _ => rfl

/-- Items are read as before if each of them is. -/
theorem partsOf_prunedEach {α : Type} {read : Json → Except DocumentError α} {prune : Json → Json}
    (hread : ∀ value, read (prune value) = read value) (value : Json) :
    (partsOf (prunedEach prune value) >>= fun items => items.mapM read) =
      partsOf value >>= fun items => items.mapM read := by
  cases value with
  | list items =>
    show (items.map prune).mapM read = items.mapM read
    rw [List.mapM_map]
    exact congrArg (items.mapM ·) (funext hread)
  | _ => rfl

theorem tokensOf_prunedEach (value : Json) :
    tokensOf depth (prunedEach prunedToken value) = tokensOf depth value :=
  partsOf_prunedEach (tokenOf_prunedToken depth) value

theorem rangesOf_prunedEach (value : Json) :
    rangesOf depth (prunedEach (prunedEach prunedToken) value) = rangesOf depth value :=
  partsOf_prunedEach (tokensOf_prunedEach depth) value

/-- **Members that are not read do not count.** A document and its pruned form are read as the same
catalog, or refused for the same fault. -/
theorem ofDocument_prunedDocument (document : Json) :
    Catalog.ofDocument depth (prunedDocument document) = Catalog.ofDocument depth document := by
  have hparts : partsOfCatalog depth (prunedDocument document) = partsOfCatalog depth document := by
    cases document with
    | object members =>
      show partsOfCatalog depth (.object (prunedMembers _ members)) = _
      rw [partsOfCatalog_eq, partsOfCatalog_eq, memberOf_prunedMembers_id rfl,
        memberOrEmpty_prunedMembers rfl (tokensOf_prunedEach depth),
        memberOrEmpty_prunedMembers rfl (rangesOf_prunedEach depth),
        memberOrEmpty_prunedMembers rfl (rangesOf_prunedEach depth)]
    | _ => rfl
  rw [Catalog.ofDocument, Catalog.ofDocument, hparts]

end CodecMocks.Schema
