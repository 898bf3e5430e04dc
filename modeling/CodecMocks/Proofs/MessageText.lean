import CodecMocks.Proofs.GroupStream
import CodecMocks.Proofs.PrintedText

/-!
# The text of a message

A message range is a begin token, root fields, a stream of groups, variable-length data and an end
token. The two passes over it, one for the fields and one for the groups, agree on where the groups
start, and the module of the message is the text that is printed of its fields and of the forest
that the stream spells.

* `read_groups_of_spells`: what is read from the content of a message.
* `messageModule_of_spells`: the module of a message is printed from its tree.
-/

namespace CodecMocks.Mock

open CodecMocks.Naming CodecMocks.Schema

/-- The content of a message is read as its root fields and the forest that its groups spell. -/
theorem read_groups_of_spells {forest : GroupForest} {fields stream data : List Token}
    (hfields : AreFields fields) (hstream : Spells forest stream) (hdata : StartsData data) :
    (rootFields (fields ++ stream ++ data)).1 = fields ∧
      GroupForest.read (groups (fields ++ stream ++ data)).1 = (forest, []) := by
  constructor
  · rw [List.append_assoc, rootFields_append_of_areFields hfields
      (hstream.startsContent hdata).endsFields]
  · rw [groups_of_spells hfields hstream hdata,
      GroupForest.read_markerless_append hfields.markerless, read_of_spells hstream]

/-- **The module of a message is printed from its tree.** Whatever the begin and the end token of
the range are, the class has the properties of the root fields, then for each group of the forest
its property and its class, one level deeper; the variable-length data of the message and of its
groups adds nothing. -/
theorem messageModule_of_spells (package : CodeText) (opening closing : Token)
    {forest : GroupForest} {fields stream data : List Token} (hfields : AreFields fields)
    (hstream : Spells forest stream) (hdata : StartsData data) :
    messageModule package (opening :: (fields ++ stream ++ data) ++ [closing]) =
      .ok (printedMessage package opening.name fields forest) := by
  obtain ⟨hroot, hgroups⟩ := read_groups_of_spells hfields hstream hdata
  rw [List.cons_append, messageModule_eq, body_enclosed, messageClass, hroot, hgroups,
    classModule_eq_printedModule, messageBody, ClassBody.members_append, members_fieldProperties,
    members_forestBody]
  rfl

/-! ### A sample message -/

/-- The root fields of a message about a car. -/
def carFields : List Token :=
  [⟨.beginField, "serialNumber", none⟩, ⟨.encoding, "uint64", some { primitive := .uint64 }⟩,
   ⟨.endField, "serialNumber", none⟩]

/-- The fields of its first group, of which `count` is a name that the cursor of the group has. -/
def fuelFields : List Token :=
  [⟨.beginField, "count", none⟩, ⟨.encoding, "uint16", some { primitive := .uint16 }⟩,
   ⟨.endField, "count", none⟩]

/-- The groups of the message. -/
def carForest : GroupForest :=
  .group ⟨.beginGroup, "fuelFigures", none⟩ fuelFields
    (.group ⟨.beginGroup, "notes", none⟩ [] .nil .nil)
    (.group ⟨.beginGroup, "tyres", none⟩ [] .nil .nil)

/-- The stream of the groups. The first group has data after the group nested in it. -/
def carGroups : List Token :=
  ⟨.beginGroup, "fuelFigures", none⟩ :: fuelFields ++
    [⟨.beginGroup, "notes", none⟩, ⟨.endGroup, "notes", none⟩] ++
    [⟨.beginVarData, "usage", none⟩, ⟨.endVarData, "usage", none⟩] ++
    ⟨.endGroup, "fuelFigures", none⟩ ::
    [⟨.beginGroup, "tyres", none⟩, ⟨.endGroup, "tyres", none⟩]

/-- The data of the message, followed by a group that is not read. -/
def carData : List Token :=
  [⟨.beginVarData, "model", none⟩, ⟨.endVarData, "model", none⟩,
   ⟨.beginGroup, "lost", none⟩, ⟨.endGroup, "lost", none⟩]

theorem spells_carGroups : Spells carForest carGroups :=
  .group rfl (by decide) (spells_markers "notes") (by decide) (by decide) rfl
    (spells_markers "tyres")

theorem carModule_eq :
    (AreFields carFields ∧ Spells carForest carGroups ∧ StartsData carData) ∧
      messageModule "fleet" (⟨.beginMessage, "car", none⟩ :: (carFields ++ carGroups ++ carData) ++
          [⟨.endMessage, "car", none⟩]) =
        .ok (printedMessage "fleet" "car" carFields carForest) :=
  ⟨⟨by decide, spells_carGroups, by decide⟩,
    messageModule_of_spells "fleet" ⟨.beginMessage, "car", none⟩ ⟨.endMessage, "car", none⟩
      (by decide) spells_carGroups (by decide)⟩

example : (printedGroups "Car" [] carForest).filterMap List.head? =
    (["_fuel_figures: Car.FuelFigures | None = None",
      "def fuel_figures(self) -> Car.FuelFigures | None:",
      "def set_fuel_figures(self, value: Car.FuelFigures) -> Self:",
      "class FuelFiguresMock(Car.FuelFigures):",
      "_tyres: Car.Tyres | None = None",
      "def tyres(self) -> Car.Tyres | None:",
      "def set_tyres(self, value: Car.Tyres) -> Self:",
      "class TyresMock(Car.Tyres):"] : List CodeText) := by
  decide +kernel

end CodecMocks.Mock
