import CodecMocks.Proofs.FailingSessions
import CodecMocks.Proofs.PropertyNames

/-!
# Names of units

The header, every set, every composite and every message of a catalog have a module, which is kept
under the name of its mock. That name is made from the class name, and many schema names have the
same class name. The names of a catalog may therefore all be different and still share a module
name; then one module takes the place of another.

* `map_typeName_classesOf`: the classes of a catalog are named after its declared names.
* `inMemory_eq`: what a session in memory keeps.
* `generated_eq_iff_nodup`: all modules are kept exactly if all class names are different.
* `sameClass_replaced`: different names are not enough for this.
-/

namespace CodecMocks.Mock

open CodecMocks.Files CodecMocks.Naming CodecMocks.Schema

/-- The schema name of a type that has a module, which is a set or a composite. -/
def declaredType? : List Token → Option CodeText
  | [] => none
  | t :: _ => if t.is .beginSet || t.is .beginComposite then some t.name else none

/-- The schema name of a message. -/
def declaredMessage? : List Token → Option CodeText
  | [] => none
  | t :: _ => some t.name

/-- The schema name of the message header. -/
def headerName : CodeText := "messageHeader"

/-- The schema names of all that has a module: the header, the sets and composites, the messages. -/
def declaredNames (c : Catalog) : List CodeText :=
  headerName :: c.types.filterMap declaredType? ++ c.messages.filterMap declaredMessage?

theorem className_headerName : className headerName = headerTypeName := by decide +kernel

theorem map_typeName_typeClass? (tokens : List Token) :
    (typeClass? tokens).map (·.typeName) = (declaredType? tokens).map className := by
  cases tokens with
  | nil => rfl
  | cons t ts =>
    cases hsignal : t.signal <;>
      simp [typeClass?, declaredType?, Token.is, hsignal, MockClass.plain]

theorem map_typeName_messageClass? (tokens : List Token) :
    (messageClass? tokens).map (·.typeName) = (declaredMessage? tokens).map className := by
  cases tokens with
  | nil => rfl
  | cons t ts => rfl

/-- The classes of a catalog are named after its declared names, in the same order. -/
theorem map_typeName_classesOf (c : Catalog) :
    (classesOf c .all).map (·.typeName) = (declaredNames c).map className := by
  have htypes : (c.types.filterMap typeClass?).map (·.typeName) =
      (c.types.filterMap declaredType?).map className := by
    rw [List.map_filterMap, List.map_filterMap]
    exact congrArg (List.filterMap · c.types) (funext map_typeName_typeClass?)
  have hmessages : (c.messages.filterMap messageClass?).map (·.typeName) =
      (c.messages.filterMap declaredMessage?).map className := by
    rw [List.map_filterMap, List.map_filterMap]
    exact congrArg (List.filterMap · c.messages) (funext map_typeName_messageClass?)
  rw [classesOf, declaredNames, List.map_append, List.map_cons, htypes, hmessages, List.map_append,
    List.map_cons, className_headerName]
  rfl

/-- A session that keeps all modules of a catalog in memory. -/
def inMemory (c : Catalog) : Progress Shelf × Option (Failure Empty) :=
  ({ state := [] } : Progress Shelf).stage memoryDestination c .all

/-- If no range is empty, the modules of all classes are written one after the other. -/
theorem inMemory_eq {c : Catalog} (htypes : ∀ tokens ∈ c.types, tokens ≠ [])
    (hmessages : ∀ tokens ∈ c.messages, tokens ≠ []) :
    let modules := (classesOf c .all).map (classModule c.package)
    inMemory c =
      ({ state := Entries.ofList (modules.map fun m => (m.name, m.text))
         written := modules.map (·.name)
         log := modules.map (generatedLine ·.name) ++ [summaryLine modules.length c] }, none) := by
  intro modules
  obtain ⟨made, hmade, hmodules⟩ := modulesOf_all htypes hmessages
  rw [inMemory, Progress.stage, hmade, handAll_memory, hmodules]
  simp [Progress.afterAll, Entries.ofList, List.foldl_map, modules]

/-- **When no module is lost.** A session that keeps the modules of a catalog in memory writes one
for the header, each set, each composite and each message. No name is written twice, and the modules
are all kept, each under its own name, exactly if no two of the declared names have the same class
name. -/
theorem generated_eq_iff_nodup (c : Catalog) (htypes : ∀ tokens ∈ c.types, tokens ≠ [])
    (hmessages : ∀ tokens ∈ c.messages, tokens ≠ []) :
    let session := inMemory c
    let modules := (classesOf c .all).map (classModule c.package)
    session.2 = none ∧
      session.1.written = (declaredNames c).map (fun name => mockName (className name)) ∧
      Entries.IsLastWins (modules.map fun m => (m.name, m.text)) session.1.state ∧
      (session.1.written.Nodup ↔ ((declaredNames c).map className).Nodup) ∧
      (session.1.state = modules.map (fun m => (m.name, m.text)) ↔
        ((declaredNames c).map className).Nodup) := by
  intro session modules
  have hsession : session = _ := inMemory_eq htypes hmessages
  have hnames : modules.map (·.name) = ((declaredNames c).map className).map mockName := by
    rw [← map_typeName_classesOf, List.map_map, List.map_map]
    rfl
  have hkeys : (modules.map fun m => (m.name, m.text)).map (·.1) = modules.map (·.name) :=
    List.map_map
  have hnodup : (modules.map (·.name)).Nodup ↔ ((declaredNames c).map className).Nodup := by
    rw [hnames, List.nodup_map_iff mockName_injective]
  rw [hsession]
  refine ⟨rfl, ?_, Entries.isLastWins_ofList _, hnodup, ?_⟩
  · show modules.map (·.name) = _
    rw [hnames, List.map_map]
    rfl
  · show Entries.ofList _ = _ ↔ _
    rw [Entries.ofList_eq_iff, hkeys, hnodup]

/-- A catalog with a set, a composite and a message, of which no two share a class name. -/
def distinctCatalog : Catalog :=
  .ofParts "n" []
    [[⟨.beginSet, "car", none⟩, ⟨.endSet, "car", none⟩],
     [⟨.beginComposite, "car_part", none⟩, ⟨.endComposite, "car_part", none⟩]]
    [[⟨.beginMessage, "Cars", none⟩, ⟨.endMessage, "Cars", none⟩]]

theorem distinctCatalog_kept :
    let session := inMemory distinctCatalog
    ((∀ tokens ∈ distinctCatalog.types, tokens ≠ []) ∧
        ∀ tokens ∈ distinctCatalog.messages, tokens ≠ []) ∧
      session.1.written =
        (["MessageHeaderMock", "CarMock", "CarPartMock", "CarsMock"] : List CodeText) ∧
      session.1.state = ((classesOf distinctCatalog .all).map (classModule "n")).map fun m =>
        (m.name, m.text) := by
  intro session
  obtain ⟨-, hwritten, -, -, hkept⟩ :=
    generated_eq_iff_nodup distinctCatalog (by decide) (by decide)
  refine ⟨⟨by decide, by decide⟩, ?_, ?_⟩
  · rw [hwritten]
    decide +kernel
  · exact hkept.mpr (by decide +kernel)

/-- A catalog with a set and a message whose names differ in their first letter only. -/
def sameClassCatalog : Catalog :=
  .ofParts "n" []
    [[⟨.beginSet, "car", none⟩, ⟨.choice, "abs", none⟩, ⟨.endSet, "car", none⟩]]
    [[⟨.beginMessage, "Car", none⟩, ⟨.endMessage, "Car", none⟩]]

/-- All names of the catalog are different, but the module of the set is lost: that of the message
has taken its place. -/
theorem sameClass_replaced :
    let session := inMemory sameClassCatalog
    (∀ tokens ∈ sameClassCatalog.types ++ sameClassCatalog.messages, tokens ≠ []) ∧
      declaredNames sameClassCatalog = (["messageHeader", "car", "Car"] : List CodeText) ∧
      session.2 = none ∧
      session.1.written = (["MessageHeaderMock", "CarMock", "CarMock"] : List CodeText) ∧
      ¬ session.1.written.Nodup ∧
      session.1.state.keys = (["MessageHeaderMock", "CarMock"] : List CodeText) ∧
      session.1.state.get? ("CarMock" : CodeText) =
        some (classModule "n" (messageClass ⟨.beginMessage, "Car", none⟩ [])).text := by
  intro session
  have hsession : session = _ := inMemory_eq (by decide) (by decide)
  have hwritten :
    session.1.written = (["MessageHeaderMock", "CarMock", "CarMock"] : List CodeText) := by
    rw [hsession]
    decide +kernel
  refine ⟨by decide, by decide +kernel, by rw [hsession], hwritten, ?_, ?_, ?_⟩
  · rw [hwritten]
    decide
  · rw [hsession]
    decide +kernel
  · rw [hsession]
    decide +kernel

end CodecMocks.Mock
