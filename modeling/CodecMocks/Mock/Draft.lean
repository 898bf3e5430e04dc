import CodecMocks.Mock.Group

/-!
# Drafts of mock modules

A draft is a mock module that is being written: the package of the classes it mocks and the outline
of its text. `Edit` lists everything that can be done to a draft, `Draft.apply` does it. A draft can
be rendered when all blocks that were opened are closed.
-/

namespace CodecMocks.Mock

open CodecMocks.Naming CodecMocks.Schema

/-- A mock module that is being written. -/
structure Draft where
  package : CodeText
  outline : Outline := Outline.root ""
deriving DecidableEq, Repr

/-- The first line of every module. -/
def moduleDocstring : CodeText :=
  "\"\"\"Generated SBE (Simple Binary Encoding) message codec mock.\"\"\""

/-- The imports of every module. -/
def Draft.imports (d : Draft) : List CodeText :=
  ["from __future__ import annotations",
   "",
   "from collections.abc import Iterator",
   "from typing import Self",
   "",
   "from " ++ d.package ++ " import *  # noqa: F403"]

/-- Why a draft cannot be changed or rendered. -/
inductive DraftError where
  /-- The outermost block is left. -/
  | leavesRoot
  /-- A block is still open. -/
  | blockOpen
  /-- Groups are read from outside of a range. -/
  | outOfRange (error : OutOfRange)
deriving DecidableEq, Repr

/-- The wording. -/
def DraftError.message : DraftError → CodeText
  | .leavesRoot => "The root scope cannot be returned from."
  | .blockOpen => "A mock class scope is still open."
  | .outOfRange error => error.message

/-- The lines of the module. -/
def Draft.lines (d : Draft) : List CodeText :=
  [moduleDocstring, ""] ++ d.imports ++ [("" : CodeText), ""] ++ d.outline.lines

/-- The text of the module, if no block is open. -/
def Draft.render (d : Draft) : Except DraftError CodeText :=
  if d.outline.isRoot then .ok (CodeText.intercalate "\n" d.lines ++ "\n") else .error .blockOpen

/-- Continue in the block around the current one, if there is one. -/
def Draft.leave (d : Draft) : Except DraftError Draft :=
  if d.outline.isRoot then .error .leavesRoot else .ok { d with outline := d.outline.leave }

/-- A change of a draft. -/
inductive Edit where
  | openBlock (name heading : CodeText)
  | leave
  | openClass (typeName : CodeText) (base : Option CodeText)
  | reserve (names : List CodeText)
  | property (p : Property)
  | primitive (name : CodeText) (token : Token)
  | fields (tokens : List Token)
  | composite (tokens : List Token)
  | choices (tokens : List Token)
  | openGroup (group parent : CodeText)
  | groups (tokens : List Token) (index : Int) (parent : CodeText)
deriving DecidableEq, Repr

/-- What a change answers. -/
inductive Answer where
  | nothing
  /-- The name of the class that is opened. -/
  | className (name : CodeText)
  /-- Where reading stopped. -/
  | position (index : Int)
deriving DecidableEq, Repr

/-- The path of the class that is mocked: the given one, or the type itself if it is empty. -/
def basePath (typeName : CodeText) (base : Option CodeText) : CodeText :=
  match base with
  | some path => if path.isEmpty then typeName else path
  | none => typeName

/-- Change a draft. A change that is refused leaves it as it is. -/
def Draft.apply (d : Draft) : Edit → Except DraftError (Draft × Answer)
  | .openBlock name heading =>
    .ok ({ d with outline := d.outline.openBlock name heading }, .nothing)
  | .leave => d.leave.map (·, .nothing)
  | .openClass typeName base =>
    .ok ({ d with outline := d.outline.openClass typeName (basePath typeName base) },
      .className (mockName typeName))
  | .reserve names => .ok ({ d with outline := d.outline.reserve names }, .nothing)
  | .property p => .ok ({ d with outline := d.outline.addProperty p }, .nothing)
  | .primitive name token =>
    .ok ({ d with outline := d.outline.addPrimitive name token }, .nothing)
  | .fields tokens => .ok ({ d with outline := d.outline.addFields tokens }, .nothing)
  | .composite tokens => .ok ({ d with outline := d.outline.addComposite tokens }, .nothing)
  | .choices tokens => .ok ({ d with outline := d.outline.addChoices tokens }, .nothing)
  | .openGroup group parent =>
    .ok ({ d with outline := d.outline.openGroup (GroupNames.of group parent) }, .nothing)
  | .groups tokens index parent =>
    match d.outline.addGroupsAt parent tokens index with
    | .ok (outline, index) => .ok ({ d with outline }, .position index)
    | .error e => .error (.outOfRange e)

theorem Draft.render_of_isRoot {d : Draft} (h : d.outline.isRoot = true) :
    d.render = .ok (CodeText.intercalate "\n" d.lines ++ "\n") :=
  if_pos h

theorem Draft.leave_of_not_isRoot {d : Draft} (h : d.outline.isRoot = false) :
    d.leave = .ok { d with outline := d.outline.leave } := by
  simp [Draft.leave, h]

end CodecMocks.Mock
