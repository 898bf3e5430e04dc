import CodecMocks.Log
import CodecMocks.Mock.Module

/-!
# Generation sessions

A session makes the modules of a catalog one after the other and hands each to a destination. It
stops at the first module that cannot be made or handed over; what was done before stays.
-/

namespace CodecMocks.Mock

open CodecMocks CodecMocks.Schema

/-- Where modules go. The destination has a state `σ` and refuses a module with an `ε`; `prepare`
may change a text before it is handed over, or refuse it. Both are told how many modules came
before. -/
structure Destination (σ ε : Type) where
  deliver : Nat → σ → MockModule → σ × Option ε
  prepare : Nat → σ → CodeText → σ × Except ε (CodeText × List LogLine) :=
    fun _ state text => (state, .ok (text, []))

/-- How far a session is: the state of the destination, the names of the modules handed over, and
the log. -/
structure Progress (σ : Type) where
  state : σ
  written : List CodeText := []
  log : List LogLine := []

/-- Why a session stops. -/
inductive Failure (ε : Type) where
  | module (error : ModuleError)
  | refused (error : ε)
deriving DecidableEq, Repr

variable {σ ε : Type}

/-- What is reported of a module that was handed over. -/
def generatedLine (name : CodeText) : LogLine :=
  ⟨.info, mockSource, "Generated mock '" ++ name ++ "'."⟩

/-- What is reported after all modules of a catalog. -/
def summaryLine (count : Nat) (c : Catalog) : LogLine :=
  ⟨.info, mockSource,
    "Generated " ++ toString count ++ " mock module(s) for '" ++ c.package ++ "'."⟩

/-- Hand over one module. -/
def Progress.hand (p : Progress σ) (d : Destination σ ε) (m : MockModule) :
    Progress σ × Option ε :=
  match d.prepare p.written.length p.state m.text with
  | (state, .error e) => ({ p with state }, some e)
  | (state, .ok (text, reports)) =>
    let log := p.log ++ reports
    match d.deliver p.written.length state { m with text } with
    | (state, some e) => ({ p with state, log }, some e)
    | (state, none) =>
      ({ state, written := p.written ++ [m.name], log := log ++ [generatedLine m.name] }, none)

/-- Hand over modules in order. -/
def Progress.handAll (p : Progress σ) (d : Destination σ ε) :
    List (Except ModuleError (Option MockModule)) → Progress σ × Option (Failure ε)
  | [] => (p, none)
  | .error e :: _ => (p, some (.module e))
  | .ok none :: rest => p.handAll d rest
  | .ok (some m) :: rest =>
    match p.hand d m with
    | (p, some e) => (p, some (.refused e))
    | (p, none) => p.handAll d rest

/-- Carry out one stage. Only the stage of all modules is summed up. -/
def Progress.stage (p : Progress σ) (d : Destination σ ε) (c : Catalog) (s : Stage) :
    Progress σ × Option (Failure ε) :=
  match p.handAll d (modulesOf c s) with
  | (p, some e) => (p, some e)
  | (p, none) =>
    if s = .all then ({ p with log := p.log ++ [summaryLine p.written.length c] }, none)
    else (p, none)

/-- Carry out stages in order. -/
def Progress.stages (p : Progress σ) (d : Destination σ ε) (c : Catalog) :
    List Stage → Progress σ × Option (Failure ε)
  | [] => (p, none)
  | s :: rest =>
    match p.stage d c s with
    | (p, some e) => (p, some e)
    | (p, none) => p.stages d c rest

/-- Why a session cannot be started. -/
inductive MissingPart where
  | catalog
  | destination
deriving DecidableEq, Repr

/-- The wording. -/
def MissingPart.message : MissingPart → CodeText
  | .catalog => "ir must not be None"
  | .destination => "output_manager must not be None"

/-- The parts of a session, of which the catalog is looked for first. -/
def sessionParts {α β : Type} (catalog : Option α) (destination : Option β) :
    Except MissingPart (α × β) :=
  match catalog, destination with
  | none, _ => .error .catalog
  | some _, none => .error .destination
  | some c, some d => .ok (c, d)

end CodecMocks.Mock
