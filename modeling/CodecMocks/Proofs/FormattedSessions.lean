import CodecMocks.Proofs.TextLayout
import CodecMocks.Proofs.UnwritableUnits

/-!
# Sessions with a formatter

A formatter is an external program, and each text goes through a temporary file on its way to the
destination. Where the program cannot be started, fails, or leaves the file as it is, nothing of
this is seen in what is written, as long as the file can hold the text, which takes a text without
surrogates.

* `IsEmitted.return_notMem`: whatever the names of a schema are, no text holds a carriage return,
  unless the package does. So a text that is read back is the text that was written.
* `FormatterCall.format_eq`: one call keeps the text, and its temporary file is gone.
* `Progress.Matches`: two sessions that are equally far, up to what they reported.
* `handAll_matches`, `stages_matches`: one of them may have its texts prepared, as long as that
  keeps them.
* `sessions_formatted`: sessions with a formatter against sessions without.
* `surrogateCatalog_left`: the file stays where it is if it cannot hold the text.
-/

namespace CodecMocks.Tools

open CodecMocks CodecMocks.Files

theorem notMem_keys_of_at? {files : Tree} {place : Place} (h : files.at? place = none) :
    place ∉ files.items.keys := by
  intro hmem
  obtain ⟨item, hitem⟩ := Entries.mem_keys_iff.mp hmem
  unfold Tree.at? at h
  split at h
  · cases h
  · rw [hitem] at h
    cases h

/-- A call that does not change the text gives it back, and no temporary file remains. -/
theorem FormatterCall.format_eq {call : FormatterCall} {files : Tree} {text : String}
    (hending : call.ending.keepsText = true) (hfree : files.at? call.place = none)
    (htext : '\r' ∉ text.toList) :
    ∃ reports, call.format files text = (files, .ok (.ofString text, reports)) := by
  refine ⟨(call.result text).2, ?_⟩
  rw [FormatterCall.format_ofString text (notMem_keys_of_at? hfree),
    FormatterCall.result_fst hending htext]

end CodecMocks.Tools

namespace CodecMocks.Mock

open CodecMocks CodecMocks.Files CodecMocks.Layout CodecMocks.Schema CodecMocks.Text
open CodecMocks.Tools

/-! ### Carriage returns -/

theorem IsEmitted.onOneLine_of_mem_lines {k : MockClass} (h : IsEmitted k) :
    ∀ line ∈ k.lines, OnOneLine line := by
  obtain ⟨htype, hbase⟩ := h.unbroken
  have hmembers : ∀ m ∈ k.members, Suite m := fun _ hm => h.suite_of_mem hm
  exact (suite_classLines htype (hbase ▸ htype) hmembers).isRun.onOneLine

theorem return_notMem_preamble {package : CodeText}
    (hpackage : CodePoint.ofChar '\r' ∉ package.toList) :
    ∀ line ∈ preamble package, CodePoint.ofChar '\r' ∉ line.toList := by
  have himport : CodePoint.ofChar '\r' ∉
      ("from " ++ package ++ " import *  # noqa: F403" : CodeText).toList := by
    simp only [CodeText.toList_append, List.mem_append, hpackage, or_false]
    decide
  simp only [preamble, List.forall_mem_cons, himport, not_false_eq_true, true_and]
  decide

/-- No text holds a carriage return, unless the package does. -/
theorem IsEmitted.return_notMem {k : MockClass} (h : IsEmitted k) {package : CodeText}
    (hpackage : CodePoint.ofChar '\r' ∉ package.toList) :
    CodePoint.ofChar '\r' ∉ (classModule package k).text.toList := by
  intro hmem
  rw [toList_text_classModule] at hmem
  rcases mem_intercalate hmem with hend | ⟨part, hpart, hmem⟩
  · exact absurd hend (by decide)
  obtain ⟨line, hline, rfl⟩ := List.mem_map.mp hpart
  rcases List.mem_append.mp hline with hline | hline
  · rcases List.mem_append.mp hline with hline | hline
    · exact return_notMem_preamble hpackage line hline hmem
    · exact (h.onOneLine_of_mem_lines line hline).2 hmem
  · rw [List.mem_singleton.mp hline] at hmem
    cases hmem

theorem return_notMem_of_mem_modulesOf {c : Catalog}
    (hpackage : CodePoint.ofChar '\r' ∉ c.package.toList) {s : Stage} {m : MockModule}
    (hm : .ok (some m) ∈ modulesOf c s) : CodePoint.ofChar '\r' ∉ m.text.toList := by
  obtain ⟨k, hk, rfl⟩ := exists_class_of_mem_modulesOf hm
  exact (isEmitted_of_mem_classesOf hk).return_notMem hpackage

/-- What is made in any stage is made in the stage of all modules. -/
theorem mem_modulesOf_all {c : Catalog} {s : Stage} {made : Except ModuleError (Option MockModule)}
    (h : made ∈ modulesOf c s) : made ∈ modulesOf c .all := by
  cases s with
  | header => exact List.mem_cons.mpr (.inl (List.mem_singleton.mp h))
  | types => exact List.mem_cons_of_mem _ (List.mem_append_left _ h)
  | messages => exact List.mem_cons_of_mem _ (List.mem_append_right _ h)
  | all => exact h

/-! ### Sessions that match -/

section

variable {σ τ ε : Type} {f : σ → τ} {d : Destination σ ε} {d' : Destination τ ε}
  {p : Progress σ} {q : Progress τ}

/-- The modules that a session hands over, each with how far the session is when its turn comes. -/
def Progress.turns (p : Progress σ) (d : Destination σ ε) :
    List (Except ModuleError (Option MockModule)) → List (Progress σ × MockModule)
  | [] => []
  | .error _ :: _ => []
  | .ok none :: rest => p.turns d rest
  | .ok (some m) :: rest =>
    (p, m) ::
      match p.hand d m with
      | (_, some _) => []
      | (p, none) => p.turns d rest

theorem mem_of_mem_turns {modules : List (Except ModuleError (Option MockModule))}
    {turn : Progress σ × MockModule} (h : turn ∈ p.turns d modules) :
    .ok (some turn.2) ∈ modules := by
  induction modules generalizing p with
  | nil => cases h
  | cons made rest ih =>
    match made with
    | .error e => cases h
    | .ok none => exact List.mem_cons_of_mem _ (ih h)
    | .ok (some m) =>
      rcases List.mem_cons.mp h with rfl | h
      · exact List.mem_cons_self
      · split at h
        · cases h
        · exact List.mem_cons_of_mem _ (ih h)

/-- The destination hands a text over as it is. -/
def Destination.Keeps (d : Destination σ ε) (n : Nat) (state : σ) (text : CodeText) : Prop :=
  ∃ reports, d.prepare n state text = (state, .ok (text, reports))

/-- The second destination does with the states `f` leads to what the first does, which takes texts
as they are. -/
structure Destination.Delivers (f : σ → τ) (d : Destination σ ε) (d' : Destination τ ε) : Prop where
  plain : ∀ n state text, d.prepare n state text = (state, .ok (text, []))
  deliver : ∀ n state m, d'.deliver n (f state) m =
    (f (d.deliver n state m).1, (d.deliver n state m).2)

/-- Two sessions have handed over the same modules, and `f` leads from the state of the first to the
state of the second. What they reported may differ. -/
structure Progress.Matches (f : σ → τ) (p : Progress σ) (q : Progress τ) : Prop where
  state : q.state = f p.state
  written : q.written = p.written

/-- Two sessions end the same way and match. -/
def EndAlike (f : σ → τ) {α : Type} (first : Progress σ × α) (second : Progress τ × α) : Prop :=
  second.2 = first.2 ∧ Progress.Matches f first.1 second.1

/-- What it is to hand over a module whose text is kept. -/
theorem hand_of_prepare {m : MockModule} {reports : List LogLine}
    (h : d.prepare p.written.length p.state m.text = (p.state, .ok (m.text, reports))) :
    p.hand d m =
      match d.deliver p.written.length p.state m with
      | (state, some e) => ({ p with state, log := p.log ++ reports }, some e)
      | (state, none) =>
        ({ state
           written := p.written ++ [m.name]
           log := p.log ++ reports ++ [generatedLine m.name] }, none) := by
  rcases hdeliver : d.deliver p.written.length p.state m with ⟨state, _ | e⟩
  · simp only [Progress.hand, h, hdeliver]
  · simp only [Progress.hand, h, hdeliver]

variable (hd : Destination.Delivers f d d')

include hd

theorem hand_matches (h : p.Matches f q) {m : MockModule}
    (hkeeps : d'.Keeps p.written.length (f p.state) m.text) :
    EndAlike f (p.hand d m) (q.hand d' m) := by
  obtain ⟨reports, hprepare⟩ := hkeeps
  rw [← h.state, ← h.written] at hprepare
  have hdeliver : d'.deliver q.written.length q.state m =
      (f (d.deliver p.written.length p.state m).1, (d.deliver p.written.length p.state m).2) := by
    rw [h.state, h.written, hd.deliver]
  rw [hand_of_prepare hprepare, hand_of_prepare (hd.plain _ _ _), hdeliver]
  rcases d.deliver p.written.length p.state m with ⟨state, _ | e⟩
  · exact ⟨rfl, rfl, congrArg (· ++ [m.name]) h.written⟩
  · exact ⟨rfl, rfl, h.written⟩

/-- Sessions match as long as the second hands texts over as they are. -/
theorem handAll_matches (h : p.Matches f q)
    {modules : List (Except ModuleError (Option MockModule))}
    (hkeeps : ∀ turn ∈ p.turns d modules,
      d'.Keeps turn.1.written.length (f turn.1.state) turn.2.text) :
    EndAlike f (p.handAll d modules) (q.handAll d' modules) := by
  induction modules generalizing p q with
  | nil => exact ⟨rfl, h⟩
  | cons made rest ih =>
    match made with
    | .error e => exact ⟨rfl, h⟩
    | .ok none => exact ih h hkeeps
    | .ok (some m) =>
      rw [Progress.turns] at hkeeps
      obtain ⟨hm, hrest⟩ := List.forall_mem_cons.mp hkeeps
      obtain ⟨hend, hmatches⟩ := hand_matches hd h hm
      rw [Progress.handAll, Progress.handAll]
      rcases hp : p.hand d m with ⟨p', e⟩
      rcases hq : q.hand d' m with ⟨q', e'⟩
      rw [hp, hq] at hend hmatches
      rw [hp] at hrest
      obtain rfl : e' = e := hend
      cases e' with
      | some e => exact ⟨rfl, hmatches⟩
      | none => exact ih hmatches hrest

theorem stage_matches (h : p.Matches f q) {c : Catalog} {s : Stage}
    (hkeeps : ∀ turn ∈ p.turns d (modulesOf c s),
      d'.Keeps turn.1.written.length (f turn.1.state) turn.2.text) :
    EndAlike f (p.stage d c s) (q.stage d' c s) := by
  obtain ⟨hend, hmatches⟩ := handAll_matches hd h hkeeps
  rw [Progress.stage, Progress.stage]
  rcases hp : p.handAll d (modulesOf c s) with ⟨p', e⟩
  rcases hq : q.handAll d' (modulesOf c s) with ⟨q', e'⟩
  rw [hp, hq] at hend hmatches
  obtain rfl : e' = e := hend
  cases e' with
  | some e => exact ⟨rfl, hmatches⟩
  | none =>
    by_cases hs : s = .all
    · simp only [hs, if_true]
      exact ⟨rfl, hmatches.state, hmatches.written⟩
    · simp only [hs, if_false]
      exact ⟨rfl, hmatches⟩

theorem stages_matches (h : p.Matches f q) {c : Catalog}
    (hkeeps : ∀ s m, .ok (some m) ∈ modulesOf c s → ∀ n state, d'.Keeps n (f state) m.text)
    (stages : List Stage) : EndAlike f (p.stages d c stages) (q.stages d' c stages) := by
  induction stages generalizing p q with
  | nil => exact ⟨rfl, h⟩
  | cons s rest ih =>
    obtain ⟨hend, hmatches⟩ := stage_matches hd h (c := c) (s := s) fun turn hturn =>
      hkeeps s turn.2 (mem_of_mem_turns hturn) _ _
    rw [Progress.stages, Progress.stages]
    rcases hp : p.stage d c s with ⟨p', e⟩
    rcases hq : q.stage d' c s with ⟨q', e'⟩
    rw [hp, hq] at hend hmatches
    obtain rfl : e' = e := hend
    cases e' with
    | some e => exact ⟨rfl, hmatches⟩
    | none => exact ih hmatches

end

/-! ### Destinations with a formatter -/

section

variable {σ ε : Type} (refuse : Utf8.EncodeFault → ε)
  (deliver : Nat → σ → MockModule → σ × Option ε)
  (formatter : Nat → FormatterCall)

/-- A destination that has texts formatted first. The temporary files are in a tree beside its
state; a text that no file can hold is refused. -/
def formattedDestination : Destination (σ × Tree) ε where
  deliver n state m :=
    let (kept, refusal) := deliver n state.1 m
    ((kept, state.2), refusal)
  prepare n state text :=
    let (files, formatted) := (formatter n).format state.2 text
    ((state.1, files), formatted.mapError refuse)

theorem delivers_formattedDestination (files : Tree) :
    Destination.Delivers (·, files) { deliver }
      (formattedDestination refuse deliver formatter) where
  plain _ _ _ := rfl
  deliver _ _ _ := rfl

variable {formatter}

theorem keeps_formattedDestination {n : Nat} (hending : (formatter n).ending.keepsText = true)
    {files : Tree} (hfree : files.at? (formatter n).place = none) {text : String}
    (htext : '\r' ∉ text.toList) (state : σ) :
    (formattedDestination refuse deliver formatter).Keeps n (state, files) (.ofString text) := by
  obtain ⟨reports, hformat⟩ := FormatterCall.format_eq hending hfree htext
  refine ⟨reports, ?_⟩
  simp [formattedDestination, hformat, Except.mapError]

end

end CodecMocks.Mock

namespace CodecMocks.Command

open CodecMocks CodecMocks.Files CodecMocks.Mock CodecMocks.Schema CodecMocks.Text CodecMocks.Tools

theorem delivers_fileDestination (w : Surroundings) (d : Directory) :
    Destination.Delivers id (fileDestination w d false) (fileDestination w d true) where
  plain _ _ _ := rfl
  deliver _ _ _ := rfl

theorem keeps_fileDestination {w : Surroundings} {n : Nat}
    (hending : (w.formatter n).ending.keepsText = true) {files : Tree}
    (hfree : files.at? (w.formatter n).place = none) {text : String}
    (htext : '\r' ∉ text.toList) (d : Directory) :
    (fileDestination w d true).Keeps n files (.ofString text) := by
  obtain ⟨reports, hformat⟩ := FormatterCall.format_eq hending hfree htext
  refine ⟨reports, ?_⟩
  simp [fileDestination, hformat, Except.mapError]

/-- **A formatter that does not succeed does no harm.** However the calls of the formatter end, as
long as none that succeeds changes the file, and whatever the names of a schema are, as long as they
put no surrogate into a text, the sessions with it and without it end the same way, hand over the
same modules with the same texts, and leave no temporary file. This holds of a destination of any
kind, with the temporary files beside it, and of files, with the temporary files among them, as long
as nothing is at the place of a temporary file when it is made. -/
theorem sessions_formatted {c : Catalog} (hpackage : CodePoint.ofChar '\r' ∉ c.package.toList)
    (hplain : ∀ m : MockModule, .ok (some m) ∈ modulesOf c .all →
      ∃ text : String, m.text = .ofString text)
    {w : Surroundings} (hendings : ∀ n, (w.formatter n).ending.keepsText = true) :
    (∀ {σ ε : Type} (refuse : Utf8.EncodeFault → ε)
        (deliver : Nat → σ → MockModule → σ × Option ε) (state : σ) (files : Tree)
        (stages : List Stage), (∀ n, files.at? (w.formatter n).place = none) →
      let plain := ({ state } : Progress σ).stages { deliver } c stages
      let formatted := ({ state := (state, files) } : Progress (σ × Tree)).stages
        (formattedDestination refuse deliver w.formatter) c stages
      formatted.2 = plain.2 ∧ formatted.1.written = plain.1.written ∧
        formatted.1.state = (plain.1.state, files)) ∧
    (∀ (directory : String) (files : Tree) (log : List LogLine),
      (∀ turn ∈ ({ state := files, log } : Progress Tree).turns
          (fileDestination w ⟨directory⟩ false) (modulesOf c .all),
        turn.1.state.at? (w.formatter turn.1.written.length).place = none) →
      let plain := generate w directory false c files log
      let formatted := generate w directory true c files log
      formatted.2 = plain.2 ∧ formatted.1.written = plain.1.written ∧
        formatted.1.state = plain.1.state) := by
  have htexts {s : Stage} {m : MockModule} (hm : .ok (some m) ∈ modulesOf c s) :
      ∃ text : String, m.text = .ofString text ∧ '\r' ∉ text.toList := by
    obtain ⟨text, htext⟩ := hplain m (mem_modulesOf_all hm)
    have hreturn := return_notMem_of_mem_modulesOf hpackage hm
    rw [htext, CodeText.toList_ofString] at hreturn
    exact ⟨text, htext, fun hmem => hreturn (List.mem_map_of_mem hmem)⟩
  constructor
  · intro σ ε refuse deliver state files stages hfree
    have hkeeps : ∀ (s : Stage) (m : MockModule), .ok (some m) ∈ modulesOf c s →
        ∀ n (state : σ),
          (formattedDestination refuse deliver w.formatter).Keeps n (state, files) m.text := by
      intro s m hm n state
      obtain ⟨text, htext, hreturn⟩ := htexts hm
      rw [htext]
      exact keeps_formattedDestination refuse deliver (hendings n) (hfree n) hreturn state
    obtain ⟨hend, hmatches⟩ :=
      stages_matches (delivers_formattedDestination refuse deliver w.formatter files)
        (p := { state }) (q := { state := (state, files) }) ⟨rfl, rfl⟩ hkeeps stages
    exact ⟨hend, hmatches.written, hmatches.state⟩
  · intro directory files log hfree
    let start : Progress Tree := { state := files, log }
    have hkeeps : ∀ turn ∈ start.turns (fileDestination w ⟨directory⟩ false) (modulesOf c .all),
        (fileDestination w ⟨directory⟩ true).Keeps turn.1.written.length turn.1.state
          turn.2.text := by
      intro turn hturn
      obtain ⟨text, htext, hreturn⟩ := htexts (mem_of_mem_turns hturn)
      rw [htext]
      exact keeps_fileDestination (hendings _) (hfree turn hturn) hreturn ⟨directory⟩
    obtain ⟨hend, hmatches⟩ := stage_matches (delivers_fileDestination w ⟨directory⟩)
      (p := start) (q := start) ⟨rfl, rfl⟩ hkeeps
    exact ⟨hend, hmatches.written, hmatches.state⟩

/-- A formatter that is missing at first, then is killed while it works on the file, and leaves all
later files as they are. -/
def failingFormatter : Surroundings where
  root := "/"
  formatter n :=
    { path := "/tmp/mock.py"
      ending :=
        match n with
        | 0 => .missing
        | 1 => .failed (-9) [0xFF] [0x0D]
        | _ => .succeeded none }
  limits := atTop.limits

/-- A tree with one directory. -/
def loneDirectory : Tree :=
  { items := [(["out"], .directory)] }

theorem brokenCatalog_formatted :
    (CodePoint.ofChar '\r' ∉ brokenCatalog.package.toList ∧
        (∀ m : MockModule, .ok (some m) ∈ modulesOf brokenCatalog .all →
          ∃ text : String, m.text = .ofString text) ∧
        ∀ n, (failingFormatter.formatter n).ending.keepsText = true) ∧
      (∀ n, loneDirectory.at? (failingFormatter.formatter n).place = none) ∧
      (∀ turn ∈ ({ state := loneDirectory } : Progress Tree).turns
          (fileDestination failingFormatter ⟨"/out"⟩ false) (modulesOf brokenCatalog .all),
        turn.1.state.at? (failingFormatter.formatter turn.1.written.length).place = none) ∧
      (generate failingFormatter "/out" true brokenCatalog loneDirectory []).1.written =
        (["MessageHeaderMock", "FlAgsMock", "TrAdeMock"] : List CodeText) ∧
      (generate failingFormatter "/out" true brokenCatalog loneDirectory []).1.state =
        (generate failingFormatter "/out" false brokenCatalog loneDirectory []).1.state := by
  have hpackage : CodePoint.ofChar '\r' ∉ brokenCatalog.package.toList := by decide
  have hplain : ∀ m : MockModule, .ok (some m) ∈ modulesOf brokenCatalog .all →
      ∃ text : String, m.text = .ofString text :=
    plain_of_mem_modulesOf (by decide +kernel)
  have hendings : ∀ n, (failingFormatter.formatter n).ending.keepsText = true := by
    intro n
    match n with
    | 0 | 1 | _ + 2 => rfl
  have hfree : ∀ n, loneDirectory.at? (failingFormatter.formatter n).place = none := by
    intro n
    show loneDirectory.at? (components "/tmp/mock.py") = none
    decide
  have hturns : ∀ turn ∈ ({ state := loneDirectory } : Progress Tree).turns
      (fileDestination failingFormatter ⟨"/out"⟩ false) (modulesOf brokenCatalog .all),
      turn.1.state.at? (failingFormatter.formatter turn.1.written.length).place = none := by
    decide +kernel
  have hwritten :
      (generate failingFormatter "/out" false brokenCatalog loneDirectory []).1.written =
        (["MessageHeaderMock", "FlAgsMock", "TrAdeMock"] : List CodeText) := by
    decide +kernel
  obtain ⟨-, hsame, hstate⟩ :=
    (sessions_formatted hpackage hplain hendings).2 "/out" loneDirectory [] hturns
  exact ⟨⟨hpackage, hplain, hendings⟩, hfree, hturns, hsame.trans hwritten, hstate⟩

/-- A destination in memory, which refuses nothing by itself. -/
def keepModule (_ : Nat) (kept : Shelf) (m : MockModule) : Shelf × Option Utf8.EncodeFault :=
  (Entries.put m.name m.text kept, none)

/-- A formatter that is never started needs its file all the same. A text that the file cannot hold
stops the session that the formatter is used in, and the file stays. -/
theorem surrogateCatalog_left :
    let plain := ({ state := [] } : Progress Shelf).stage { deliver := keepModule }
      surrogateCatalog .all
    let formatted := ({ state := ([], {}) } : Progress (Shelf × Tree)).stage
      (formattedDestination id keepModule atTop.formatter) surrogateCatalog .all
    CodePoint.ofChar '\r' ∉ surrogateCatalog.package.toList ∧
      (∀ tokens ∈ surrogateCatalog.types ++ surrogateCatalog.messages, tokens ≠ []) ∧
      (∀ n, (atTop.formatter n).ending = .missing) ∧
      plain.2 = none ∧ plain.1.state.keys = carUnits.map .ofString ∧
      formatted.2 = some (.refused ⟨surrogate, 221, 1⟩) ∧
      formatted.1.state.1.keys = (["MessageHeaderMock"] : List CodeText) ∧
      formatted.1.state.2.read "/mock.py" = .ok [] := by
  refine ⟨by decide, by decide, fun _ => rfl, ?_⟩
  decide +kernel

end CodecMocks.Command
