import CodecMocks.Layout.Outline
import CodecMocks.Text.Blank
import Mathlib.Data.List.Chain

/-!
# The layout of lines

`IsLaidOut` states what the lines of a class look like one after the other: where they are indented,
where blank lines stand and how lines end. It only looks at characters. `Suite` is a grammar of
lines: statements, blocks under a heading, and the ways to put two runs of lines one after the
other.

* `Suite.isRun`: what the grammar admits has the layout, by induction on how it is made.
* `isLaidOut_of_suite`: the lines of a class whose content the grammar admits are laid out.
-/

namespace CodecMocks.Layout

open CodecMocks.Text

/-! ### Lines -/

/-- The number of spaces that a line starts with. -/
def indentOf (line : CodeText) : Nat :=
  (line.toList.takeWhile (· == CodePoint.ofChar ' ')).length

/-- The text of a line starts with a word, at any indentation. -/
def startsWith (word line : CodeText) : Bool :=
  word.toList.isPrefixOf (line.toList.dropWhile (· == CodePoint.ofChar ' '))

/-- The words that begin the headings of blocks. -/
def headingWords : List CodeText :=
  ["class ", "def ", "if "]

/-- The line is the heading of a block. -/
def opensBlock (line : CodeText) : Bool :=
  headingWords.any (startsWith · line)

/-- The lines of a class are laid out. A blank line is empty, since no line ends in a blank.

* The first line, which begins a class, is not indented. All others are indented by a multiple of
  four.
* The heading of a block is followed by a line of the block at once, four spaces further in. From
  one line to the next that is not blank the indentation grows nowhere else.
* No two blank lines follow each other, and no line ends in a blank. -/
structure IsLaidOut (lines : List CodeText) : Prop where
  outermost : ∃ heading rest, lines = heading :: rest ∧ startsWith "class " heading = true ∧
    indentOf heading = 0 ∧ ∀ line ∈ rest, line ≠ "" → ∃ n, indentOf line = 4 * (n + 1)
  opened : lines.IsChain fun a b => opensBlock a = true → b ≠ "" ∧ indentOf b = indentOf a + 4
  closed : ∀ line ∈ lines.getLast?, opensBlock line = false
  deeper : (lines.filter (· ≠ ("" : CodeText))).IsChain fun a b =>
    indentOf b ≤ indentOf a ∨ opensBlock a = true
  apart : lines.IsChain fun a b => a ≠ ("" : CodeText) ∨ b ≠ ("" : CodeText)
  ends : ∀ line ∈ lines, ∀ c ∈ line.toList.getLast?, isBlank c = false

theorem takeWhile_indentation (depth : Nat) (cs : List CodePoint) :
    ((indentation depth).toList ++ cs).takeWhile (· == CodePoint.ofChar ' ') =
      List.replicate (4 * depth) (CodePoint.ofChar ' ') ++
        cs.takeWhile (· == CodePoint.ofChar ' ') := by
  rw [toList_indentation]
  apply List.takeWhile_append_of_pos
  intro c hc
  rw [List.eq_of_mem_replicate hc]
  rfl

theorem indentOf_indented (depth : Nat) {line : CodeText} (h : line ≠ "") :
    indentOf (indented depth line) = 4 * depth + indentOf line := by
  rw [indented_of_ne_empty depth h, indentOf, CodeText.toList_append, takeWhile_indentation,
    List.length_append, List.length_replicate, indentOf]

theorem startsWith_indented (depth : Nat) (word line : CodeText) :
    startsWith word (indented depth line) = startsWith word line := by
  by_cases h : line = ""
  · rw [h, indented_empty]
  · rw [indented_of_ne_empty depth h, startsWith, CodeText.toList_append, toList_indentation,
      List.dropWhile_append_of_pos]
    · rfl
    · intro c hc
      rw [List.eq_of_mem_replicate hc]
      rfl

theorem opensBlock_indented (depth : Nat) (line : CodeText) :
    opensBlock (indented depth line) = opensBlock line := by
  simp only [opensBlock, startsWith_indented]

theorem indented_eq_empty_iff {depth : Nat} {line : CodeText} :
    indented depth line = "" ↔ line = "" := by
  constructor
  · intro h
    by_contra hline
    exact indented_ne_empty depth hline h
  · rintro rfl
    exact indented_empty depth

theorem ne_empty_of_opensBlock {line : CodeText} (h : opensBlock line = true) : line ≠ "" := by
  rintro rfl
  exact absurd h (by decide)

/-! ### Statements -/

/-- The text begins with a character that is no blank. -/
def beginsSolid (text : CodeText) : Bool :=
  text.toList.head?.any (!isBlank ·)

/-- The text ends with a character that is no blank. -/
def endsSolid (text : CodeText) : Bool :=
  text.toList.getLast?.any (!isBlank ·)

/-- The text has neither a line feed nor a carriage return. -/
def OnOneLine (text : CodeText) : Prop :=
  CodePoint.ofChar '\n' ∉ text.toList ∧ CodePoint.ofChar '\r' ∉ text.toList

instance (text : CodeText) : Decidable (OnOneLine text) :=
  inferInstanceAs
    (Decidable (CodePoint.ofChar '\n' ∉ text.toList ∧ CodePoint.ofChar '\r' ∉ text.toList))

/-- The text of a line without its indentation. -/
structure IsStatement (text : CodeText) : Prop where
  begins : beginsSolid text = true
  ends : endsSolid text = true
  onOneLine : OnOneLine text

theorem onOneLine_iff {text : CodeText} :
    OnOneLine text ↔ ∀ c ∈ text.toList, c ≠ .ofChar '\n' ∧ c ≠ .ofChar '\r' := by
  constructor
  · rintro ⟨hfeed, hreturn⟩ c hc
    constructor
    · rintro rfl
      exact hfeed hc
    · rintro rfl
      exact hreturn hc
  · intro h
    exact ⟨fun hfeed => (h _ hfeed).1 rfl, fun hreturn => (h _ hreturn).2 rfl⟩

theorem beginsSolid_append {a : CodeText} (h : beginsSolid a = true) (b : CodeText) :
    beginsSolid (a ++ b) = true := by
  unfold beginsSolid at h ⊢
  rw [CodeText.toList_append]
  cases hchars : a.toList with
  | nil =>
    rw [hchars] at h
    cases h
  | cons c cs =>
    rw [hchars] at h
    exact h

theorem endsSolid_append (a : CodeText) {b : CodeText} (h : endsSolid b = true) :
    endsSolid (a ++ b) = true := by
  unfold endsSolid at h ⊢
  rw [CodeText.toList_append]
  cases hlast : b.toList.getLast? with
  | none =>
    rw [hlast] at h
    cases h
  | some c =>
    rw [List.getLast?_append, hlast]
    rw [hlast] at h
    exact h

theorem OnOneLine.append {a b : CodeText} (ha : OnOneLine a) (hb : OnOneLine b) :
    OnOneLine (a ++ b) := by
  rw [OnOneLine, CodeText.toList_append, List.mem_append, List.mem_append, not_or, not_or]
  exact ⟨⟨ha.1, hb.1⟩, ha.2, hb.2⟩

/-- Indentation adds no line end. -/
theorem OnOneLine.indented {line : CodeText} (h : OnOneLine line) (depth : Nat) :
    OnOneLine (indented depth line) := by
  by_cases hline : line = ""
  · rw [hline, indented_empty]
    decide
  · rw [indented_of_ne_empty depth hline]
    refine OnOneLine.append (onOneLine_iff.mpr ?_) h
    intro c hc
    rw [toList_indentation] at hc
    rw [List.eq_of_mem_replicate hc]
    decide

namespace IsStatement

variable {text : CodeText}

theorem ne_empty (h : IsStatement text) : text ≠ "" := by
  rintro rfl
  exact absurd h.begins (by decide)

theorem indentOf_eq_zero (h : IsStatement text) : indentOf text = 0 := by
  have hbegins := h.begins
  unfold beginsSolid at hbegins
  unfold indentOf
  cases hchars : text.toList with
  | nil => rfl
  | cons c cs =>
    rw [hchars] at hbegins
    have hspace : (c == CodePoint.ofChar ' ') = false := by
      rw [beq_eq_false_iff_ne]
      rintro rfl
      have hblank : isBlank ' ' = true := by decide
      simp [hblank] at hbegins
    rw [List.takeWhile_cons, hspace]
    rfl

theorem isBlank_last (h : IsStatement text) : ∀ c ∈ text.toList.getLast?, isBlank c = false := by
  intro c hc
  have hends := h.ends
  rw [endsSolid, hc] at hends
  simpa using hends

end IsStatement

/-! ### Runs of lines -/

/-- The lines of statements that follow each other at one indentation, seen from there. -/
inductive Suite : List CodeText → Prop where
  | line {text : CodeText} (h : IsStatement text) (hplain : opensBlock text = false) : Suite [text]
  | block {heading : CodeText} {inner : List CodeText} (h : IsStatement heading)
      (hopens : opensBlock heading = true) (hinner : Suite inner) :
      Suite (heading :: inner.map (indented 1))
  | next {first second : List CodeText} (hfirst : Suite first) (hsecond : Suite second) :
      Suite (first ++ second)
  | apart {first second : List CodeText} (hfirst : Suite first) (hsecond : Suite second) :
      Suite (first ++ ("" : CodeText) :: second)

/-- The layout of a run of lines, seen from the indentation of its first line. -/
structure IsRun (lines : List CodeText) : Prop where
  first : ∃ line ∈ lines.head?, line ≠ "" ∧ indentOf line = 0
  last : ∀ line ∈ lines.getLast?, line ≠ "" ∧ opensBlock line = false
  steps : ∀ line ∈ lines, 4 ∣ indentOf line
  opened : lines.IsChain fun a b => opensBlock a = true → b ≠ "" ∧ indentOf b = indentOf a + 4
  deeper : (lines.filter (· ≠ ("" : CodeText))).IsChain fun a b =>
    indentOf b ≤ indentOf a ∨ opensBlock a = true
  apart : lines.IsChain fun a b => a ≠ ("" : CodeText) ∨ b ≠ ("" : CodeText)
  ends : ∀ line ∈ lines, ∀ c ∈ line.toList.getLast?, isBlank c = false
  onOneLine : ∀ line ∈ lines, OnOneLine line

namespace IsRun

variable {a b : List CodeText}

theorem ne_nil (h : IsRun a) : a ≠ [] := by
  rintro rfl
  obtain ⟨line, hline, -⟩ := h.first
  cases hline

theorem head_filter (h : IsRun a) : (a.filter (· ≠ ("" : CodeText))).head? = a.head? := by
  obtain ⟨line, hline, hne, -⟩ := h.first
  cases a with
  | nil => cases hline
  | cons first rest =>
    cases hline
    rw [List.filter_cons_of_pos (by simpa using hne)]
    rfl

/-- A single statement is a run. -/
theorem single {text : CodeText} (h : IsStatement text) (hplain : opensBlock text = false) :
    IsRun [text] := by
  have honly : ∀ line ∈ [text], line = text := fun line hline => List.mem_singleton.mp hline
  constructor
  · exact ⟨text, rfl, h.ne_empty, h.indentOf_eq_zero⟩
  · intro line hline
    cases hline
    exact ⟨h.ne_empty, hplain⟩
  · intro line hline
    rw [honly line hline, h.indentOf_eq_zero]
    exact Nat.dvd_zero 4
  · exact List.isChain_singleton text
  · rw [List.filter_cons_of_pos (by simpa using h.ne_empty)]
    exact List.isChain_singleton text
  · exact List.isChain_singleton text
  · intro line hline
    rw [honly line hline]
    exact h.isBlank_last
  · intro line hline
    rw [honly line hline]
    exact h.onOneLine

/-- A run can follow another, with or without a blank line between them. -/
theorem append (ha : IsRun a) (hb : IsRun b) {gap : List CodeText}
    (hgap : gap = [] ∨ gap = [("" : CodeText)]) :
    IsRun (a ++ (gap ++ b)) := by
  obtain ⟨first, hfirst, hfirstNe, hfirstIndent⟩ := hb.first
  have hblank : ∀ line ∈ gap, line = "" := by
    intro line hline
    rcases hgap with rfl | rfl
    · cases hline
    · exact List.mem_singleton.mp hline
  have hparts {P : CodeText → Prop} (hempty : P "") (hPa : ∀ line ∈ a, P line)
      (hPb : ∀ line ∈ b, P line) : ∀ line ∈ a ++ (gap ++ b), P line := by
    intro line hline
    rcases List.mem_append.mp hline with hline | hline
    · exact hPa line hline
    rcases List.mem_append.mp hline with hline | hline
    · rw [hblank line hline]
      exact hempty
    · exact hPb line hline
  constructor
  · obtain ⟨line, hline, hrest⟩ := ha.first
    exact ⟨line, by rw [List.head?_append, hline]; rfl, hrest⟩
  · rw [List.getLast?_append_of_ne_nil _ (by simp [hb.ne_nil]),
      List.getLast?_append_of_ne_nil _ hb.ne_nil]
    exact hb.last
  · exact hparts (by decide) ha.steps hb.steps
  · refine List.isChain_append.mpr ⟨ha.opened, ?_, ?_⟩
    · rcases hgap with rfl | rfl
      · exact hb.opened
      · refine List.isChain_cons.mpr ⟨?_, hb.opened⟩
        intro line _ hopens
        exact absurd hopens (by decide)
    · intro line hline _ _ hopens
      rw [(ha.last line hline).2] at hopens
      cases hopens
  · have hfilter : gap.filter (· ≠ ("" : CodeText)) = [] := by
      rw [List.filter_eq_nil_iff]
      intro line hline
      simp [hblank line hline]
    rw [List.filter_append, List.filter_append, hfilter, List.nil_append]
    refine List.isChain_append.mpr ⟨ha.deeper, hb.deeper, ?_⟩
    intro x _ y hy
    rw [hb.head_filter, hfirst] at hy
    cases hy
    rw [hfirstIndent]
    exact .inl (Nat.zero_le _)
  · refine List.isChain_append.mpr ⟨ha.apart, ?_, ?_⟩
    · rcases hgap with rfl | rfl
      · exact hb.apart
      · refine List.isChain_cons.mpr ⟨?_, hb.apart⟩
        intro line hline
        change line ∈ b.head? at hline
        rw [hfirst] at hline
        cases hline
        exact .inr hfirstNe
    · intro line hline _ _
      exact .inl (ha.last line hline).1
  · exact hparts (fun c hc => nomatch hc) ha.ends hb.ends
  · exact hparts (by decide) ha.onOneLine hb.onOneLine

/-- A heading with a run further in under it is a run. -/
theorem block {heading : CodeText} (h : IsStatement heading) (hopens : opensBlock heading = true)
    (ha : IsRun a) : IsRun (heading :: a.map (indented 1)) := by
  obtain ⟨first, hfirst, hfirstNe, hfirstIndent⟩ := ha.first
  have hparts {P : CodeText → Prop} (hheading : P heading) (hP : ∀ line ∈ a, P (indented 1 line)) :
      ∀ line ∈ heading :: a.map (indented 1), P line := by
    intro line hline
    rcases List.mem_cons.mp hline with rfl | hline
    · exact hheading
    · obtain ⟨inner, hinner, rfl⟩ := List.mem_map.mp hline
      exact hP inner hinner
  constructor
  · exact ⟨heading, rfl, h.ne_empty, h.indentOf_eq_zero⟩
  · intro line hline
    rw [List.getLast?_cons_of_ne_nil (by simp [ha.ne_nil]), List.getLast?_map] at hline
    obtain ⟨inner, hinner, rfl⟩ := Option.map_eq_some_iff.mp hline
    obtain ⟨hne, hplain⟩ := ha.last inner hinner
    exact ⟨indented_ne_empty 1 hne, by rw [opensBlock_indented, hplain]⟩
  · refine hparts ?_ ?_
    · rw [h.indentOf_eq_zero]
      exact Nat.dvd_zero 4
    · intro line hline
      by_cases hne : line = ""
      · rw [hne, indented_empty]
        decide
      · rw [indentOf_indented 1 hne]
        exact Nat.dvd_add (Nat.dvd_mul_right 4 1) (ha.steps line hline)
  · refine List.isChain_cons.mpr ⟨?_, ?_⟩
    · intro line hline _
      rw [List.head?_map, hfirst] at hline
      cases hline
      refine ⟨indented_ne_empty 1 hfirstNe, ?_⟩
      rw [indentOf_indented 1 hfirstNe, hfirstIndent, h.indentOf_eq_zero]
    · rw [List.isChain_map]
      refine ha.opened.imp ?_
      intro x y hxy hx
      rw [opensBlock_indented] at hx
      obtain ⟨hne, hindent⟩ := hxy hx
      refine ⟨indented_ne_empty 1 hne, ?_⟩
      rw [indentOf_indented 1 hne, indentOf_indented 1 (ne_empty_of_opensBlock hx), hindent,
        Nat.add_assoc]
  · have hblank :
        ((· ≠ ("" : CodeText)) : CodeText → Bool) ∘ indented 1 = (· ≠ ("" : CodeText)) := by
      funext line
      simp [indented_eq_empty_iff]
    rw [List.filter_cons_of_pos (by simpa using h.ne_empty), List.filter_map, hblank]
    refine List.isChain_cons.mpr ⟨fun _ _ => .inr hopens, ?_⟩
    rw [List.isChain_map]
    refine ha.deeper.imp_of_mem_imp ?_
    intro x y hx hy hxy
    have hxNe : x ≠ "" := by simpa using (List.mem_filter.mp hx).2
    have hyNe : y ≠ "" := by simpa using (List.mem_filter.mp hy).2
    rw [indentOf_indented 1 hxNe, indentOf_indented 1 hyNe, opensBlock_indented]
    rcases hxy with hless | hopens
    · exact .inl (Nat.add_le_add_left hless _)
    · exact .inr hopens
  · refine List.isChain_cons.mpr ⟨fun _ _ => .inl h.ne_empty, ?_⟩
    rw [List.isChain_map]
    refine ha.apart.imp ?_
    intro x y hxy
    rwa [Ne, Ne, indented_eq_empty_iff, indented_eq_empty_iff]
  · refine hparts h.isBlank_last ?_
    intro line hline c hc
    by_cases hne : line = ""
    · rw [hne, indented_empty] at hc
      cases hc
    · rw [indented_of_ne_empty 1 hne, CodeText.toList_append, List.getLast?_append_of_ne_nil] at hc
      · exact ha.ends line hline c hc
      · simpa using hne
  · exact hparts h.onOneLine fun line hline => (ha.onOneLine line hline).indented 1

end IsRun

/-- **The grammar has the layout.** -/
theorem Suite.isRun {lines : List CodeText} (h : Suite lines) : IsRun lines := by
  induction h with
  | line h hplain => exact .single h hplain
  | block h hopens _ ih => exact .block h hopens ih
  | next _ _ ihFirst ihSecond => exact ihFirst.append ihSecond (.inl rfl)
  | apart _ _ ihFirst ihSecond => exact ihFirst.append ihSecond (.inr rfl)

/-- The lines of a class whose content the grammar admits are laid out. -/
theorem isLaidOut_of_suite {heading : CodeText} {inner : List CodeText} (h : IsStatement heading)
    (hclass : startsWith "class " heading = true) (hinner : Suite inner) :
    IsLaidOut (heading :: inner.map (indented 1)) := by
  have hopens : opensBlock heading = true := by
    simp [opensBlock, headingWords, hclass]
  have hrun := (Suite.block h hopens hinner).isRun
  constructor
  · refine ⟨heading, _, rfl, hclass, h.indentOf_eq_zero, ?_⟩
    intro line hline hne
    obtain ⟨inside, hinside, rfl⟩ := List.mem_map.mp hline
    obtain ⟨n, hn⟩ := hinner.isRun.steps inside hinside
    refine ⟨n, ?_⟩
    rw [indentOf_indented 1 (mt indented_eq_empty_iff.mpr hne), hn]
    omega
  · exact hrun.opened
  · intro line hline
    exact (hrun.last line hline).2
  · exact hrun.deeper
  · exact hrun.apart
  · exact hrun.ends

end CodecMocks.Layout
