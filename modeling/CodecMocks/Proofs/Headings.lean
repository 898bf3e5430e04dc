import CodecMocks.Proofs.Emission

/-!
# Class headings among lines

The lines of a class body are searched for those that begin a class. `isClassLine` looks at the text
of a line only; that it finds the headings of group classes and nothing else is proved here.

* `headings_continuation`, `headings_blockLines`: the class lines of a block are those of its
  members.
* `headings_forestBody`: the class lines that a forest adds are the headings of its groups in order,
  each indented once for every group around it and with the path of these groups as its base.
-/

namespace CodecMocks.Mock

open CodecMocks.Layout CodecMocks.Naming CodecMocks.Schema

/-- The line begins a class, at any indentation. -/
def isClassLine (line : CodeText) : Bool :=
  ("class " : CodeText).toList.isPrefixOf (line.toList.dropWhile (· == CodePoint.ofChar ' '))

/-- The class lines among the lines of members. -/
def headings (members : List (List CodeText)) : List CodeText :=
  members.flatMap (·.filter isClassLine)

/-- A group as it is begun: the names of the groups around it, the outermost first, and its own. -/
structure Opening where
  around : List CodeText
  name : CodeText
deriving DecidableEq, Repr

namespace Opening

/-- The path of the class of the group, where the outermost group is declared in the class at path
`parent`. -/
def base (parent : CodeText) (g : Opening) : CodeText :=
  (g.around ++ [g.name]).foldl (fun path name => path ++ "." ++ className name) parent

/-- The heading of the class of the group. -/
def heading (parent : CodeText) (g : Opening) : CodeText :=
  indented g.around.length (classHeading (mockName (className g.name)) [.plain (g.base parent)])

/-- The same group inside of more groups. -/
def within (around : List CodeText) (g : Opening) : Opening :=
  { g with around := around ++ g.around }

theorem within_within (outer inner : List CodeText) (g : Opening) :
    (g.within inner).within outer = g.within (outer ++ inner) := by
  simp [within]

/-- The heading inside of a group is the heading in the class of that group, indented once more. -/
theorem heading_within (parent name : CodeText) (g : Opening) :
    (g.within [name]).heading parent =
      indented 1 (g.heading (parent ++ "." ++ className name)) := by
  rw [heading, heading, indented_indented, Nat.add_comm]
  rfl

end Opening

/-- The groups of a forest in the order in which they are begun. -/
def forestOpenings : GroupForest → List Opening
  | .nil => []
  | .group marker _ nested next =>
    ⟨[], marker.name⟩ ::
      ((forestOpenings nested).map (·.within [marker.name]) ++ forestOpenings next)

/-! ### Lines that begin no class -/

/-- The text has a character other than a blank, and the first is not that of `class`. -/
def startsPlain (text : CodeText) : Bool :=
  (text.toList.dropWhile (· == CodePoint.ofChar ' ')).head?.any (· != CodePoint.ofChar 'c')

theorem startsPlain_append {first : CodeText} (h : startsPlain first = true) (rest : CodeText) :
    startsPlain (first ++ rest) = true := by
  unfold startsPlain at h ⊢
  rw [CodeText.toList_append, List.dropWhile_append]
  cases hfirst : first.toList.dropWhile (· == CodePoint.ofChar ' ') with
  | nil =>
    rw [hfirst] at h
    cases h
  | cons c cs =>
    rw [hfirst] at h
    exact h

theorem isClassLine_of_startsPlain {line : CodeText} (h : startsPlain line = true) :
    isClassLine line = false := by
  unfold startsPlain at h
  unfold isClassLine
  cases hline : line.toList.dropWhile (· == CodePoint.ofChar ' ') with
  | nil => rfl
  | cons c cs =>
    rw [hline] at h
    have hne : (CodePoint.ofChar 'c' == c) = false := by
      rw [beq_eq_false_iff_ne]
      rintro rfl
      cases h
    show (CodePoint.ofChar 'c' == c && _) = false
    rw [hne]
    rfl

theorem isClassLine_indented (depth : Nat) (line : CodeText) :
    isClassLine (indented depth line) = isClassLine line := by
  by_cases h : line = ""
  · rw [h, indented_empty]
  · have hblank : ∀ c ∈ List.replicate (4 * depth) (CodePoint.ofChar ' '),
        (c == CodePoint.ofChar ' ') = true := by
      intro c hc
      rw [List.eq_of_mem_replicate hc]
      rfl
    rw [indented_of_ne_empty depth h, isClassLine, CodeText.toList_append, toList_indentation,
      List.dropWhile_append_of_pos hblank]
    rfl

theorem isClassLine_classHeading (name : CodeText) (base : Parameter) :
    isClassLine (classHeading name [base]) = true := by
  simp [isClassLine, classHeading, CodeText.toList_ofString]

theorem startsPlain_functionHeading (name : CodeText) (parameters : List Parameter)
    (returns : CodeText) : startsPlain (functionHeading name parameters returns) = true := by
  simp only [functionHeading, CodeText.append_assoc]
  exact startsPlain_append (by decide) _

theorem Property.startsPlain_of_mem {p : Property} {m : List CodeText} (hm : m ∈ p.members)
    {line : CodeText} (hline : line ∈ m) : startsPlain line = true := by
  simp only [Property.members, List.mem_cons, List.not_mem_nil, or_false] at hm
  rcases hm with rfl | rfl | rfl
  · rw [List.mem_singleton.mp hline]
    unfold TypedVariable.text storageName
    split <;> simp only [CodeText.append_assoc] <;> exact startsPlain_append (by decide) _
  · rcases List.mem_cons.mp hline with rfl | hline
    · exact startsPlain_functionHeading ..
    · rw [List.mem_singleton.mp hline]
      exact startsPlain_append (by decide) _
  · rcases List.mem_cons.mp hline with rfl | hline
    · exact startsPlain_functionHeading ..
    · rcases List.mem_cons.mp hline with rfl | hline
      · simp only [CodeText.append_assoc]
        exact startsPlain_append (by decide) _
      · rw [List.mem_singleton.mp hline]
        decide

theorem startsPlain_of_mem_cursorMembers {mock base : CodeText} :
    ∀ m ∈ cursorMembers mock base, ∀ line ∈ m, startsPlain line = true := by
  have hremove : startsPlain ("    raise TypeError(\"" ++ mock ++
      " fixtures cannot be removed\")") = true := by
    simp only [CodeText.append_assoc]
    exact startsPlain_append (by decide) _
  simp only [cursorMembers, List.forall_mem_cons, startsPlain_functionHeading, hremove, true_and]
  decide

/-! ### The class lines of members -/

theorem headings_append (ms ns : List (List CodeText)) :
    headings (ms ++ ns) = headings ms ++ headings ns :=
  List.flatMap_append

theorem headings_eq_nil {ms : List (List CodeText)}
    (h : ∀ m ∈ ms, ∀ line ∈ m, startsPlain line = true) : headings ms = [] := by
  rw [headings, List.flatMap_eq_nil_iff]
  intro m hm
  rw [List.filter_eq_nil_iff]
  intro line hline
  rw [isClassLine_of_startsPlain (h m hm line hline)]
  exact Bool.false_ne_true

/-- The blank lines between members are no class lines. -/
theorem headings_continuation (fresh : Bool) (ms : List (List CodeText)) :
    (Outline.continuation fresh ms).filter isClassLine = headings ms := by
  have hrest : ∀ ns : List (List CodeText),
      (ns.flatMap (("" : CodeText) :: ·)).filter isClassLine = headings ns := by
    intro ns
    rw [List.filter_flatMap]
    rfl
  cases fresh with
  | false => exact hrest ms
  | true =>
    cases ms with
    | nil => rfl
    | cons m ms =>
      show ([("" : CodeText)].intercalate (m :: ms)).filter isClassLine = _
      rw [Outline.intercalate_blank_cons, List.filter_append, hrest]
      rfl

theorem headings_blockLines (ms : List (List CodeText)) :
    (blockLines ms).filter isClassLine = headings ms := by
  cases ms with
  | nil => decide
  | cons m ms => exact headings_continuation true (m :: ms)

/-- The class lines of a class are its heading and, indented, those of its members. -/
theorem headings_classLines (typeName base : CodeText) (ms : List (List CodeText)) :
    (classLines typeName base ms).filter isClassLine =
      classHeading (mockName typeName) [.plain base] :: (headings ms).map (indented 1) := by
  rw [classLines, List.filter_cons_of_pos (isClassLine_classHeading _ _), List.filter_map]
  have hindented : isClassLine ∘ indented 1 = isClassLine :=
    funext (isClassLine_indented 1)
  rw [hindented, headings_blockLines]

theorem headings_ofProperties (ps : List Property) :
    headings (ClassBody.ofProperties ps).members = [] := by
  rw [ClassBody.members_ofProperties]
  apply headings_eq_nil
  intro m hm line hline
  obtain ⟨p, -, hm⟩ := List.mem_flatMap.mp hm
  exact Property.startsPlain_of_mem hm hline

/-- **The class lines that a forest adds are the headings of its groups**, in the order in which the
groups are begun. -/
theorem headings_forestBody (parent : CodeText) (reserved : List CodeText) (forest : GroupForest) :
    headings (forestBody parent reserved forest).members =
      (forestOpenings forest).map (·.heading parent) := by
  induction forest generalizing parent reserved with
  | nil => rfl
  | group marker fields nested next ihNested ihNext =>
    let names := GroupNames.of marker.name parent
    let inner := ClassBody.ofProperties (fieldProperties cursorNames fields) ++
      forestBody names.base cursorNames nested
    have hproperty : headings (groupProperty reserved names).members = [] :=
      headings_eq_nil fun m hm line hline => Property.startsPlain_of_mem hm hline
    have hcursor : headings (cursorMembers (mockName names.className) names.base) = [] :=
      headings_eq_nil startsPlain_of_mem_cursorMembers
    have hinner : headings inner.members = (forestOpenings nested).map (·.heading names.base) := by
      rw [ClassBody.members_append, headings_append, headings_ofProperties, ihNested]
      rfl
    have hclass : (classLines names.className names.base
          (cursorMembers (mockName names.className) names.base ++ inner.members)).filter
            isClassLine =
        Opening.heading parent ⟨[], marker.name⟩ ::
          ((forestOpenings nested).map (·.within [marker.name])).map (·.heading parent) := by
      rw [headings_classLines, headings_append, hcursor, hinner, List.nil_append, List.map_map,
        List.map_map]
      refine List.cons_eq_cons.mpr ⟨(indented_zero _).symm, List.map_congr_left fun g _ => ?_⟩
      exact (Opening.heading_within parent marker.name g).symm
    calc headings (forestBody parent reserved (.group marker fields nested next)).members
      _ = headings (groupProperty reserved names).members ++
            ((classLines names.className names.base
              (cursorMembers (mockName names.className) names.base ++ inner.members)).filter
                isClassLine ++ headings (forestBody parent reserved next).members) := by
          exact headings_append _ _
      _ = _ := by
          rw [hproperty, hclass, ihNext]
          simp [forestOpenings]

end CodecMocks.Mock
