import CodecMocks.Proofs.SmallLetters
import CodecMocks.Proofs.WordBoundaries

/-!
# Names in snake case

A property name is in snake case, up to the underscore that a taken name gets. Such a name is
written as it is when a property name is made from it: no pass finds anything to change, and the
underscore of a taken name is trimmed and put back.

* `IsSnakeCase`, `isSnakeCase_snakeCase`: what is made of any text.
* `IsSnakeCase.snakeCase_eq`, `IsSnakeCase.snakeCase_append_underscore`: nothing is left to change.
* `IsPlainName`, `IsPlainName.isIdentifier_propertyName`: the property name of a plain name is an
  identifier.
* `propertyName_normal`: all of this of every property name.
-/

namespace CodecMocks.Naming

open CodecMocks.Text

/-- The name is in snake case: words in small letters with one underscore between them. -/
structure IsSnakeCase (name : CodeText) : Prop where
  noCapital : ∀ c ∈ name.toList, c.isUpper = false
  noHyphen : CodePoint.ofChar '-' ∉ name.toList
  noBlank : Unbroken name
  noLeading : name.toList.head? ≠ some (.ofChar '_')
  noTrailing : name.toList.getLast? ≠ some (.ofChar '_')
  /-- No two underscores come together. -/
  apart : name.toList.IsChain Apart
  /-- The letters of all scripts are small, not those of ASCII alone. -/
  small : ∀ c ∈ name.toList, IsSmall c

/-! ### What the passes leave -/

theorem isSeparator_iff {c : CodePoint} :
    isSeparator c = true ↔ c = '_' ∨ c = '-' ∨ isBlank c = true := by
  simp only [isSeparator, Bool.or_eq_true, beq_iff_eq, or_assoc]

/-- A run of separators is written as one underscore. -/
theorem isChain_apart_collapse (inRun : Bool) (cs : List CodePoint) :
    (collapse inRun cs).IsChain Apart ∧
      (inRun = true → (collapse inRun cs).head? ≠ some (.ofChar '_')) := by
  induction cs generalizing inRun with
  | nil => exact ⟨.nil, fun _ h => nomatch h⟩
  | cons c cs ih =>
    rw [collapse]
    split
    · split
      · next hrun => exact ⟨(ih true).1, fun _ => (ih true).2 rfl⟩
      · next hrun =>
        refine ⟨List.isChain_cons.mpr ⟨?_, (ih true).1⟩, fun h => absurd h hrun⟩
        rintro d hd - rfl
        exact (ih true).2 rfl hd
    · next hc =>
      have hne : c ≠ '_' := fun heq => hc (isSeparator_iff.mpr (.inl heq))
      exact ⟨List.isChain_cons.mpr ⟨fun _ _ heq => absurd heq hne, (ih false).1⟩,
        fun _ hhead => hne (Option.some.inj hhead)⟩

/-- Trimming takes off both ends only. -/
theorem isChain_apart_trimUnderscores {cs : List CodePoint} (h : cs.IsChain Apart) :
    (trimUnderscores cs).IsChain Apart := by
  have hpart : trimUnderscores cs <:+: cs :=
    (List.rdropWhile_prefix (· == CodePoint.ofChar '_') _).isInfix.trans
      (List.dropWhile_suffix (· == CodePoint.ofChar '_')).isInfix
  obtain ⟨front, back, hwhole⟩ := hpart
  rw [← hwhole] at h
  exact (List.isChain_append.mp (List.isChain_append.mp h).1).2.1

theorem getLast_trimUnderscores (cs : List CodePoint) :
    (trimUnderscores cs).getLast? ≠ some (.ofChar '_') := by
  intro h
  have hlast :=
    List.head?_dropWhile_not (· == CodePoint.ofChar '_')
      (cs.dropWhile (· == CodePoint.ofChar '_')).reverse
  rw [trimUnderscores, List.getLast?_reverse] at h
  rw [h] at hlast
  cases hlast

theorem isSnakeCase_snakeCase (cs : List CodePoint) :
    IsSnakeCase (CodeText.ofList (snakeCase cs)) where
  noCapital := (isPropertyName_snakeCase cs).noCapital
  noLeading := (isPropertyName_snakeCase cs).noUnderscore
  noBlank := by
    intro c hc
    rw [CodeText.toList_ofList] at hc
    exact isBlank_of_mem_snakeCase hc
  noHyphen := by
    rw [CodeText.toList_ofList]
    intro hmem
    refine forall_mem_smallAfter (P := (· ≠ CodePoint.ofChar '-')) (by decide)
      (by decide) ?_ '-' hmem rfl
    rintro c hc d hd rfl
    have hhyphen : c = '-' := eq_of_mem_small (by decide) hd
    rcases mem_collapse (mem_of_mem_trimUnderscores hc) with rfl | ⟨-, hseparator⟩
    · exact absurd hhyphen (by decide)
    · rw [hhyphen] at hseparator
      exact absurd hseparator (by decide)
  noTrailing := by
    rw [CodeText.toList_ofList]
    exact fun h => getLast_trimUnderscores _ (getLast_smallAfter h)
  apart := by
    rw [CodeText.toList_ofList]
    exact isChain_apart_smallAfter
      (isChain_apart_trimUnderscores (isChain_apart_collapse false _).1)
  small := by
    rw [CodeText.toList_ofList]
    exact isSmall_of_mem_smallText

/-! ### Texts that the passes keep -/

theorem insertWhere_of_noCapital {a : CodePoint} {cs : List CodePoint}
    (h : ∀ c ∈ cs, c.isUpper = false) :
    insertWhere startsBetween a cs = cs := by
  induction cs generalizing a with
  | nil => rfl
  | cons c cs ih =>
    have hnone : startsBetween a c cs.head? = false := by
      rw [startsBetween, h c List.mem_cons_self, Bool.false_and]
    rw [insertWhere, hnone, ih fun d hd => h d (List.mem_cons_of_mem c hd)]
    rfl

/-- Without capitals no word starts within a text. -/
theorem splitCamel_splitAcronyms_of_noCapital {cs : List CodePoint}
    (h : ∀ c ∈ cs, c.isUpper = false) : splitCamel (splitAcronyms cs) = cs := by
  cases cs with
  | nil => rfl
  | cons c cs =>
    rw [splitCamel_splitAcronyms_cons,
      insertWhere_of_noCapital fun d hd => h d (List.mem_cons_of_mem c hd)]

/-- Single underscores are runs of separators that are written already. -/
theorem collapse_of_apart {cs : List CodePoint}
    (hseparator : ∀ c ∈ cs, isSeparator c = true → c = '_')
    (hapart : cs.IsChain Apart) : collapse false cs = cs := by
  induction cs with
  | nil => rfl
  | cons c cs ih =>
    obtain ⟨hnext, hrest⟩ := List.isChain_cons.mp hapart
    have hkept := ih (fun d hd => hseparator d (List.mem_cons_of_mem c hd)) hrest
    rw [collapse]
    split
    · next hc =>
      have hunderscore := hseparator c List.mem_cons_self hc
      have hhead : ∀ d ∈ cs.head?, isSeparator d = false := by
        intro d hd
        rw [Bool.eq_false_iff]
        intro hd'
        exact hnext d hd hunderscore
          (hseparator d (List.mem_cons_of_mem c (List.mem_of_mem_head? hd)) hd')
      rw [if_neg Bool.false_ne_true, collapse_true_eq_false hhead, hkept, hunderscore]
    · rw [hkept]

theorem dropWhile_underscore {cs : List CodePoint} (h : cs.head? ≠ some (.ofChar '_')) :
    cs.dropWhile (· == CodePoint.ofChar '_') = cs := by
  cases cs with
  | nil => rfl
  | cons c cs =>
    have hc : (c == '_') = false := beq_false_of_ne fun heq => h (congrArg some heq)
    rw [List.dropWhile_cons, hc]
    rfl

theorem trimUnderscores_of_trimmed {cs : List CodePoint} (hhead : cs.head? ≠ some (.ofChar '_'))
    (hlast : cs.getLast? ≠ some (.ofChar '_')) : trimUnderscores cs = cs := by
  rw [← List.head?_reverse] at hlast
  rw [trimUnderscores, dropWhile_underscore hhead, dropWhile_underscore hlast, List.reverse_reverse]

/-- An underscore at the end makes no difference. -/
theorem trimUnderscores_append_underscore (cs : List CodePoint) :
    trimUnderscores (cs ++ [.ofChar '_']) = trimUnderscores cs := by
  unfold trimUnderscores
  rw [List.dropWhile_append]
  split
  · next hempty =>
    rw [List.isEmpty_iff.mp hempty]
    rfl
  · rw [List.reverse_append]
    rfl

namespace IsSnakeCase

variable {s : CodeText}

theorem eq_underscore_of_isSeparator (h : IsSnakeCase s) :
    ∀ c ∈ s.toList, isSeparator c = true → c = '_' := by
  intro c hc hseparator
  rcases isSeparator_iff.mp hseparator with hunderscore | rfl | hblank
  · exact hunderscore
  · exact absurd hc h.noHyphen
  · rw [h.noBlank c hc] at hblank
    cases hblank

/-- A name in snake case is its own. -/
theorem snakeCase_eq (h : IsSnakeCase s) : snakeCase s.toList = s.toList := by
  rw [snakeCase, splitCamel_splitAcronyms_of_noCapital h.noCapital,
    collapse_of_apart h.eq_underscore_of_isSeparator h.apart,
    trimUnderscores_of_trimmed h.noLeading h.noTrailing, smallText_of_isSmall h.small]

/-- The underscore that a taken name gets is trimmed. -/
theorem snakeCase_append_underscore (h : IsSnakeCase s) :
    snakeCase (s ++ "_").toList = s.toList := by
  have hmem : ∀ c ∈ s.toList ++ [CodePoint.ofChar '_'], c ∈ s.toList ∨ c = '_' := by simp
  have hcapital : ∀ c ∈ s.toList ++ [CodePoint.ofChar '_'], c.isUpper = false := by
    intro c hc
    rcases hmem c hc with hc | rfl
    · exact h.noCapital c hc
    · decide
  have hseparator : ∀ c ∈ s.toList ++ [CodePoint.ofChar '_'], isSeparator c = true → c = '_' := by
    intro c hc hc'
    exact (hmem c hc).elim (h.eq_underscore_of_isSeparator c · hc') id
  have hapart : (s.toList ++ [CodePoint.ofChar '_']).IsChain Apart := by
    refine List.isChain_append.mpr ⟨h.apart, .singleton _, ?_⟩
    rintro c hc d - rfl
    exact absurd hc h.noTrailing
  rw [CodeText.toList_append, show ("_" : CodeText).toList = [CodePoint.ofChar '_'] from rfl,
    snakeCase, splitCamel_splitAcronyms_of_noCapital hcapital, collapse_of_apart hseparator hapart,
    trimUnderscores_append_underscore, trimUnderscores_of_trimmed h.noLeading h.noTrailing,
    smallText_of_isSmall h.small]

/-- The name is read back from what makes way for a taken one. -/
theorem ofList_snakeCase_avoidTaken (h : IsSnakeCase s) (reserved : List CodeText) :
    CodeText.ofList (snakeCase (avoidTaken s reserved).toList) = s := by
  unfold avoidTaken
  split
  · rw [h.snakeCase_append_underscore, CodeText.ofList_toList]
  · rw [h.snakeCase_eq, CodeText.ofList_toList]

/-- Making a property name again makes the same one. -/
theorem propertyName_avoidTaken (h : IsSnakeCase s) (reserved : List CodeText) :
    propertyName (avoidTaken s reserved) reserved = avoidTaken s reserved := by
  rw [propertyName, h.ofList_snakeCase_avoidTaken]

end IsSnakeCase

/-! ### Identifiers -/

/-- An identifier of Python that is written in ASCII. -/
structure IsIdentifier (name : CodeText) : Prop where
  start : ∃ c, name.toList.head? = some c ∧ (c.isAlpha = true ∨ c = '_')
  chars : ∀ c ∈ name.toList, c.isAlphanum = true ∨ c = '_'

/-- The name starts with a letter and has letters, digits and underscores of ASCII only. -/
structure IsPlainName (name : CodeText) : Prop where
  start : ∃ c, name.toList.head? = some c ∧ c.isAlpha = true
  chars : ∀ c ∈ name.toList, c.isAlphanum = true ∨ c = '_'

instance (name : CodeText) : Decidable (IsPlainName name) :=
  decidable_of_iff (name.toList.head?.any CodePoint.isAlpha = true ∧
      name.toList.all (fun c => c.isAlphanum || c == '_') = true) <| by
    simp only [Option.any_eq_true, List.all_eq_true, Bool.or_eq_true, beq_iff_eq]
    exact ⟨fun h => ⟨h.1, h.2⟩, fun h => ⟨h.start, h.chars⟩⟩

theorem IsPlainName.isIdentifier {name : CodeText} (h : IsPlainName name) : IsIdentifier name where
  start := h.start.imp fun _ hc => hc.imp_right .inl
  chars := h.chars

/-- An identifier goes on with any letters, digits and underscores. -/
theorem IsIdentifier.append {name rest : CodeText} (h : IsIdentifier name)
    (hrest : ∀ c ∈ rest.toList, c.isAlphanum = true ∨ c = '_') : IsIdentifier (name ++ rest) where
  start := by
    obtain ⟨c, hc, hletter⟩ := h.start
    refine ⟨c, ?_, hletter⟩
    rw [CodeText.toList_append, List.head?_append, hc]
    rfl
  chars := by
    rw [CodeText.toList_append]
    exact List.forall_mem_append.mpr ⟨h.chars, hrest⟩

theorem IsIdentifier.append_underscore {name : CodeText} (h : IsIdentifier name) :
    IsIdentifier (name ++ "_") :=
  h.append fun _ hc => .inr (List.mem_singleton.mp hc)

theorem mem_insertWhere {starts : CodePoint → CodePoint → Option CodePoint → Bool}
    {a d : CodePoint} {cs : List CodePoint}
    (h : d ∈ insertWhere starts a cs) : d = '_' ∨ d ∈ cs := by
  induction cs generalizing a with
  | nil => cases h
  | cons c cs ih =>
    rcases List.mem_append.mp h with h | h
    · split at h
      · exact (List.mem_cons.mp h).imp_right fun hd =>
          List.mem_cons.mpr (.inl (List.mem_singleton.mp hd))
      · exact .inr (List.mem_cons.mpr (.inl (List.mem_singleton.mp h)))
    · exact (ih h).imp_right (List.mem_cons_of_mem c)

/-- A first character that is no underscore is not trimmed. -/
theorem head_trimUnderscores_cons {c : CodePoint} (hc : c ≠ '_') (cs : List CodePoint) :
    (trimUnderscores (c :: cs)).head? = some c := by
  have hfirst (rest : List CodePoint) : (c :: rest).head? ≠ some (.ofChar '_') :=
    fun h => hc (Option.some.inj h)
  rw [trimUnderscores, dropWhile_underscore (hfirst cs), List.head?_reverse, List.reverse_cons,
    List.dropWhile_append]
  split
  · rw [dropWhile_underscore (hfirst [])]
    rfl
  · exact List.getLast?_concat

theorem lt_of_isAlphanum_or {c : CodePoint} (h : c.isAlphanum = true ∨ c = '_') :
    c.toNat < 128 := by
  rcases h with h | rfl
  · change ((c.isUpper || c.isLower) || c.isDigit) = true at h
    rw [Bool.or_eq_true, Bool.or_eq_true, isUpper_iff, isLower_iff, isDigit_iff] at h
    omega
  · decide

theorem isSeparator_of_isAlpha {c : CodePoint} (h : c.isAlpha = true) : isSeparator c = false := by
  have htable : ∀ c : CodePoint, c.toNat < 128 → c.isAlpha = true → isSeparator c = false :=
    forall_ascii (by decide)
  exact htable c (lt_of_isAlphanum_or (.inl (isAlphanum_of_isAlpha h))) h

namespace IsPlainName

variable {name : CodeText}

/-- The words of a plain name, before they are made small. -/
theorem trimUnderscores_collapse (h : IsPlainName name) :
    IsPlainName (CodeText.ofList
      (trimUnderscores (collapse false (splitCamel (splitAcronyms name.toList))))) := by
  obtain ⟨c, hc, hletter⟩ := h.start
  obtain ⟨cs, hcs⟩ := List.head?_eq_some_iff.mp hc
  have hseparator := isSeparator_of_isAlpha hletter
  have hne : c ≠ '_' := by
    rintro rfl
    cases hseparator
  have hsplit : splitCamel (splitAcronyms name.toList) = c :: insertWhere startsBetween c cs := by
    rw [hcs, splitCamel_splitAcronyms_cons]
  constructor
  · refine ⟨c, ?_, hletter⟩
    rw [CodeText.toList_ofList, hsplit, collapse, hseparator, if_neg Bool.false_ne_true]
    exact head_trimUnderscores_cons hne _
  · intro d hd
    rw [CodeText.toList_ofList, hsplit] at hd
    rcases mem_collapse (mem_of_mem_trimUnderscores hd) with hd | ⟨hd, -⟩
    · exact .inr hd
    · rcases List.mem_cons.mp hd with rfl | hd
      · exact h.chars d (List.mem_of_mem_head? hc)
      · rcases mem_insertWhere hd with hd | hd
        · exact .inr hd
        · exact h.chars d (hcs ▸ List.mem_cons_of_mem c hd)

theorem smallText (h : IsPlainName name) :
    IsPlainName (CodeText.ofList (smallText name.toList)) := by
  have hascii : ∀ c ∈ name.toList, c.toNat < 128 := fun c hc => lt_of_isAlphanum_or (h.chars c hc)
  rw [smallText_of_isAscii hascii]
  constructor
  · obtain ⟨c, hc, hletter⟩ := h.start
    refine ⟨c.toLower, ?_, (small_of_isAscii (hascii c (List.mem_of_mem_head? hc))).2.1 hletter⟩
    rw [CodeText.toList_ofList, List.head?_map, hc]
    rfl
  · rw [CodeText.toList_ofList]
    intro d hd
    obtain ⟨c, hc, rfl⟩ := List.mem_map.mp hd
    rcases h.chars c hc with halphanum | rfl
    · exact .inl ((small_of_isAscii (hascii c hc)).2.2 halphanum)
    · exact .inr (by decide)

/-- The words of a plain name make a plain name. -/
theorem ofList_snakeCase (h : IsPlainName name) :
    IsPlainName (CodeText.ofList (snakeCase name.toList)) := by
  have hsmall := h.trimUnderscores_collapse.smallText
  rwa [CodeText.toList_ofList] at hsmall

theorem isIdentifier_propertyName (h : IsPlainName name) (reserved : List CodeText) :
    IsIdentifier (propertyName name reserved) := by
  have hwords := h.ofList_snakeCase.isIdentifier
  rw [propertyName, avoidTaken]
  split
  · exact hwords.append_underscore
  · exact hwords

end IsPlainName

/-! ### The normal form -/

/-- **Property names are a normal form.** A property name is a name in snake case, with an
underscore at its end exactly if the name is a keyword or reserved. It is no keyword, and stays as
it is when a property name is made from it. The property name of a plain name is an identifier. -/
theorem propertyName_normal (name : CodeText) (reserved : List CodeText) :
    (∃ s, IsSnakeCase s ∧
      (propertyName name reserved = s ∨ propertyName name reserved = s ++ "_") ∧
      (propertyName name reserved = s ++ "_" ↔ s ∈ keywords ∨ s ∈ reserved)) ∧
    propertyName name reserved ∉ keywords ∧
    propertyName (propertyName name reserved) reserved = propertyName name reserved ∧
    (IsPlainName name → IsIdentifier (propertyName name reserved)) := by
  have hsnake := isSnakeCase_snakeCase name.toList
  refine ⟨⟨_, hsnake, ?_, avoidTaken_eq_append_iff⟩, avoidTaken_not_mem_keywords _ _,
    hsnake.propertyName_avoidTaken reserved, fun h => h.isIdentifier_propertyName reserved⟩
  rw [propertyName, avoidTaken]
  split
  · exact .inr rfl
  · exact .inl rfl

/-- The name is plain and what its words make is reserved. -/
theorem nextHTTPCode_normal :
    IsPlainName "nextHTTPCode2" ∧
      propertyName "nextHTTPCode2" ["next_http_code2"] = "next_http_code2_" ∧
      IsIdentifier (propertyName "nextHTTPCode2" ["next_http_code2"]) := by
  have hplain : IsPlainName "nextHTTPCode2" := by decide +kernel
  exact ⟨hplain, by decide +kernel, (propertyName_normal _ _).2.2.2 hplain⟩

end CodecMocks.Naming
