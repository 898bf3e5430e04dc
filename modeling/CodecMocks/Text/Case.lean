import CodecMocks.Text.CaseTable

/-!
# Small and capital letters

`capital` and `small` map one character, which may take several; `smallText` maps a whole text,
where a capital sigma that ends a word becomes the final small sigma.
-/

namespace CodecMocks.Text

/-- The capital form of one character. -/
def capital (c : CodePoint) : List CodePoint :=
  match capitalExpansions.find? (·.1 == c.toNat) with
  | some entry => entry.2.map CodePoint.ofNat
  | none => [moveBy capitalRuns c]

/-- The small form of one character that stands alone. The capital `I` with a dot keeps its dot as
a combining mark; it is the only one that takes two characters. -/
def small (c : CodePoint) : List CodePoint :=
  if c == 'İ' then ['i', '\u0307'] else [moveBy smallRuns c]

/-- The nearest character that is not skipped is a letter with a case. -/
def reachesLetter (cs : List CodePoint) : Bool :=
  match cs.dropWhile caseIgnorable.holds with
  | c :: _ => casedLetters.holds c
  | [] => false

/-- A capital sigma is final when a letter precedes it and none follows. The text before it is
given backwards. -/
def isFinalSigma (before after : List CodePoint) : Bool :=
  reachesLetter before && !reachesLetter after

/-- The small form of a text that follows `before`, given backwards. -/
def smallAfter (before : List CodePoint) : List CodePoint → List CodePoint
  | [] => []
  | c :: cs =>
    (if c == 'Σ' then [↑(if isFinalSigma before cs then 'ς' else 'σ')] else small c) ++
      smallAfter (c :: before) cs

/-- The small form of a text. -/
def smallText (cs : List CodePoint) : List CodePoint :=
  smallAfter [] cs

/-- The first character in its capital form, the others as they are. -/
def capitalizeFirst : List CodePoint → List CodePoint
  | [] => []
  | c :: cs => capital c ++ cs

/-- The first character in its small form, the others as they are. -/
def decapitalizeFirst : List CodePoint → List CodePoint
  | [] => []
  | c :: cs => small c ++ cs

@[simp] theorem smallText_nil : smallText [] = [] := rfl

@[simp] theorem capitalizeFirst_nil : capitalizeFirst [] = [] := rfl

@[simp] theorem decapitalizeFirst_nil : decapitalizeFirst [] = [] := rfl

end CodecMocks.Text
