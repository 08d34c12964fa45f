import BasicSketch.Lint.Finding

set_option autoImplicit false

/-! Suppression. -/

namespace BasicSketch.Lint

/-- Folds letter case; the long s and the Kelvin sign fold to letters too. -/
def foldCase (c : Char) : Char :=
  if c == '\u017F' then 's' else if c == '\u212A' then 'k' else c.toLower

def isRuleChar (c : Char) : Bool :=
  let c := foldCase c
  c.isAlphanum || c == '_' || c == '-'

def directiveHere? (word : List Char) (cs : List Char) : Option String :=
  let rest := cs.drop word.length
  let rule := (Text.dropBlanks rest).takeWhile isRuleChar
  if (cs.take word.length).map foldCase == word && rest.head?.any Text.isBlank && !rule.isEmpty then
    some (Text.lower (String.ofList rule))
  else none

def directive? (word : List Char) : List Char → Option String
  | [] => none
  | c :: rest => (directiveHere? word (c :: rest)).or (directive? word rest)

def disabledInFile? (line : String) : Option String :=
  directive? "linter:disable-file".toList line.toList

def disabledBelow? (line : String) : Option String :=
  directive? "linter:disable".toList line.toList

def suppresses (lines : List CodeLine) (f : Finding) : Bool :=
  lines.any fun line =>
    disabledInFile? line.source == some f.rule.id ||
      (line.number + 1 == f.line && disabledBelow? line.source == some f.rule.id)

end BasicSketch.Lint
