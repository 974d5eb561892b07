import Reindent.Text.Caseless
import Reindent.Text.Pattern

/-!
# Split rules of SQL

The rules that put marks at clause boundaries and write keywords in capitals. They are applied
strictly in order, each to the text that the ones before it left. Letters are matched in either
case.
-/

namespace Reindent.Sql

open Text

/-- A part of a rule's pattern. -/
inductive Atom where
  /-- A character, a letter in either case. -/
  | letter (c : Char)
  /-- Any number of blanks. -/
  | blanks
  /-- At least one blank. -/
  | blanks1
  /-- At least one mark. -/
  | marks
  /-- No word character follows. -/
  | wordEnd
deriving DecidableEq, Repr

/-- The part of a pattern, once the mark is known. -/
def Atom.part (mark : Char) : Atom → Part
  | .letter c => .one (sameLetter c)
  | .blanks => .blanks
  | .blanks1 => .blanks1
  | .marks => .many1 (sameLetter mark)
  | .wordEnd => .wordEnd

/-- A piece of a rule's replacement. -/
inductive Piece where
  | text (s : List Char)
  | mark
  /-- One unit of indentation. -/
  | tab
deriving DecidableEq, Repr

/-- The text of a piece. -/
def Piece.expand (tab : List Char) (mark : Char) : Piece → List Char
  | .text s => s
  | .mark => [mark]
  | .tab => tab

/-- A named rule. -/
structure Rule where
  name : String
  pattern : List Atom
  replacement : List Piece
deriving DecidableEq, Repr

/-- The letters of `SELECT`. -/
def selectWord : List Char := ['S', 'E', 'L', 'E', 'C', 'T']

/-- The letters of `JOIN`. -/
def joinWord : List Char := ['J', 'O', 'I', 'N']

namespace Rule

/-- The substitution of a rule, once the unit of indentation and the mark are known. -/
def substitution (rule : Rule) (tab : List Char) (mark : Char) : Substitution where
  pattern := rule.pattern.map (Atom.part mark)
  replacement := rule.replacement.flatMap (Piece.expand tab mark)

/-- Applies a rule to a text. -/
def apply (rule : Rule) (tab : List Char) (mark : Char) (text : List Char) : List Char :=
  (rule.substitution tab mark).apply text

/-- The letters of a keyword. -/
def word (keyword : List Char) : List Atom :=
  keyword.map Atom.letter

/-- A keyword between spaces. -/
def spaced (keyword : List Char) : List Atom :=
  word (' ' :: (keyword ++ [' ']))

/-- A keyword that starts a fragment, after some units of indentation. -/
def clause (name : String) (keyword : List Char) (tabs : Nat) : Rule :=
  ⟨name, spaced keyword, .mark :: (List.replicate tabs .tab ++ [.text (keyword ++ [' '])])⟩

/-- A keyword that is written in capitals and stays where it is. -/
def capitals (name : String) (keyword : List Char) : Rule :=
  ⟨name, spaced keyword, [.text (' ' :: (keyword ++ [' ']))]⟩

/-- A keyword followed by `BY`, which starts a fragment. -/
def clauseBy (name : String) (keyword : List Char) : Rule :=
  ⟨name, word (' ' :: keyword) ++ [.blanks1, .letter 'B', .letter 'Y', .wordEnd, .blanks],
    [.mark, .text (keyword ++ [' ', 'B', 'Y', ' '])]⟩

/-- A qualified join: the rule for joins has cut it in two, and this one puts it together again. -/
def qualifiedJoin (name : String) (keyword : List Char) : Rule :=
  ⟨name, word (' ' :: keyword) ++ .marks :: word (joinWord ++ [' ']),
    [.mark, .text (keyword ++ ' ' :: (joinWord ++ [' ']))]⟩

end Rule

open Rule

/-- The rule that leaves one space of a run of blanks. -/
def blanksRule : Rule :=
  ⟨"whitespace", [.blanks1], [.text [' ']]⟩

/-- The rule for joins of all kinds. -/
def joinRule : Rule :=
  clause "join" joinWord 0

/-- The rule that writes `SELECT` in capitals and drops the blanks before it. -/
def selectRule : Rule :=
  ⟨"select", .blanks :: word (selectWord ++ [' ']), [.text (selectWord ++ [' '])]⟩

/-- The rule that leaves one mark of a run. -/
def collapseMarks : Rule :=
  ⟨"collapse_marks", [.marks], [.mark]⟩

/-- All rules in order. -/
def splitRules : List Rule := [
  blanksRule,
  clause "and" ['A', 'N', 'D'] 2,
  clause "between" ['B', 'E', 'T', 'W', 'E', 'E', 'N'] 1,
  clause "case" ['C', 'A', 'S', 'E'] 1,
  clause "else" ['E', 'L', 'S', 'E'] 1,
  clause "end" ['E', 'N', 'D'] 1,
  clause "from" ['F', 'R', 'O', 'M'] 0,
  clauseBy "group_by" ['G', 'R', 'O', 'U', 'P'],
  clause "having" ['H', 'A', 'V', 'I', 'N', 'G'] 0,
  capitals "in" ['I', 'N'],
  joinRule,
  qualifiedJoin "cross_join" ['C', 'R', 'O', 'S', 'S'],
  qualifiedJoin "inner_join" ['I', 'N', 'N', 'E', 'R'],
  qualifiedJoin "left_join" ['L', 'E', 'F', 'T'],
  qualifiedJoin "right_join" ['R', 'I', 'G', 'H', 'T'],
  clause "on" ['O', 'N'] 1,
  clause "or" ['O', 'R'] 2,
  clauseBy "order_by" ['O', 'R', 'D', 'E', 'R'],
  clause "over" ['O', 'V', 'E', 'R'] 1,
  ⟨"subquery", .letter '(' :: .blanks :: word (selectWord ++ [' ']),
    [.mark, .text ('(' :: (selectWord ++ [' ']))]⟩,
  ⟨"select_after_paren", .letter ')' :: .blanks :: word (selectWord ++ [' ']),
    [.text [')'], .mark, .text (selectWord ++ [' '])]⟩,
  ⟨"then", spaced ['T', 'H', 'E', 'N'], [.text [' ', 'T', 'H', 'E', 'N'], .mark, .tab]⟩,
  ⟨"union", spaced ['U', 'N', 'I', 'O', 'N'], [.mark, .text ['U', 'N', 'I', 'O', 'N'], .mark]⟩,
  clause "using" ['U', 'S', 'I', 'N', 'G'] 0,
  clause "when" ['W', 'H', 'E', 'N'] 1,
  clause "where" ['W', 'H', 'E', 'R', 'E'] 0,
  clause "with" ['W', 'I', 'T', 'H'] 0,
  capitals "all" ['A', 'L', 'L'],
  capitals "as" ['A', 'S'],
  capitals "asc" ['A', 'S', 'C'],
  capitals "desc" ['D', 'E', 'S', 'C'],
  capitals "distinct" ['D', 'I', 'S', 'T', 'I', 'N', 'C', 'T'],
  capitals "exists" ['E', 'X', 'I', 'S', 'T', 'S'],
  capitals "not" ['N', 'O', 'T'],
  capitals "null" ['N', 'U', 'L', 'L'],
  capitals "like" ['L', 'I', 'K', 'E'],
  selectRule,
  collapseMarks]

/-- Applies all rules in order. -/
def applyRules (tab : List Char) (mark : Char) (text : List Char) : List Char :=
  splitRules.foldl (fun s rule => rule.apply tab mark s) text

/-- The texts that the rules leave one after the other, each with the name of its rule. -/
def ruleTrace (tab : List Char) (mark : Char) : List Rule → List Char → List (String × List Char)
  | [], _ => []
  | rule :: rules, text =>
    let next := rule.apply tab mark text
    (rule.name, next) :: ruleTrace tab mark rules next

end Reindent.Sql
