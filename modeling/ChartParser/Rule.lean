import ChartParser.Binary64.Shortest
import ChartParser.Text.Blank
import ChartParser.Text.Escape

/-! Weighted context-free rules and their written form. Labels are written bare and words in
quotes, both with backslashes, so that every label and every word has a text. -/

namespace ChartParser

/-- A symbol on the right-hand side of a rule. -/
inductive Symbol where
  | terminal (word : String)
  | nonterminal (label : String)
deriving DecidableEq

namespace Symbol

def isNonterminal : Symbol → Bool
  | terminal _ => false
  | nonterminal _ => true

def name : Symbol → String
  | terminal word => word
  | nonterminal label => label

/-- Terminals come before nonterminals, and symbols of one kind are ordered by name. -/
instance : Ord Symbol := ⟨compareLex (compareOn isNonterminal) (compareOn name)⟩

instance : Std.TransOrd Symbol :=
  inferInstanceAs (Std.TransCmp (compareLex (compareOn isNonterminal) (compareOn name)))

instance : Std.LawfulEqOrd Symbol where
  eq_of_compare {a b} h := by
    have h' : (compareOn isNonterminal a b).then (compareOn name a b) = .eq := h
    rw [Ordering.then_eq_eq] at h'
    have hk : a.isNonterminal = b.isNonterminal := Std.LawfulEqOrd.eq_of_compare h'.1
    have hn : a.name = b.name := Std.LawfulEqOrd.eq_of_compare h'.2
    cases a <;> cases b <;> simp_all [isNonterminal, name]

/-- Characters that a bare label writes with a backslash: those that would end the label, and
those that would make the line a comment, a directive or split it at an arrow. -/
def isLabelSpecial (c : Char) : Bool :=
  Text.isBlank c || ['\\', '"', '\'', '[', ']', '|', '>', '#', '%'].contains c

/-- Characters that a quoted word writes with a backslash. -/
def isWordSpecial (c : Char) : Bool := c == '"' || c == '\\'

/-- The written form of a label. -/
def renderLabel (label : String) : List Char := Text.escape isLabelSpecial label.toList

/-- The written form of a word between its quotes. -/
def renderWord (word : String) : List Char := Text.escape isWordSpecial word.toList

/-- The written form of a symbol. -/
def render : Symbol → List Char
  | terminal word => '"' :: renderWord word ++ ['"']
  | nonterminal label => renderLabel label

end Symbol

/-- A rule without its probability: a label and the symbols it may be replaced by. -/
structure Production where
  head : String
  body : List Symbol
deriving DecidableEq

namespace Production

instance : Ord Production := ⟨compareLex (compareOn head) (compareOn body)⟩

instance : Std.TransOrd Production :=
  inferInstanceAs (Std.TransCmp (compareLex (compareOn head) (compareOn body)))

instance : Std.LawfulEqOrd Production where
  eq_of_compare {a b} h := by
    have h' : (compareOn head a b).then (compareOn body a b) = .eq := h
    rw [Ordering.then_eq_eq] at h'
    have hh : a.head = b.head := Std.LawfulEqOrd.eq_of_compare h'.1
    have hb : a.body = b.body := Std.LawfulEqOrd.eq_of_compare h'.2
    cases a
    cases b
    simp_all

/-- The two forms of a production in Chomsky normal form. -/
inductive Shape where
  | lexical (word : String)
  | binary (left right : String)
deriving DecidableEq

/-- The form of a production, if it is in Chomsky normal form. -/
def shape? (p : Production) : Option Shape :=
  match p.body with
  | [.terminal word] => some (.lexical word)
  | [.nonterminal left, .nonterminal right] => some (.binary left right)
  | _ => none

end Production

/-- A production with its probability. Two rules are the same rule when their productions are. -/
structure Rule extends Production where
  prob : Binary64
deriving DecidableEq

/-- The written form of a rule: head, arrow, body and the probability in brackets. -/
def Rule.render (r : Rule) : List Char :=
  Symbol.renderLabel r.head ++ [' ', '-', '>'] ++ (r.body.flatMap fun x => ' ' :: x.render) ++
    [' ', '['] ++ r.prob.render ++ [']']

instance : ToString Rule := ⟨fun r => String.ofList r.render⟩

end ChartParser
