/-! The events that an activity reports beside its result, and results that carry their events.
An event is a cause with its data; its wording and its importance are functions of it. Counts are
exact, while lines are numbered in 32 bits with a sign. -/

namespace ChartParser

/-- Importance of an event, from the most to the least. -/
inductive Level where
  | warning
  | information
  | debugging
  | tracing
deriving DecidableEq

inductive Event where
  | startHeadsNoRule (start : String)
  | grammarIndexed (rules words nonterminals : Nat) (start : String)
  | unknownToken (position : Nat) (word : String)
  | spansFilled (width : Nat)
  | chartMismatch (chart input : Nat)
  | grammarEstimated (trees rules : Nat) (start : String)
  | sentenceNotUtf8 (line : Int32)
  | noParse (line : Int32) (tokens : Nat)
  | sentencesParsed (sentences parsed failed : Nat)
deriving DecidableEq

namespace Event

def level : Event → Level
  | startHeadsNoRule _ | sentenceNotUtf8 _ => .warning
  | sentencesParsed .. => .information
  | grammarIndexed .. | unknownToken .. | chartMismatch .. | grammarEstimated .. | noParse .. =>
      .debugging
  | spansFilled _ => .tracing

def message : Event → String
  | startHeadsNoRule _ => "start symbol heads no rule, nothing will parse"
  | grammarIndexed .. => "indexed grammar"
  | unknownToken .. => "no lexical rule for token"
  | spansFilled _ => "filled spans"
  | chartMismatch .. => "chart was built for a different input"
  | grammarEstimated .. => "estimated grammar"
  | sentenceNotUtf8 _ => "sentence is not valid utf-8, skipping"
  | noParse .. => "no parse"
  | sentencesParsed .. => "parsed sentences"

/-- The data of an event as named texts. -/
def fields : Event → List (String × String)
  | startHeadsNoRule start => [("start", start)]
  | grammarIndexed rules words nonterminals start =>
      [("rules", rules.repr), ("words", words.repr), ("nonterminals", nonterminals.repr),
        ("start", start)]
  | unknownToken position word => [("position", position.repr), ("word", word)]
  | spansFilled width => [("width", width.repr)]
  | chartMismatch chart input => [("chart", chart.repr), ("input", input.repr)]
  | grammarEstimated trees rules start =>
      [("trees", trees.repr), ("rules", rules.repr), ("start", start)]
  | sentenceNotUtf8 line => [("line", line.toInt.repr)]
  | noParse line tokens => [("line", line.toInt.repr), ("tokens", tokens.repr)]
  | sentencesParsed sentences parsed failed =>
      [("sentences", sentences.repr), ("parsed", parsed.repr), ("failed", failed.repr)]

end Event

/-- A result and the events reported on the way to it, in the order of their report. -/
structure Logged (α : Type) where
  value : α
  events : List Event := []

namespace Logged

variable {α β : Type}

protected def bind (x : Logged α) (f : α → Logged β) : Logged β :=
  let y := f x.value
  ⟨y.value, x.events ++ y.events⟩

instance : Monad Logged where
  pure a := ⟨a, []⟩
  bind := Logged.bind

/-- Reports an event. -/
def report (e : Event) : Logged Unit := ⟨(), [e]⟩

@[simp] theorem pure_value (a : α) : (pure a : Logged α).value = a := rfl

@[simp] theorem pure_events (a : α) : (pure a : Logged α).events = [] := rfl

@[simp] theorem bind_value (x : Logged α) (f : α → Logged β) :
    (x >>= f).value = (f x.value).value := rfl

@[simp] theorem bind_events (x : Logged α) (f : α → Logged β) :
    (x >>= f).events = x.events ++ (f x.value).events := rfl

end Logged

end ChartParser
