import ChartParser.Text.Lines
import ChartParser.Tree.Basic

/-! The two written forms of a tree: on one line in brackets, or with the children of a constituent
on lines of their own, two columns further in. -/

namespace ChartParser.Tree

mutual

/-- The bracketed form, on one line. -/
def render : Tree String String → List Char
  | leaf word => word.value.toList
  | branch label children => '(' :: label.value.toList ++ renderAll children ++ [')']

/-- The bracketed forms of a row of trees, a space before each. -/
def renderAll : List (Tree String String) → List Char
  | [] => []
  | t :: ts => ' ' :: render t ++ renderAll ts

end

/-- Puts every line of a text on a new line, two columns further in. -/
def indent (text : List Char) : List Char :=
  (Text.lines text).flatMap fun line => '\n' :: ' ' :: ' ' :: line

mutual

/-- The indented form. A constituent over words alone stays on one line. -/
def renderIndented : Tree String String → List Char
  | leaf word => word.value.toList
  | branch label children =>
      '(' :: label.value.toList ++
        (if children.all isLeaf then renderAll children else indentAll children) ++ [')']

/-- The indented forms of a row of trees, each on lines of its own. -/
def indentAll : List (Tree String String) → List Char
  | [] => []
  | t :: ts => indent (renderIndented t) ++ indentAll ts

end

instance : ToString (Tree String String) := ⟨fun t => String.ofList t.render⟩

end ChartParser.Tree
