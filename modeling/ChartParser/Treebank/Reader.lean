import ChartParser.Treebank.Token
import ChartParser.Tree.Basic

/-! Reading the trees of a treebank text. Words get the positions 0, 1, 2 and so on within their
tree, and a constituent spans from its first word to its last. -/

namespace ChartParser.Treebank

/-- Why a text is no sequence of trees. -/
inductive TreeFault where
  | openingExpected (text : List Char)
  | labelExpected (text : List Char)
  | unclosed (label : String)
  | childless (label : String)
deriving DecidableEq

def TreeFault.message : TreeFault → String
  | openingExpected text => "couldn't match ( at " ++ String.ofList text
  | labelExpected text => "label: couldn't match [^\\s()]+ at " ++ String.ofList text
  | unclosed label => "unclosed constituent " ++ label
  | childless label => "constituent " ++ label ++ " has no children"

/-- A fault and the number of its tree, counted from one. -/
structure Fault where
  tree : Nat
  cause : TreeFault
deriving DecidableEq

def Fault.message (fault : Fault) : String :=
  "tree " ++ fault.tree.repr ++ ": " ++ fault.cause.message

/-- A constituent that is still open: its label, its start, and its children so far, the last one
in front. -/
structure Frame where
  label : String
  start : Nat
  children : List (Tree String String)

/-- The constituent of a frame that ends before a position. -/
def Frame.close (frame : Frame) (stop : Nat) : Tree String String :=
  .branch ⟨frame.label, ⟨frame.start, stop⟩⟩ frame.children.reverse

def Frame.push (frame : Frame) (child : Tree String String) : Frame :=
  { frame with children := child :: frame.children }

/-- Reads tokens under the open constituents, the innermost in front, with the finished trees, the
last one in front, and the position of the next word. -/
def readTokens (done : List (Tree String String)) (position : Nat) :
    List Frame → List (Token × List Char) → Except Fault (List (Tree String String))
  | [], [] => .ok done.reverse
  | frame :: _, [] => .error ⟨done.length + 1, .unclosed frame.label⟩
  | frames, (.opening, _) :: (.atom label, _) :: rest =>
      readTokens done position (⟨String.ofList label, position, []⟩ :: frames) rest
  | _, (.opening, _) :: rest =>
      .error ⟨done.length + 1, .labelExpected ((rest.head?.map (·.2)).getD [])⟩
  | [], (_, text) :: _ => .error ⟨done.length + 1, .openingExpected text⟩
  | frame :: frames, (.atom word, _) :: rest =>
      readTokens done (position + 1)
        (frame.push (.leaf ⟨String.ofList word, ⟨position, position + 1⟩⟩) :: frames) rest
  | frame :: frames, (.closing, _) :: rest =>
      if frame.children.isEmpty then .error ⟨done.length + 1, .childless frame.label⟩
      else
        match frames with
        | [] => readTokens (frame.close position :: done) 0 [] rest
        | outer :: others =>
            readTokens done position (outer.push (frame.close position) :: others) rest

/-- Reads every tree of a text. Blanks separate what would otherwise be one atom and say nothing
else. -/
def read (text : List Char) : Except Fault (List (Tree String String)) :=
  readTokens [] 0 [] (tokens text)

end ChartParser.Treebank
