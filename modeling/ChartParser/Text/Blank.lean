/-! Blank characters, by the Unicode property of white space, and the text between them. Trimming
and splitting look at nothing else. -/

namespace ChartParser.Text

/-- White space: the ASCII controls from tab to carriage return, the next-line control, and every
space and separator of Unicode. Zero-width characters are not blank. -/
def isBlank (c : Char) : Bool :=
  let n := c.toNat
  n == 0x20 || (0x09 ≤ n && n ≤ 0x0d) || n == 0x85 || n == 0xa0 || n == 0x1680 ||
    (0x2000 ≤ n && n ≤ 0x200a) || n == 0x2028 || n == 0x2029 || n == 0x202f || n == 0x205f ||
    n == 0x3000

/-- The text without its leading blanks. -/
def trimStart (s : List Char) : List Char :=
  s.dropWhile isBlank

/-- The text without its trailing blanks. -/
def trimEnd (s : List Char) : List Char :=
  (s.reverse.dropWhile isBlank).reverse

/-- The text without the blanks around it. -/
def trim (s : List Char) : List Char :=
  trimEnd (trimStart s)

theorem length_trimStart_le (s : List Char) : (trimStart s).length ≤ s.length :=
  (List.dropWhile_sublist _).length_le

/-- Puts a run of characters in front of the fields after it, unless the run is empty. -/
def pushField (run : List Char) (fields : List (List Char)) : List (List Char) :=
  if run.isEmpty then fields else run :: fields

/-- Takes one more character on the left: a blank ends the run in front, any other extends it. -/
def extendFields (c : Char) (state : List Char × List (List Char)) :
    List Char × List (List Char) :=
  if isBlank c then ([], pushField state.1 state.2) else (c :: state.1, state.2)

/-- The maximal runs of characters that are not blank, from left to right. -/
def fields (s : List Char) : List (List Char) :=
  let state := s.foldr extendFields ([], [])
  pushField state.1 state.2

end ChartParser.Text
