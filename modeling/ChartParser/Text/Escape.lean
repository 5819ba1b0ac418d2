/-! Escaping by backslashes: a backslash stands before every special character. -/

namespace ChartParser.Text

/-- Writes a backslash before every special character. -/
def escape (special : Char → Bool) (s : List Char) : List Char :=
  s.flatMap fun c => if special c then ['\\', c] else [c]

@[simp] theorem escape_nil (special : Char → Bool) : escape special [] = [] := rfl

theorem escape_cons (special : Char → Bool) (c : Char) (s : List Char) :
    escape special (c :: s) = (if special c then ['\\', c] else [c]) ++ escape special s :=
  List.flatMap_cons

theorem escape_cons_of_special {special : Char → Bool} {c : Char} (h : special c = true)
    (s : List Char) : escape special (c :: s) = '\\' :: c :: escape special s := by
  rw [escape_cons, if_pos h]
  rfl

theorem escape_cons_of_plain {special : Char → Bool} {c : Char} (h : special c = false)
    (s : List Char) : escape special (c :: s) = c :: escape special s := by
  rw [escape_cons, if_neg (by simp [h])]
  rfl

theorem escape_append (special : Char → Bool) (s t : List Char) :
    escape special (s ++ t) = escape special s ++ escape special t :=
  List.flatMap_append

end ChartParser.Text
