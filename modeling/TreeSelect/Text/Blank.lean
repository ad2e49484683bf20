import TreeSelect.Text.Ranges

/-! White space in the sense of the Unicode property White_Space, and the words it separates. -/

namespace TreeSelect.Text

/-- The 25 code points with the property White_Space. -/
def blankRanges : Ranges :=
  [(0x9, 0xD), (0x20, 0x20), (0x85, 0x85), (0xA0, 0xA0), (0x1680, 0x1680), (0x2000, 0x200A),
    (0x2028, 0x2029), (0x202F, 0x202F), (0x205F, 0x205F), (0x3000, 0x3000)]

theorem blankRanges_ordered : blankRanges.ordered = true := by decide

def isBlank (letter : Char) : Bool := blankRanges.covers letter.toNat

/-- The maximal blank-free runs of a text, the first of them continuing `current`, which holds
the letters already read, latest first. -/
def wordsFrom (current : List Char) : List Char → List (List Char)
  | [] => if current.isEmpty then [] else [current.reverse]
  | letter :: rest =>
      if isBlank letter then
        if current.isEmpty then wordsFrom [] rest else current.reverse :: wordsFrom [] rest
      else wordsFrom (letter :: current) rest

/-- The maximal non-empty runs of letters that are not blank. -/
def words (text : List Char) : List (List Char) := wordsFrom [] text

end TreeSelect.Text
