/-!
White space in the sense of Unicode, at the ends of a text and throughout it.
-/

namespace Regroup.Text

def blanks : List Nat :=
  [9, 10, 11, 12, 13, 32, 133, 160, 5760, 8192, 8193, 8194, 8195, 8196, 8197, 8198, 8199, 8200, 8201,
    8202, 8232, 8233, 8239, 8287, 12288]

def isBlankChar (c : Char) : Bool := blanks.contains c.toNat

def trimStartChars (cs : List Char) : List Char := cs.dropWhile isBlankChar

def trimEndChars (cs : List Char) : List Char := (trimStartChars cs.reverse).reverse

def trimChars (cs : List Char) : List Char := trimEndChars (trimStartChars cs)

/-- The text without the blanks at its ends. -/
def trim (s : String) : String := String.ofList (trimChars s.toList)

/-- The text holds nothing but blanks. -/
def isBlank (s : String) : Bool := s.toList.all isBlankChar

def lowerChar (c : Char) : Char :=
  if 'A' ≤ c ∧ c ≤ 'Z' then Char.ofNat (c.toNat + 32) else c

/-- The letters from A to Z become small, no others. -/
def lowerLatin (s : String) : String := String.ofList (s.toList.map lowerChar)

end Regroup.Text
