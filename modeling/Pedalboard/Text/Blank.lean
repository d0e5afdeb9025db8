/-!
# White space

The characters with the Unicode property `White_Space`, and trimming a text of them.
-/

namespace Pedalboard

/-- The character has the property `White_Space`. -/
def isWhiteSpace (c : Char) : Bool :=
  let n := c.toNat
  (0x9 ≤ n && n ≤ 0xd) || n == 0x20 || n == 0x85 || n == 0xa0 || n == 0x1680 ||
    (0x2000 ≤ n && n ≤ 0x200a) || n == 0x2028 || n == 0x2029 || n == 0x202f || n == 0x205f ||
    n == 0x3000

/-- The list without white space at its ends. -/
def trimWhiteSpace (cs : List Char) : List Char :=
  ((cs.dropWhile isWhiteSpace).reverse.dropWhile isWhiteSpace).reverse

/-- The text without white space at its ends. -/
def trimmed (text : String) : String := String.ofList (trimWhiteSpace text.toList)

/-- The text holds nothing but white space. -/
def onlyWhiteSpace (text : String) : Bool := text.toList.all isWhiteSpace

end Pedalboard
