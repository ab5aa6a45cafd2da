/-!
# Blanks

The characters that count as **blank** around a number: the space characters of Unicode, the
separators of lines and paragraphs, the controls that move to another column or line, and the mark
of byte order.

* `ConfigSource.Text.blankRanges`, `ConfigSource.Text.isBlank`: the characters;
* `ConfigSource.Text.trimmed`: a text without the blanks at its ends.
-/

namespace ConfigSource

namespace Text

/-- The code points of blanks: closed ranges, ascending and apart. -/
def blankRanges : List (Nat × Nat) :=
  [(0x09, 0x0D), (0x20, 0x20), (0xA0, 0xA0), (0x1680, 0x1680), (0x2000, 0x200A), (0x2028, 0x2029),
    (0x202F, 0x202F), (0x205F, 0x205F), (0x3000, 0x3000), (0xFEFF, 0xFEFF)]

/-- Whether a character is blank. -/
def isBlank (c : Char) : Bool :=
  blankRanges.any fun range => decide (range.1 ≤ c.toNat ∧ c.toNat ≤ range.2)

/-- A text without the blanks at its beginning and at its end. -/
def trimmed (cs : List Char) : List Char :=
  ((cs.dropWhile isBlank).reverse.dropWhile isBlank).reverse

end Text

end ConfigSource
