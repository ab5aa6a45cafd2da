/-!
# The order of texts

Texts are ordered by their 16-bit units: a character with a code up to `0xFFFF` is one unit, any
other a pair of units from the range that no character has. So a character beyond `0xFFFF` comes
before those from `0xE000` on.

* `ConfigSource.Text.units`: the units of a text;
* `ConfigSource.Text.atMost`: the order.
-/

namespace ConfigSource

namespace Text

/-- The units of a character. -/
def unitsOf (c : Char) : List Nat :=
  if c.toNat < 0x10000 then [c.toNat]
  else [0xD800 + (c.toNat - 0x10000) / 0x400, 0xDC00 + (c.toNat - 0x10000) % 0x400]

/-- The units of a text. -/
def units (s : String) : List Nat := s.toList.flatMap unitsOf

/-- Whether one text does not come after another. -/
def atMost (s t : String) : Bool := decide (¬ units t < units s)

end Text

end ConfigSource
