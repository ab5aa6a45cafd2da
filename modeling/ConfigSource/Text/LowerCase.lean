/-!
# Lower case

Names are compared after **lower-casing**, letter by letter and in every alphabet. All names consist
of characters below `0x80`, and of the characters beyond only two have one of these in their lower
case: the sign of the kelvin becomes `k`, and the capital `I` with a dot becomes an `i` and a
combining dot. So a name may be met by more than the spellings of its own letters – but the letters
of other alphabets take no part in it, and here they stand for themselves.

* `ConfigSource.Text.lowerForm`: what becomes of a character;
* `ConfigSource.Text.lowerCase`: a text in lower case.
-/

namespace ConfigSource

namespace Text

/-- The sign of the kelvin, a letter of its own that looks like a `K`. -/
def kelvinSign : Char := '\u212A'

/-- The capital `I` with a dot. -/
def dottedCapitalI : Char := '\u0130'

/-- The dot that stands above the letter before it. -/
def combiningDot : Char := '\u0307'

/-- What becomes of a character in lower case. -/
def lowerForm (c : Char) : List Char :=
  if c = kelvinSign then ['k']
  else if c = dottedCapitalI then ['i', combiningDot]
  else [c.toLower]

/-- A text in lower case. -/
def lowerCase (s : String) : String := String.ofList (s.toList.flatMap lowerForm)

end Text

end ConfigSource
