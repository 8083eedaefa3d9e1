namespace Wireframe.Text

-- Simple case folding, for the characters that fold to ASCII, among them the long s (U+017F) and
-- the kelvin sign (U+212A). All others stay.
def fold (c : Char) : Char :=
  if c.toNat == 0x17F then 's' else if c.toNat == 0x212A then 'k' else c.toLower

-- Lower case for ASCII letters, and nothing else.
def lowerAscii (text : List Char) : List Char := text.map Char.toLower

end Wireframe.Text
