namespace Wireframe.Text

-- The 25 characters of the Unicode property White_Space.
def isBlank (c : Char) : Bool :=
  let n := c.toNat
  (0x09 ≤ n && n ≤ 0x0D) || n == 0x20 || n == 0x85 || n == 0xA0 || n == 0x1680 ||
    (0x2000 ≤ n && n ≤ 0x200A) || n == 0x2028 || n == 0x2029 || n == 0x202F || n == 0x205F ||
    n == 0x3000

-- The 65 control characters, general category Cc.
def isControl (c : Char) : Bool :=
  c.toNat ≤ 0x1F || (0x7F ≤ c.toNat && c.toNat ≤ 0x9F)

-- Format characters that leave no mark, so that one inside a word splits it unseen.
def isHidden (c : Char) : Bool :=
  let n := c.toNat
  n == 0xAD || n == 0x180E || (0x200B ≤ n && n ≤ 0x200F) || (0x202A ≤ n && n ≤ 0x202E) ||
    (0x2060 ≤ n && n ≤ 0x2064) || n == 0xFEFF

-- The maximal runs of characters that are not blank. `word` holds the run being read, backwards.
def words (text : List Char) : List (List Char) :=
  go [] text
where
  flush (word : List Char) : List (List Char) :=
    if word.isEmpty then [] else [word.reverse]
  go (word : List Char) : List Char → List (List Char)
    | [] => flush word
    | c :: rest => if isBlank c then flush word ++ go [] rest else go (c :: word) rest

def trimStart (text : List Char) : List Char := text.dropWhile isBlank

def trimEnd (text : List Char) : List Char := (text.reverse.dropWhile isBlank).reverse

def trim (text : List Char) : List Char := trimEnd (trimStart text)

end Wireframe.Text
