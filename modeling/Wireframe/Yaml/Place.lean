namespace Wireframe.Yaml

-- The characters that may stand in a text.
def isAllowed (c : Char) : Bool :=
  let n := c.toNat
  n == 0x09 || n == 0x0A || n == 0x0D || (0x20 ≤ n && n ≤ 0x7E) || n == 0x85 ||
    (0xA0 ≤ n && n ≤ 0xD7FF) || (0xE000 ≤ n && n ≤ 0xFFFD) || (0x10000 ≤ n && n ≤ 0x10FFFF)

-- Every line break but the two Unicode separators counts as a line feed.
def unifyBreaks : List Char → List Char
  | [] => []
  | '\r' :: '\n' :: rest => '\n' :: unifyBreaks rest
  | c :: rest => (if c == '\r' || c.toNat == 0x85 then '\n' else c) :: unifyBreaks rest

def isBreak (c : Char) : Bool := c == '\n' || c.toNat == 0x2028 || c.toNat == 0x2029

def isBlank (c : Char) : Bool := c == ' ' || c == '\t'

def isGap (c : Char) : Bool := isBlank c || isBreak c

def isByteOrderMark (c : Char) : Bool := c.toNat == 0xFEFF

-- Nothing, a blank or a line break follows.
def endsWord (next : Option Char) : Bool := next.all isGap

structure Place where
  rest : List Char
  line : Nat := 0
  column : Nat := 0
  -- how many bytes of UTF-8 have been passed
  offset : Nat := 0

namespace Place

def char? (p : Place) : Option Char := p.rest.head?

-- The character after the next one.
def second? (p : Place) : Option Char := p.rest[1]?

def sees (p : Place) (c : Char) : Bool := p.char? == some c

def next (p : Place) : Place :=
  match p.rest with
  | [] => p
  | c :: rest =>
    let offset := p.offset + c.utf8Size
    if isBreak c then ⟨rest, p.line + 1, 0, offset⟩ else ⟨rest, p.line, p.column + 1, offset⟩

-- The place so many characters further on.
def past (p : Place) : Nat → Place
  | 0 => p
  | n + 1 => p.next.past n

-- The place where only the given end of the text is left.
def before (p : Place) (rest : List Char) : Place := p.past (p.rest.length - rest.length)

-- The place behind a run of characters of a class.
def skip (p : Place) (cls : Char → Bool) : Place := p.past (p.rest.takeWhile cls).length

-- A line that begins or ends a document starts here.
def isDocumentMark (p : Place) : Bool :=
  p.column == 0 && endsWord p.rest[3]? &&
    (p.rest.take 3 == ['-', '-', '-'] || p.rest.take 3 == ['.', '.', '.'])

def skipComment (p : Place) : Place :=
  if p.sees '#' then p.skip fun c => !isBreak c else p

end Place

end Wireframe.Yaml
