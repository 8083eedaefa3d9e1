import Wireframe.Yaml.Scalar
import Wireframe.Yaml.Tag

namespace Wireframe.Yaml

-- Indentation becomes tokens too: one opens a block and one closes it.
inductive Token where
  | version
  -- what a handle stands for
  | handle (name : List Char) (bytes : Bytes)
  | documentStart
  | documentEnd
  | blockSequence
  | blockMapping
  | blockEnd
  | flowSequence
  | flowSequenceEnd
  | flowMapping
  | flowMappingEnd
  -- a comma inside brackets
  | comma
  -- the hyphen of an item
  | item
  | key
  | value
  | anchor (name : List Char)
  | alias (name : List Char)
  | tag (tag : WrittenTag)
  | scalar (style : ScalarStyle) (text : List Char)
  deriving DecidableEq

-- A token that turns out to begin a key if a colon follows on the same line.
structure PossibleKey where
  -- the number of tokens before it
  position : Nat
  place : Place
  -- nothing else than a key can stand there
  required : Bool

structure Scan where
  place : Place
  -- the tokens so far, backwards, and their number
  read : List Token := []
  count : Nat := 0
  -- the column of the innermost block, -1 outside of all, and those around it
  indent : Int := -1
  outer : List Int := []
  -- a key may begin here
  keyAllowed : Bool := true
  -- the token that may be a key, and those outside of the brackets around, one for each pair
  possible : Option PossibleKey := none
  around : List (Option PossibleKey) := []

namespace Scan

def inFlow (s : Scan) : Bool := !s.around.isEmpty

def emit (s : Scan) (token : Token) : Scan :=
  { s with read := token :: s.read, count := s.count + 1 }

-- Puts a token in behind the first `position` ones.
def putIn (s : Scan) (position : Nat) (token : Token) : Scan :=
  let later := s.count - position
  { s with read := s.read.take later ++ token :: s.read.drop later, count := s.count + 1 }

-- Goes so many characters on.
def advance (s : Scan) (n : Nat) : Scan := { s with place := s.place.past n }

-- How many bytes behind its beginning the colon of a key may stand.
def keyReach : Nat := 1024

def isStale (s : Scan) (key : PossibleKey) : Bool :=
  key.place.line < s.place.line || key.place.offset + keyReach < s.place.offset

-- Gives up the possible key. A required one may not be given up.
def dropKey? (s : Scan) : Option Scan :=
  if s.possible.any (·.required) then none else some { s with possible := none }

def dropStale? (s : Scan) : Option Scan :=
  let isOld (key : Option PossibleKey) := key.any s.isStale
  let keys := s.possible :: s.around
  if !keys.any isOld then some s
  else if keys.any fun key => isOld key && key.any (·.required) then none
  else
    let keep (key : Option PossibleKey) := key.filter fun key => !s.isStale key
    some { s with possible := keep s.possible, around := s.around.map keep }

-- Notes that the token to come may be a key.
def noteKey? (s : Scan) : Option Scan := do
  if !s.keyAllowed then return s
  let required := !s.inFlow && s.indent == s.place.column
  let s ← s.dropKey?
  return { s with possible := some ⟨s.count, s.place, required⟩ }

-- Opens a block at a column, unless one is open there. Its token goes behind the first `position`
-- ones.
def openBlock (s : Scan) (column position : Nat) (token : Token) : Scan :=
  if s.inFlow || (column : Int) ≤ s.indent then s
  else { s.putIn position token with indent := column, outer := s.indent :: s.outer }

def openBlockHere (s : Scan) (token : Token) : Scan :=
  s.openBlock s.place.column s.count token

-- Closes the blocks that lie deeper than a column.
def closeBlocks (s : Scan) (column : Int) : Scan :=
  if s.inFlow then s
  else
    let columns := s.indent :: s.outer
    let closed := (columns.takeWhile fun c => column < c).length
    { s with
      indent := (columns.drop closed).headD (-1)
      outer := (columns.drop closed).tail
      read := List.replicate closed .blockEnd ++ s.read
      count := s.count + closed }

-- Past blanks, comments and line breaks to the next token. Tabs count as blanks where they cannot
-- indent anything. A byte order mark may begin a line, and it takes up a column.
def toNextToken (fuel : Nat) (s : Scan) : Scan :=
  match fuel with
  | 0 => s
  | fuel + 1 =>
    let isSpace (c : Char) := c == ' ' || ((s.inFlow || !s.keyAllowed) && c == '\t')
    let marked := s.place.column == 0 && s.place.char?.any isByteOrderMark
    let place := ((if marked then s.place.next else s.place).skip isSpace).skipComment
    if place.char?.any isBreak then
      toNextToken fuel { s with place := place.next, keyAllowed := s.keyAllowed || !s.inFlow }
    else { s with place }

-- A name behind a sign, as anchors and aliases have it.
def name? (s : Scan) : Option (List Char × Scan) :=
  let name := s.place.next.rest.takeWhile isNameChar
  let s := s.advance (name.length + 1)
  let isEnd := s.place.char?.all fun c =>
    isGap c || ['?', ':', ',', ']', '}', '%', '@', (Char.ofNat 0x60)].contains c
  if name.isEmpty || !isEnd then none else some (name, s)

-- Behind a tag there is a gap or, inside brackets, a comma.
def checkTagEnd? (s : Scan) : Option Scan :=
  if endsWord s.place.char? || (s.inFlow && s.place.sees ',') then some s else none

-- The end of a line that holds nothing else, or only a comment.
def lineEnd? (p : Place) : Option Place :=
  let p := (p.skip isBlank).skipComment
  match p.char? with
  | none => some p
  | some c => if isBreak c then some p.next else none

-- A number of nine digits at most.
def versionPart? (p : Place) : Option (Nat × Place) :=
  let digits := p.rest.takeWhile Char.isDigit
  if digits.isEmpty || 9 < digits.length then none
  else some (Text.ofDigits digits, p.past digits.length)

-- The version, which is 1.1 or 1.2.
def version? (p : Place) : Option Place := do
  let (major, p) ← versionPart? p
  if !p.sees '.' then none
  else
    let (minor, p) ← versionPart? p.next
    if major == 1 && (minor == 1 || minor == 2) then some p else none

-- A handle and what it stands for.
def declaration? (p : Place) : Option (List Char × Bytes × Place) := do
  let (handle, rest) ← declaredHandle? p.rest
  if !rest.head?.any isBlank then none
  else
    let (bytes, rest) ← someTagBytes? true (rest.dropWhile isBlank)
    if endsWord rest.head? then some (handle, bytes, p.before rest) else none

-- A line with a directive: the version or the declaration of a handle.
def directive? (s : Scan) : Option Scan := do
  let p := s.place.next
  let name := p.rest.takeWhile isNameChar
  let p := p.past name.length
  if !endsWord p.char? then none
  else
    let p := p.skip isBlank
    if name == ['Y', 'A', 'M', 'L'] then
      return { s.emit .version with place := ← lineEnd? (← version? p) }
    else if name == ['T', 'A', 'G'] then
      let (handle, bytes, p) ← declaration? p
      return { s.emit (.handle handle bytes) with place := ← lineEnd? p }
    else none

-- A token at the beginning of a line that stands outside of all blocks.
def outside? (s : Scan) : Option Scan := do
  let s ← (s.closeBlocks (-1)).dropKey?
  return { s with keyAllowed := false }

-- An opening bracket. Brackets can be keys.
def openFlow? (s : Scan) (token : Token) : Option Scan := do
  let s ← s.noteKey?
  let s := (s.emit token).advance 1
  return { s with around := s.possible :: s.around, possible := none, keyAllowed := true }

-- A closing bracket, if need be without its opening one.
def closeFlow? (s : Scan) (token : Token) : Option Scan := do
  let s ← s.dropKey?
  let s := (s.emit token).advance 1
  return {
    s with
    possible := s.around.headD none, around := s.around.tail, keyAllowed := false }

def comma? (s : Scan) : Option Scan := do
  let s ← s.dropKey?
  return { (s.emit .comma).advance 1 with keyAllowed := true }

def item? (s : Scan) : Option Scan := do
  if !s.inFlow && !s.keyAllowed then none
  else
    let s ← (s.openBlockHere .blockSequence).dropKey?
    return { (s.emit .item).advance 1 with keyAllowed := true }

-- The sign for a key that is not seen as such otherwise.
def explicitKey? (s : Scan) : Option Scan := do
  if !s.inFlow && !s.keyAllowed then none
  else
    let s ← (s.openBlockHere .blockMapping).dropKey?
    return { (s.emit .key).advance 1 with keyAllowed := !s.inFlow }

-- A colon. The possible key before it is one; without it, the key is empty.
def value? (s : Scan) : Option Scan :=
  match s.possible with
  | some key =>
    let s := (s.putIn key.position .key).openBlock key.place.column key.position .blockMapping
    some { (s.emit .value).advance 1 with possible := none, keyAllowed := false }
  | none =>
    if !s.inFlow && !s.keyAllowed then none
    else
      let s := s.openBlockHere .blockMapping
      some { (s.emit .value).advance 1 with keyAllowed := !s.inFlow }

def anchor? (s : Scan) (token : List Char → Token) : Option Scan := do
  let s ← s.noteKey?
  let (name, s) ← s.name?
  return { s.emit (token name) with keyAllowed := false }

def tagged? (s : Scan) : Option Scan := do
  let s ← s.noteKey?
  let (tag, rest) ← writtenTag? s.place.rest
  let s ← { s with place := s.place.before rest }.checkTagEnd?
  return { s.emit (.tag tag) with keyAllowed := false }

def blockScalar? (s : Scan) (literal : Bool) : Option Scan := do
  let s ← s.dropKey?
  let (text, place) ← block? literal s.indent s.place
  return {
    s.emit (.scalar (if literal then .literal else .folded) text) with
    place, keyAllowed := true }

def quotedScalar? (s : Scan) (double : Bool) : Option Scan := do
  let s ← s.noteKey?
  let (text, place) ← quoted? double s.place
  return { s.emit (.scalar .quoted text) with place, keyAllowed := false }

def plainScalar? (s : Scan) : Option Scan := do
  let s ← s.noteKey?
  let plain ← plain? s.inFlow (s.indent + 1) s.place
  return { s.emit (.scalar .plain plain.text) with place := plain.place, keyAllowed := plain.endsLine }

-- The signs that a plain scalar cannot begin with.
def isIndicator (c : Char) : Bool :=
  ['-', '?', ':', ',', '[', ']', '{', '}', '#', '&', '*', '!', '|', '>', '\'', '"', '%', '@',
    (Char.ofNat 0x60)].contains c

-- A gap cannot begin a plain scalar. A hyphen does if no blank follows; outside of brackets, a
-- question mark and a colon do so if no gap follows.
def beginsPlain (s : Scan) (c : Char) : Bool :=
  (!isGap c && !isIndicator c) ||
    (c == '-' && !s.place.second?.any isBlank) ||
    (!s.inFlow && (c == '?' || c == ':') && !endsWord s.place.second?)

-- The token at a place that begins with the given character.
def token? (s : Scan) (c : Char) : Option Scan :=
  let endsHere := endsWord s.place.second?
  if s.place.column == 0 && c == '%' then do (← s.outside?).directive?
  else if s.place.isDocumentMark then do
    return ((← s.outside?).emit (if c == '-' then .documentStart else .documentEnd)).advance 3
  else if c == '[' then s.openFlow? .flowSequence
  else if c == '{' then s.openFlow? .flowMapping
  else if c == ']' then s.closeFlow? .flowSequenceEnd
  else if c == '}' then s.closeFlow? .flowMappingEnd
  else if c == ',' then s.comma?
  else if c == '-' && endsHere then s.item?
  else if c == '?' && (s.inFlow || endsHere) then s.explicitKey?
  else if c == ':' && (s.inFlow || endsHere) then s.value?
  else if c == '*' then s.anchor? .alias
  else if c == '&' then s.anchor? .anchor
  else if c == '!' then s.tagged?
  else if c == '|' && !s.inFlow then s.blockScalar? true
  else if c == '>' && !s.inFlow then s.blockScalar? false
  else if c == '\'' then s.quotedScalar? false
  else if c == '"' then s.quotedScalar? true
  else if s.beginsPlain c then s.plainScalar?
  else none

-- The end of the text closes all blocks.
def finish? (s : Scan) : Option (List Token) := do
  let s ← (s.closeBlocks (-1)).dropKey?
  return s.read.reverse

-- Each round passes a character at least.
def run? (fuel : Nat) (s : Scan) : Option (List Token) :=
  match fuel with
  | 0 => none
  | fuel + 1 =>
    match (s.toNextToken (s.place.rest.length + 1)).dropStale? with
    | none => none
    | some s =>
      let s := s.closeBlocks s.place.column
      match s.place.char? with
      | none => s.finish?
      | some c =>
        match s.token? c with
        | none => none
        | some s => s.run? fuel

end Scan

def tokens? (text : List Char) : Option (List Token) :=
  if text.all isAllowed then
    Scan.run? (text.length + 1) { place := { rest := unifyBreaks text } }
  else none

end Wireframe.Yaml
