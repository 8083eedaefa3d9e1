import Wireframe.Instruction.Concept

namespace Wireframe.Instruction

-- Where minimality was asked for.
inductive MinimalitySource where
  | finalDirective | general
  deriving DecidableEq, Repr

def MinimalitySource.name : MinimalitySource → String
  | finalDirective => "final_directive"
  | general => "general"

def isClauseEnd (c : Char) : Bool := ['.', '!', '?', ';', '\n'].contains c

-- The pieces between the matches, trimmed, without the empty ones.
def piecesBetween (separator : Pattern) (text : List Char) : List (List Char) :=
  ((separator.pieces text).map Text.trim).filter fun piece => !piece.isEmpty

def clauses (text : List Char) : List (List Char) := piecesBetween (Pattern.some1 isClauseEnd) text

def lastTwo (clauses : List (List Char)) : List (List Char) := clauses.drop (clauses.length - 2)

namespace Phrase

open Pattern

def nothingElse : Pattern := whole (lit "nothing" ++ blanks ++ lit "else")

def minimal : Pattern := whole (lit "minimal" ++ opt (litOf ["ist", "istic", "ly"]))

def aSingle : Pattern := lit "a" ++ blanks ++ lit "single"

def isNotLineBreak (c : Char) : Bool := c != '\n'

-- What makes a clause at the end a call for a single card.
def finalDirectives : List Pattern := [
  nothingElse,
  whole (litOf ["only", "just"] ++ blanks ++ (lit "one" ||| aSingle ||| lit "a" ||| lit "1") ++
    blanks ++ lit "card"),
  whole (lit "single" ++ blanks ++ lit "card"),
  minimal,
  whole (lit "keep" ++ blanks ++ lit "it" ++ blanks ++
    litOf ["simple", "minimal", "clean", "basic"]),
  whole (lit "that" ++ opt (one isApostrophe) ++ lit "s" ++ blanks ++ litOf ["it", "all"])]

-- What makes a text as a whole a call for a single card.
def generalDirectives : List Pattern := [
  whole (lit "only" ++ blanks ++ (lit "one" ||| aSingle ||| lit "1") ++ blanks ++ lit "card"),
  whole (lit "one" ++ blanks ++ lit "card") ++ run isNotLineBreak ++ nothingElse,
  nothingElse,
  minimal]

end Phrase

def anyOccursIn (patterns : List Pattern) (text : List Char) : Bool :=
  patterns.any fun p => p.occursIn text

def minimality? (text : List Char) : Option MinimalitySource :=
  if requiresComplex text then none
  else if (lastTwo (clauses text)).any (anyOccursIn Phrase.finalDirectives) then
    some .finalDirective
  else if anyOccursIn Phrase.generalDirectives text then some .general
  else none

namespace Phrase

open Pattern

-- A text between two quotes that does not hold the closing one. The text is picked.
def quotedBy (opening closing : Char) : Pattern :=
  letter opening ++ pick (some1 fun c => c != closing) ++ letter closing

def quoted : Pattern := anyOf [
  quotedBy '"' '"', quotedBy '“' '”', quotedBy '\'' '\'', quotedBy '‘' '’']

def isTitleStart (c : Char) : Bool := (Text.fold c).isAlphanum

def isTitlePart (c : Char) : Bool := Text.isWord c || c == '-'

-- A title without quotes, a single word. It is picked.
def bareTitle : Pattern := pick (one isTitleStart ++ run isTitlePart)

-- What may stand between the announcement of a title and the title: blanks, and among them perhaps
-- one sign.
def colon : Pattern := maybeBlanks ++ opt (oneOf [':', '='] ++ maybeBlanks)

-- The ways to give a title; the earlier ones are preferred.
def titles : List Pattern := [
  edge ++ lit "titled" ++ colon ++ quoted,
  edge ++ lit "titled" ++ colon ++ bareTitle,
  whole (lit "title") ++ colon ++ quoted,
  whole (lit "title") ++ colon ++ bareTitle,
  edge ++ lit "card" ++ colon ++ (quotedBy '"' '"' ||| quotedBy '“' '”')]

end Phrase

-- Words that are no titles.
def titleStopwords : List String :=
  ["a", "an", "the", "and", "with", "of", "that", "which", "is", "for", "to", "nothing", "only"]

def isTitle (text : List Char) : Bool :=
  !text.isEmpty && !titleStopwords.contains (String.ofList (Text.lowerAscii text))

-- The title that one of the ways to give it yields.
def titleBy? (phrase : Pattern) (text : List Char) : Option (List Char) :=
  (((phrase.find? text).bind (·.picked)).map Text.trim).filter isTitle

def title? (text : List Char) : Option (List Char) :=
  Phrase.titles.findSome? fun phrase => titleBy? phrase text

end Wireframe.Instruction
