import Wireframe.Text.Blank
import Wireframe.Text.Caseless
import Wireframe.Text.Numeral
import Wireframe.Text.Word

namespace Wireframe

inductive Pattern where
  -- the empty text
  | empty
  -- one character of a class
  | one (cls : Char → Bool)
  -- any number of characters of a class, preferably all there are
  | run (cls : Char → Bool)
  -- a place where a word begins or ends
  | edge
  | seq (p q : Pattern)
  | either (p q : Pattern)
  -- the part of a match that is asked for
  | pick (p : Pattern)

-- A place in a text: the character before it, the text after it, and what has been picked on the
-- way here, as the text from where the picked part begins and the text from where it ends.
structure Cursor where
  before : Option Char
  after : List Char
  picked : Option (List Char × List Char) := none

namespace Cursor

-- A word begins or ends here: a word character stands on exactly one side.
def atEdge (c : Cursor) : Bool :=
  c.before.any Text.isWord != c.after.head?.any Text.isWord

-- The places that a run of a class can reach, the furthest first. `nearer` holds those before here.
def reach (cls : Char → Bool) (picked : Option (List Char × List Char)) (nearer : List Cursor)
    (before : Option Char) : List Char → List Cursor
  | [] => ⟨before, [], picked⟩ :: nearer
  | c :: rest =>
    if cls c then reach cls picked (⟨before, c :: rest, picked⟩ :: nearer) (some c) rest
    else ⟨before, c :: rest, picked⟩ :: nearer

end Cursor

namespace Pattern

instance : Append Pattern := ⟨seq⟩

instance : OrOp Pattern := ⟨either⟩

-- The places where a match from `c` can end, the preferred one first: of two alternatives the
-- first comes first, and a run takes as much as it can before it takes less.
def ends : Pattern → Cursor → List Cursor
  | empty, c => [c]
  | one cls, c =>
    match c.after with
    | x :: rest => if cls x then [⟨some x, rest, c.picked⟩] else []
    | [] => []
  | run cls, c => Cursor.reach cls c.picked [] c.before c.after
  | edge, c => if c.atEdge then [c] else []
  | seq p q, c => (p.ends c).flatMap q.ends
  | either p q, c => p.ends c ++ q.ends c
  | pick p, c => (p.ends c).map fun e => { e with picked := some (c.after, e.after) }

-- A character of a class, or several.
def some1 (cls : Char → Bool) : Pattern := one cls ++ run cls

-- The pattern or, failing that, nothing.
def opt (p : Pattern) : Pattern := p ||| empty

-- The first of the patterns that matches; the empty list matches nowhere.
def anyOf : List Pattern → Pattern
  | [] => one fun _ => false
  | [p] => p
  | p :: q :: rest => p ||| anyOf (q :: rest)

-- At most `n` times the pattern, preferably as often as possible.
def atMost : Nat → Pattern → Pattern
  | 0, _ => empty
  | n + 1, p => opt (p ++ atMost n p)

-- The character itself, without regard to case.
def letter (c : Char) : Pattern := one fun x => Text.fold x == c

def letters : List Char → Pattern
  | [] => empty
  | [c] => letter c
  | c :: d :: rest => letter c ++ letters (d :: rest)

-- The text itself, without regard to case. It is given in lower case.
def lit (text : String) : Pattern := letters text.toList

-- One of the texts, the earlier ones preferred.
def litOf (texts : List String) : Pattern := anyOf (texts.map lit)

-- One of the listed characters.
def oneOf (chars : List Char) : Pattern := one fun x => chars.contains x

-- One blank character or more, and any number of them.
def blanks : Pattern := some1 Text.isBlank

def maybeBlanks : Pattern := run Text.isBlank

-- The pattern as a word or phrase of its own.
def whole (p : Pattern) : Pattern := edge ++ p ++ edge

end Pattern

end Wireframe
