import Wireframe.Pattern.Basic

namespace Wireframe.Pattern

-- The text that lies before `stop`, which is an end part of `start`.
def between (start stop : List Char) : List Char := start.take (start.length - stop.length)

structure Match where
  -- how many characters stand before the match
  start : Nat
  length : Nat
  picked : Option (List Char)

-- The end of the preferred match that begins at the given place.
def front? (p : Pattern) (before : Option Char) (text : List Char) : Option Cursor :=
  (p.ends { before, after := text }).head?

-- Walks to the first place where the pattern matches. `start` counts the characters passed.
def findFrom? (p : Pattern) (start : Nat) (before : Option Char) (text : List Char) : Option Match :=
  match p.front? before text with
  | some e =>
    some {
      start
      length := text.length - e.after.length
      picked := e.picked.map fun part => between part.1 part.2 }
  | none =>
    match text with
    | [] => none
    | c :: rest => p.findFrom? (start + 1) (some c) rest

def find? (p : Pattern) (text : List Char) : Option Match := p.findFrom? 0 none text

-- The pattern matches somewhere in the text.
def occursIn (p : Pattern) (text : List Char) : Bool := (p.find? text).isSome

-- The pieces of the text between the matches of the pattern, matches being taken from left to right
-- without overlap. `inside` is the number of characters of the current match still to pass, `piece`
-- the piece being read, backwards.
def piecesFrom (p : Pattern) (inside : Nat) (piece : List Char) (before : Option Char) :
    List Char → List (List Char)
  | [] => [piece.reverse]
  | c :: rest =>
    match inside with
    | n + 1 => p.piecesFrom n piece (some c) rest
    | 0 =>
      match p.front? before (c :: rest) with
      | some e =>
        match (c :: rest).length - e.after.length with
        | n + 1 => piece.reverse :: p.piecesFrom n [] (some c) rest
        | 0 => p.piecesFrom 0 (c :: piece) (some c) rest
      | none => p.piecesFrom 0 (c :: piece) (some c) rest

def pieces (p : Pattern) (text : List Char) : List (List Char) := p.piecesFrom 0 [] none text

-- The text with every match replaced.
def replaceAll (p : Pattern) (filler : List Char) (text : List Char) : List Char :=
  filler.intercalate (p.pieces text)

end Wireframe.Pattern
