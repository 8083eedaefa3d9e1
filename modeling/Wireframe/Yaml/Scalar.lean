import Wireframe.Text.Numeral
import Wireframe.Yaml.Place

namespace Wireframe.Yaml

-- How a scalar is written. Single and double quotes count as one style.
inductive ScalarStyle where
  | plain | quoted | literal | folded
  deriving DecidableEq, Repr

-- What becomes of the breaks between two lines.
def foldBreaks : List Char → List Char
  | [] => []
  | ['\n'] => [' ']
  | '\n' :: more => more
  | breaks => breaks

-- What becomes of blanks and breaks between two parts of a scalar. Blanks next to a break vanish.
def foldGap (gap : List Char) : List Char :=
  if gap.any isBreak then foldBreaks (gap.filter isBreak) else gap

def isFlowSign (c : Char) : Bool := [',', '[', ']', '{', '}'].contains c

-- The part of a plain scalar up to the next blank or break. Inside brackets a colon may not stand
-- right before another sign.
def plainPart? (flow : Bool) : List Char → Option (List Char)
  | [] => some []
  | c :: rest =>
    if isGap c then some []
    else if flow && c == ':' && rest.head?.any (fun d => isFlowSign d || d == '?') then none
    else if c == ':' && endsWord rest.head? then some []
    else if flow && isFlowSign c then some []
    else (plainPart? flow rest).map (c :: ·)

-- A tab stands where a line is still being indented. `column` counts the characters since the last
-- break, if there was one.
def tabIndents (indent : Int) (column : Option Nat) : List Char → Bool
  | [] => false
  | c :: rest =>
    if isBreak c then tabIndents indent (some 0) rest
    else
      (c == '\t' && column.any fun n => n < indent) ||
        tabIndents indent (column.map (· + 1)) rest

structure Plain where
  text : List Char
  place : Place
  -- the scalar was followed by a line break
  endsLine : Bool

-- The rest of a plain scalar. `read` is what has been read, backwards, and `gap` what stands between
-- it and the place.
def plainTail? (fuel : Nat) (flow : Bool) (indent : Int) (read gap : List Char) (p : Place) :
    Option Plain :=
  match fuel with
  | 0 => none
  | fuel + 1 =>
    match plainPart? flow p.rest with
    | none => none
    | some [] => some ⟨read.reverse, p, gap.any isBreak⟩
    | some part =>
      let read := part.reverse ++ ((foldGap gap).reverse ++ read)
      let p := p.past part.length
      let gap := p.rest.takeWhile isGap
      let q := p.past gap.length
      if gap.isEmpty then some ⟨read.reverse, p, false⟩
      else if tabIndents indent none gap then none
      else if (!flow && q.column < indent) || q.isDocumentMark || q.sees '#' then
        some ⟨read.reverse, q, gap.any isBreak⟩
      else plainTail? fuel flow indent read gap q

-- A plain scalar. Its lines are indented at least by `indent`, unless it stands inside brackets.
def plain? (flow : Bool) (indent : Int) (p : Place) : Option Plain :=
  plainTail? (p.rest.length + 1) flow indent [] [] p

-- The character for a letter behind a backslash.
def escaped? : Char → Option Char
  | '0' => some (Char.ofNat 0)
  | 'a' => some (Char.ofNat 7)
  | 'b' => some (Char.ofNat 8)
  | 't' | '\t' => some '\t'
  | 'n' => some '\n'
  | 'v' => some (Char.ofNat 0x0B)
  | 'f' => some (Char.ofNat 0x0C)
  | 'r' => some '\r'
  | 'e' => some (Char.ofNat 0x1B)
  | ' ' => some ' '
  | '"' => some '"'
  | '/' => some '/'
  | '\\' => some '\\'
  | 'N' => some (Char.ofNat 0x85)
  | '_' => some (Char.ofNat 0xA0)
  | 'L' => some (Char.ofNat 0x2028)
  | 'P' => some (Char.ofNat 0x2029)
  | _ => none

-- How many hexadecimal digits follow a letter behind a backslash.
def escapeLength? : Char → Option Nat
  | 'x' => some 2
  | 'u' => some 4
  | 'U' => some 8
  | _ => none

-- The character with a number in hexadecimal.
def hexChar? (digits : List Char) : Option Char := do
  let values ← digits.mapM Text.hexValue?
  let n := values.foldl (fun n value => 16 * n + value) 0
  if Nat.isValidChar n then some (Char.ofNat n) else none

-- The character that an escape stands for, with the length of the escape behind the backslash.
def escape? : List Char → Option (Char × Nat)
  | [] => none
  | c :: rest =>
    match escapeLength? c with
    | some n =>
      if rest.length < n then none else (hexChar? (rest.take n)).map fun x => (x, n + 1)
    | none => (escaped? c).map fun x => (x, 1)

-- The rest of a quoted scalar. Inside single quotes, two of them stand for one; inside double
-- quotes, a backslash escapes what follows. `read` is what has been read, backwards.
def quotedTail? (fuel : Nat) (double : Bool) (read : List Char) (p : Place) :
    Option (List Char × Place) :=
  match fuel with
  | 0 => none
  | fuel + 1 =>
    if p.isDocumentMark then none
    else
      match p.rest with
      | [] => none
      | c :: rest =>
        if isGap c then
          let gap := (c :: rest).takeWhile isGap
          quotedTail? fuel double ((foldGap gap).reverse ++ read) (p.past gap.length)
        else if double && c == '"' then some (read.reverse, p.next)
        else if !double && c == '\'' then
          if rest.head? == some '\'' then quotedTail? fuel double ('\'' :: read) (p.past 2)
          else some (read.reverse, p.next)
        else if double && c == '\\' then
          if rest.head?.any isBreak then
            -- the line goes on in the next one without a blank
            let gap := rest.tail.takeWhile isGap
            quotedTail? fuel double ((gap.filter isBreak).reverse ++ read) (p.past (gap.length + 2))
          else
            match escape? rest with
            | some (x, n) => quotedTail? fuel double (x :: read) (p.past (n + 1))
            | none => none
        else quotedTail? fuel double (c :: read) p.next

-- A scalar in single or double quotes, from its opening quote on.
def quoted? (double : Bool) (p : Place) : Option (List Char × Place) :=
  quotedTail? (p.rest.length + 1) double [] p.next

-- What happens to the line breaks at the end of a block.
inductive Chomping where
  | strip | clip | keep
  deriving DecidableEq, Repr

structure BlockHeader where
  chomping : Chomping
  -- the indentation relative to the surroundings, if it is given
  indent : Option Nat

def chomping? (c : Option Char) : Option Chomping :=
  match c with
  | some '+' => some .keep
  | some '-' => some .strip
  | _ => none

-- The sign for the line breaks and the digit for the indentation, in either order.
def blockHeader? (p : Place) : Option (BlockHeader × Place) :=
  let digit? (p : Place) := (p.char?.filter Char.isDigit).map Text.asciiValue
  let (chomping, digit, p) :=
    match chomping? p.char? with
    | some chomping => (some chomping, digit? p.next, if (digit? p.next).isSome then p.past 2 else p.next)
    | none =>
      match digit? p with
      | some n =>
        let chomping := chomping? p.next.char?
        (chomping, some n, if chomping.isSome then p.past 2 else p.next)
      | none => (none, none, p)
  if digit == some 0 then none
  else
    let p := (p.skip isBlank).skipComment
    match p.char? with
    | none => some (⟨chomping.getD .clip, digit⟩, p)
    | some c => if isBreak c then some (⟨chomping.getD .clip, digit⟩, p.next) else none

structure Lead where
  breaks : List Char
  -- the furthest column that was reached
  furthest : Nat
  place : Place

-- Blank lines, and the indentation of the line after them. Without a known indentation all blanks
-- count. A tab may not indent.
def blockLead? (fuel : Nat) (indent : Option Nat) (breaks : List Char) (furthest : Nat) (p : Place) :
    Option Lead :=
  match fuel with
  | 0 => none
  | fuel + 1 =>
    let blanks := (p.rest.takeWhile (· == ' ')).length
    let p := p.past (match indent with | some n => min blanks (n - p.column) | none => blanks)
    let furthest := max furthest p.column
    if p.sees '\t' && indent.all fun n => p.column < n then none
    else
      match p.rest with
      | c :: _ =>
        if isBreak c then blockLead? fuel indent (breaks ++ [c]) furthest p.next
        else some ⟨breaks, furthest, p⟩
      | [] => some ⟨breaks, furthest, p⟩

-- What stands between two lines of a block. In a folded one, a break between two lines that do not
-- begin with a blank becomes a blank or, before empty lines, vanishes.
def joinLines (literal bothFlush : Bool) (lineBreak breaks : List Char) : List Char :=
  if !literal && bothFlush && lineBreak == ['\n'] then
    if breaks.isEmpty then [' '] else breaks
  else lineBreak ++ breaks

-- The lines of a block. `read` is what has been read, backwards, `lineBreak` ended the line before,
-- and `flush` says that this one did not begin with a blank.
def blockLines? (fuel : Nat) (literal : Bool) (chomping : Chomping) (indent : Nat)
    (read lineBreak : List Char) (flush : Bool) (lead : Lead) : Option (List Char × Place) :=
  match fuel with
  | 0 => none
  | fuel + 1 =>
    let p := lead.place
    if p.column == indent && !p.rest.isEmpty then
      let isFlush := !p.char?.any isBlank
      let line := p.rest.takeWhile fun c => !isBreak c
      let join := joinLines literal (flush && isFlush) lineBreak lead.breaks
      let read := line.reverse ++ (join.reverse ++ read)
      let q := p.past line.length
      let lineBreak := q.rest.take 1
      match blockLead? (q.rest.length + 1) (some indent) [] 0 q.next with
      | some lead => blockLines? fuel literal chomping indent read lineBreak isFlush lead
      | none => none
    else
      let tail :=
        match chomping with
        | .strip => []
        | .clip => lineBreak
        | .keep => lineBreak ++ lead.breaks
      some (read.reverse ++ tail, p)

-- A block from its sign on. `parent` is the indentation of its surroundings.
def block? (literal : Bool) (parent : Int) (p : Place) : Option (List Char × Place) := do
  let (header, p) ← blockHeader? p.next
  let given := header.indent.map fun n => (max parent 0).toNat + n
  let lead ← blockLead? (p.rest.length + 1) given [] 0 p
  let indent := given.getD (max lead.furthest (max (parent + 1) 1).toNat)
  blockLines? (p.rest.length + 1) literal header.chomping indent [] [] true lead

end Wireframe.Yaml
