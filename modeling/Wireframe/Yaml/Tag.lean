import Wireframe.Text.Numeral
import Wireframe.Yaml.Place

namespace Wireframe.Yaml

abbrev Bytes := List UInt8

-- The bytes of ASCII characters.
def asciiBytes (text : List Char) : Bytes := text.map fun c => UInt8.ofNat c.toNat

-- The characters of names.
def isNameChar (c : Char) : Bool := c.isAlphanum || c == '_' || c == '-'

-- The characters that stand for themselves in a tag. A comma and square brackets are among them
-- where no list could go on behind the tag.
def isTagChar (listSigns : Bool) (c : Char) : Bool :=
  isNameChar c ||
    [';', '/', '?', ':', '@', '&', '=', '+', '$', '.', '!', '~', '*', '\'', '(', ')'].contains c ||
    (listSigns && [',', '[', ']'].contains c)

-- How many bytes follow the first one of a sequence.
def followers? (lead : UInt8) : Option Nat :=
  if lead < 0x80 then some 0
  else if lead < 0xC0 then none
  else if lead < 0xE0 then some 1
  else if lead < 0xF0 then some 2
  else if lead < 0xF8 then some 3
  else none

-- The bytes up to the end of a tag, and the text behind it. Bytes can be given by a percent sign
-- and two digits, but have to form sequences as UTF-8 has them. `owed` is the number of bytes that
-- the sequence at hand still lacks.
def tagBytes? (listSigns : Bool) (owed : Nat) : List Char → Option (Bytes × List Char)
  | '%' :: a :: b :: rest => do
    let byte := UInt8.ofNat (16 * (← Text.hexValue? a) + (← Text.hexValue? b))
    let owed ←
      match owed with
      | 0 => followers? byte
      | n + 1 => if 0x80 ≤ byte && byte < 0xC0 then some n else none
    let (bytes, rest) ← tagBytes? listSigns owed rest
    return (byte :: bytes, rest)
  | c :: rest =>
    if owed != 0 || c == '%' then none
    else if isTagChar listSigns c then
      (tagBytes? listSigns 0 rest).map fun (bytes, rest) => (UInt8.ofNat c.toNat :: bytes, rest)
    else some ([], c :: rest)
  | [] => if owed != 0 then none else some ([], [])

-- A zero byte ends a tag.
def upToZero (bytes : Bytes) : Bytes := bytes.takeWhile (· != 0)

-- The same, where something has to be written.
def someTagBytes? (listSigns : Bool) (text : List Char) : Option (Bytes × List Char) := do
  let (bytes, rest) ← tagBytes? listSigns 0 text
  if bytes.isEmpty then none else some (upToZero bytes, rest)

-- What handles stand for.
abbrev Handles := List (List Char × Bytes)

-- The handles that need no declaration.
def standardHandles : Handles :=
  [(['!'], asciiBytes ['!']), (['!', '!'], asciiBytes "tag:yaml.org,2002:".toList)]

-- A handle where it is declared: an exclamation mark, or two with or without a name between them.
def declaredHandle? : List Char → Option (List Char × List Char)
  | '!' :: text =>
    let name := text.takeWhile isNameChar
    match text.drop name.length with
    | '!' :: rest => some ('!' :: name ++ ['!'], rest)
    | rest => if name.isEmpty then some (['!'], rest) else none
  | _ => none

-- A tag as it is written. Without a handle, the bytes are all of it.
structure WrittenTag where
  handle : List Char
  bytes : Bytes
  deriving DecidableEq

-- The tag at the beginning of a text, and the text behind it.
def writtenTag? : List Char → Option (WrittenTag × List Char)
  | '!' :: '<' :: text => do
    match ← someTagBytes? true text with
    | (bytes, '>' :: rest) => some (⟨[], bytes⟩, rest)
    | _ => none
  | '!' :: text =>
    let name := text.takeWhile isNameChar
    match text.drop name.length with
    | '!' :: text => do
      let (bytes, rest) ← someTagBytes? false text
      return (⟨'!' :: name ++ ['!'], bytes⟩, rest)
    | text => do
      let (bytes, rest) ← tagBytes? false 0 text
      let bytes := upToZero (asciiBytes name ++ bytes)
      return (if bytes.isEmpty then ⟨[], asciiBytes ['!']⟩ else ⟨['!'], bytes⟩, rest)
  | _ => none

def WrittenTag.complete? (handles : Handles) (tag : WrittenTag) : Option Bytes :=
  if tag.handle.isEmpty then some tag.bytes
  else (handles.lookup tag.handle).map (· ++ tag.bytes)

-- The tag of whole numbers.
def intTag : Bytes := asciiBytes "tag:yaml.org,2002:int".toList

-- The name that a tag of the user's own gives: what stands behind its exclamation mark, if that is
-- UTF-8.
def ownName? : Bytes → Option String
  | 0x21 :: name => String.fromUTF8? ⟨name.toArray⟩
  | _ => none

end Wireframe.Yaml
