import Wireframe.Fault
import Wireframe.Pattern.Search

namespace Wireframe.Instruction

inductive Threat where
  | ruleOverride | whitelistBypass | styleInjection | execution
  deriving DecidableEq, Repr

namespace Threat

def name : Threat → String
  | ruleOverride => "RuleOverride"
  | whitelistBypass => "WhitelistBypass"
  | styleInjection => "StyleInjection"
  | execution => "Execution"

def reason : Threat → String
  | ruleOverride => "attempt to override system rules"
  | whitelistBypass => "attempt to use components outside the whitelist"
  | styleInjection => "attempt to inject styles or markup"
  | execution => "attempt to execute code"

end Threat

namespace Phrase

open Pattern

-- One of the words, in the singular or the plural.
def plurals (words : List String) : Pattern := anyOf (words.map fun w => lit w ++ opt (lit "s"))

-- To set the rules aside.
def override : Pattern :=
  whole (litOf ["ignore", "disregard", "forget", "override", "bypass"]) ++
    atMost 3 (blanks ++ some1 Text.isWord) ++ blanks ++
    plurals ["rule", "instruction", "prompt", "constraint", "guideline", "restriction"] ++ edge

-- To take another part, or to set new rules.
def pretence : Pattern :=
  whole (lit "you are now" ||| lit "act as" ||| lit "pretend " ++ litOf ["to be", "you are"] |||
      lit "system prompt") |||
    edge ++ lit "new instruction" ++ opt (lit "s") ++ maybeBlanks ++ lit ":"

-- To name kinds that there are not.
def newKind : Pattern :=
  edge ++ litOf ["custom", "arbitrary", "unlisted", "unsupported", "any other", "new"] ++ blanks ++
    litOf ["component", "element", "widget"] ++ opt (lit "s") ++ blanks ++
    litOf ["type", "kind"] ++ opt (lit "s") ++ edge

-- To go beyond the kinds that are allowed.
def beyondWhitelist : Pattern :=
  edge ++ litOf ["outside", "beyond", "not in", "ignore", "skip", "bypass"] ++ blanks ++
    opt (lit "of" ++ blanks) ++ opt (lit "the" ++ blanks) ++ opt (lit "component" ++ blanks) ++
    (lit "whitelist" ||| lit "allow" ++ opt (oneOf ['-', ' ']) ++ lit "list" |||
      lit "allowed components") ++ edge

-- Styles and markup.
def markup : Pattern := anyOf [
  edge ++ lit "style" ++ maybeBlanks ++ lit "=",
  edge ++ lit "class" ++ opt (lit "name") ++ maybeBlanks ++ lit "=",
  whole (lit "classname"),
  lit "<" ++ maybeBlanks ++ litOf ["style", "script", "iframe", "link"] ++ edge,
  edge ++ lit "inline" ++ blanks ++ (lit "css" ||| lit "style" ++ opt (lit "s")) ++ edge,
  whole (lit "dangerouslysetinnerhtml"),
  whole (lit "innerhtml"),
  whole (lit "tailwind"),
  edge ++ lit "custom" ++ blanks ++ lit "css" ++ edge]

-- Code.
def code : Pattern := anyOf [
  edge ++ litOf ["eval", "exec", "settimeout", "function"] ++ maybeBlanks ++ lit "(",
  edge ++ lit "require" ++ maybeBlanks ++ lit "(" ++ maybeBlanks ++ oneOf ['\'', '"'],
  edge ++ lit "import" ++ maybeBlanks ++ lit "(",
  lit "javascript" ++ maybeBlanks ++ lit ":",
  whole (lit "process.env"),
  whole (lit "document.cookie"),
  edge ++ litOf ["execute", "run"] ++ blanks ++
    opt (litOf ["this", "the", "arbitrary", "some"] ++ blanks) ++
    litOf ["code", "script", "shell", "command"] ++ opt (lit "s") ++ edge]

end Phrase

-- The phrases that are refused, in the order in which they are looked for.
def refused : List (Threat × Pattern) := [
  (.ruleOverride, Phrase.override),
  (.ruleOverride, Phrase.pretence),
  (.whitelistBypass, Phrase.newKind),
  (.whitelistBypass, Phrase.beyondWhitelist),
  (.styleInjection, Phrase.markup),
  (.execution, Phrase.code)]

def threat? (text : List Char) : Option Threat :=
  (refused.find? fun entry => entry.2.occursIn text).map (·.1)

def checkSafe (text : List Char) : Except Fault Unit :=
  match threat? text with
  | some threat => .error (.injection threat.reason)
  | none => .ok ()

end Wireframe.Instruction
