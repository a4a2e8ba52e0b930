import Maat.Lib.Regex
import Maat.Orchestrator.Handshake

/-!
# Redaction

`redact` of `orchestrator/src/redact.ts`: the two replacements that every alert goes through.
-/

namespace Maat.Orchestrator

open Js Regex

/-- `[A-Za-z0-9_-]` -/
def isTokenChar (c : Char) : Bool := isWord c || c == '-'

/-- `[A-Z0-9_]` -/
def isScreamingChar (c : Char) : Bool := c.isUpper || c.isDigit || c == '_'

/-- A letter under the flag `i`. -/
def sameLetter (letter c : Char) : Bool := c.toLower == letter

/-- `/https?:\/\/\S+/gi` -/
def urlPattern : Re :=
  .seq (.char (sameLetter 'h')) <| .seq (.char (sameLetter 't')) <|
  .seq (.char (sameLetter 't')) <| .seq (.char (sameLetter 'p')) <|
  .seq (.optional (.char (sameLetter 's'))) <| .seq (.char (· == ':')) <|
  .seq (.char (· == '/')) <| .seq (.char (· == '/')) <| .many (.char fun c => !isSpace c.toNat) 1

/-- `0x` -/
def hexPrefix : Re := .seq (.char (· == '0')) (.char (· == 'x'))

/-- `[A-Z][A-Z0-9_]*\b` -/
def screamingName : Re :=
  .seq (.char Char.isUpper) (.seq (.many (.char isScreamingChar) 0) .boundary)

/-- `[a-z]+(?:_[a-z]+)+(?![A-Za-z0-9_-])` -/
def snakeName : Re :=
  .seq (.many (.char Char.isLower) 1) <|
  .seq (.many (.seq (.char (· == '_')) (.many (.char Char.isLower) 1)) 1) <|
  .notAhead (.char isTokenChar)

/-- `\b(?!0x)(?!...)(?!...)[A-Za-z0-9_-]{24,}\b`, with the flag `g` -/
def tokenPattern : Re :=
  .seq .boundary <| .seq (.notAhead hexPrefix) <| .seq (.notAhead screamingName) <|
  .seq (.notAhead snakeName) <| .seq (.many (.char isTokenChar) 24) .boundary

def redactedUrl : Str := "[redacted-url]".toList

def redacted : Str := "[redacted]".toList

def redact (text : Str) : Str :=
  replace tokenPattern redacted (replace urlPattern redactedUrl text)

end Maat.Orchestrator
