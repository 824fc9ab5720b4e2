import Songsheet.Cursor
import Songsheet.Text.Escape

/-!
# Tokens

The words of the language: runs of blanks, pitch keys, numerals, quoted texts, the marks that
begin a directive or shape a duration, control characters that mean nothing, and the end of
the text.

* `TokenKind.describe` — how a diagnostic speaks of a token.
* `TokenKind.literal` — how a token listing shows one.
* `TokenKind.ofMark?` — the single characters that are tokens of their own.
-/

namespace Songsheet

/-- What a token is. -/
inductive TokenKind where
  | blank
  | key (text : String)
  | number (digits : String)
  | quoted (text : String)
  | openBracket
  | slash
  | closeBracket
  | includeMark
  | trackMark
  | sequenceMark
  | attributeMark
  | invalid (c : Char)
  | endOfText
  deriving DecidableEq, Repr

namespace TokenKind

/-- The token that a character is on its own. -/
def ofMark? : Char → Option TokenKind
  | '[' => some .openBracket
  | '/' => some .slash
  | ']' => some .closeBracket
  | '<' => some .includeMark
  | '@' => some .trackMark
  | '$' => some .sequenceMark
  | '%' => some .attributeMark
  | _ => none

/-- How a diagnostic speaks of a token. -/
def describe : TokenKind → String
  | .blank => "whitespace"
  | .key text => "'" ++ text ++ "'"
  | .number digits => "number " ++ digits
  | .quoted _ => "quoted text"
  | .openBracket => "'['"
  | .slash => "'/'"
  | .closeBracket => "']'"
  | .includeMark => "'<'"
  | .trackMark => "'@'"
  | .sequenceMark => "'$'"
  | .attributeMark => "'%'"
  | .invalid c => "invalid character " ++ Text.charLiteral c
  | .endOfText => "end of input"

/-- The name of a kind of token. -/
def name : TokenKind → String
  | .blank => "Whitespace"
  | .key _ => "PitchKey"
  | .number _ => "Number"
  | .quoted _ => "QuotedText"
  | .openBracket => "LBracket"
  | .slash => "Slash"
  | .closeBracket => "RBracket"
  | .includeMark => "Include"
  | .trackMark => "TrackLabel"
  | .sequenceMark => "SequenceLabel"
  | .attributeMark => "Attribute"
  | .invalid _ => "Invalid"
  | .endOfText => "Eof"

/-- How a token listing shows a token: its name, and between parentheses what it carries. -/
def literal (kind : TokenKind) : String :=
  match kind with
  | .key text | .number text | .quoted text => kind.name ++ "(" ++ Text.textLiteral text ++ ")"
  | .invalid c => kind.name ++ "(" ++ Text.charLiteral c ++ ")"
  | _ => kind.name

end TokenKind

/-- A token and the place of its first character. -/
structure Token where
  kind : TokenKind
  position : Position
  deriving DecidableEq, Repr

end Songsheet
