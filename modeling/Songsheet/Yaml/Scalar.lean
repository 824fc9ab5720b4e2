import Songsheet.Yaml.Resolution

/-!
# Writing scalars

A text is written in the plainest style that reads back as the same text.

* A text with a line feed is a literal block, one line of text to a line.
* Any other is plain, unless it would then stand for something else (`isPlainText`) or its
  characters would be taken for marks (`allowsPlain`); then it is single-quoted.
* What neither style can carry, such as a control character, is double-quoted with escapes.

Styles that go over several lines need the column at which the lines behind the first begin.
-/

namespace Songsheet.Yaml

/-! ## Characters -/

/-- The characters that end a line. -/
def isBreak (c : Char) : Bool :=
  c == '\n' || c == '\r' || c == '\u0085' || c == '\u2028' || c == '\u2029'

/-- The characters that may stand unescaped. -/
def isPrintable (c : Char) : Bool :=
  let n := c.toNat
  n == 0x0A || (0x20 ≤ n && n ≤ 0x7E) || (0xA0 ≤ n && n ≤ 0xD7FF)
    || (0xE000 ≤ n && n ≤ 0xFFFD && n != 0xFEFF) || 0x10000 ≤ n

/-- The characters that part words, or the end of the text. -/
def isBlankOrEnd : Option Char → Bool
  | some c => c == ' ' || c == '\t' || c == '\x00' || isBreak c
  | none => true

/-- The marks that no plain text begins with. -/
def leadingMarks : List Char :=
  ['#', ',', '[', ']', '\x7b', '\x7d', '&', '*', '!', '|', '>', '\'', '"', '%', '@', '\x60']

/-- The marks that no plain text begins with if a blank follows. -/
def leadingMarksBeforeBlank : List Char := ['?', ':', '-']

/-! ## Which styles are allowed -/

/-- Each character of a text with the one behind it. -/
def pairs (text : List Char) : List (Char × Option Char) :=
  text.zip (text.tail.map some ++ [none])

/-- Whether a text begins with marks that would not be read as text. -/
def startsWithMark (text : List Char) : Bool :=
  ['-', '-', '-'].isPrefixOf text || ['.', '.', '.'].isPrefixOf text ||
  match text with
  | [] => false
  | first :: rest =>
    leadingMarks.contains first
      || (leadingMarksBeforeBlank.contains first && isBlankOrEnd rest.head?)

/-- Whether a text holds marks behind its first character that would not be read as text: a
colon before a blank or a number sign behind one. -/
def containsMark (text : List Char) : Bool :=
  (pairs text).tail.any (fun (c, next) => c == ':' && isBlankOrEnd next)
    || (pairs text).any fun (c, next) => isBlankOrEnd (some c) && next == some '#'

/-- Whether a text can only be written with escapes: it has a character that is not printable
or a space before a line break. -/
def needsEscapes (text : List Char) : Bool :=
  text.any (fun c => !isPrintable c)
    || (pairs text).any fun (c, next) => c == ' ' && next.any isBreak

/-- Whether a line break is followed by a space. -/
def hasIndentedLine (text : List Char) : Bool :=
  (pairs text).any fun (c, next) => isBreak c && next == some ' '

/-- Whether a text may be written as a literal block. -/
def allowsLiteral (text : List Char) : Bool :=
  !needsEscapes text && text.getLast? != some ' '

/-- Whether a text may be written between single quotation marks. -/
def allowsSingle (text : List Char) : Bool :=
  !needsEscapes text && !hasIndentedLine text

/-- Whether a text may be written without any marks. -/
def allowsPlain (text : List Char) : Bool :=
  allowsSingle text && !text.any isBreak && text.head? != some ' '
    && text.getLast? != some ' ' && !startsWithMark text && !containsMark text

/-! ## Styles -/

/-- A text whose further lines begin at a column. With `closing`, the end counts as the
beginning of a line too. -/
def indented (column : Nat) (closing : Bool) (text : List Char) : String :=
  let rec go (behindBreak : Bool) : List Char → List Char
    | [] => if behindBreak && closing then List.replicate column ' ' else []
    | c :: rest =>
      if isBreak c then c :: go true rest
      else if behindBreak then List.replicate column ' ' ++ c :: go false rest
      else c :: go false rest
  String.ofList (go false text)

/-- The single-quoted style: an apostrophe is written twice. -/
def singleQuoted (column : Nat) (text : List Char) : String :=
  "'" ++ indented column true (text.flatMap fun c => if c == '\'' then ['\'', '\''] else [c])
    ++ "'"

/-- A number in hexadecimal digits, upper case, with leading zeros up to a width. -/
def hexDigits (width n : Nat) : String :=
  let digits := (Nat.toDigits 16 n).map Char.toUpper
  String.ofList (List.replicate (width - digits.length) '0' ++ digits)

/-- A character of the double-quoted style. -/
def escaped (c : Char) : String :=
  match c with
  | '\x00' => "\\0"
  | '\x07' => "\\a"
  | '\x08' => "\\b"
  | '\t' => "\\t"
  | '\n' => "\\n"
  | '\x0b' => "\\v"
  | '\x0c' => "\\f"
  | '\r' => "\\r"
  | '\x1b' => "\\e"
  | '"' => "\\\""
  | '\\' => "\\\\"
  | '\u0085' => "\\N"
  | '\u2028' => "\\L"
  | '\u2029' => "\\P"
  | c =>
    if isPrintable c then String.singleton c
    else if c.toNat ≤ 0xFF then "\\x" ++ hexDigits 2 c.toNat
    else if c.toNat ≤ 0xFFFF then "\\u" ++ hexDigits 4 c.toNat
    else "\\U" ++ hexDigits 8 c.toNat

/-- The double-quoted style: on one line, with escapes. -/
def doubleQuoted (text : List Char) : String :=
  "\"" ++ String.join (text.map escaped) ++ "\""

/-- The head of a literal block: a 2 if the indentation cannot be seen from the first line, and
what becomes of the line breaks at the end. -/
def literalHead (text : List Char) : String :=
  let indentation :=
    if text.head?.any fun c => c == ' ' || isBreak c then "2" else ""
  let chomping := match text.reverse with
    | [] => "-"
    | last :: before =>
      if !isBreak last then "-"
      else if before.isEmpty || before.head?.any isBreak then "+"
      else ""
  "|" ++ indentation ++ chomping

/-- The literal style, with the line break at its end. -/
def literal (column : Nat) (text : List Char) : String :=
  literalHead text ++ indented column false ('\n' :: text)
    ++ (if text.getLast?.any isBreak then "" else "\n")

/-- A text in the style that suits it, through the end of the line. -/
def writeText (column : Nat) (text : String) : String :=
  let chars := text.toList
  if chars.contains '\n' then
    if allowsLiteral chars then literal column chars else doubleQuoted chars ++ "\n"
  else if isPlainText text && allowsPlain chars then text ++ "\n"
  else if allowsSingle chars then singleQuoted column chars ++ "\n"
  else doubleQuoted chars ++ "\n"

end Songsheet.Yaml
