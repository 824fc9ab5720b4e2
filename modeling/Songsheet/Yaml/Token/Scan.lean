import Songsheet.Yaml.Token.Scalar
import Songsheet.Yaml.Token.Tag

/-!
# From text to YAML tokens

In block style no mark opens or closes a collection. That a mapping began shows only at the
colon behind its first key, and that a collection ended at a line that is indented less; a
`Scanner` therefore remembers where a key may have begun and in which columns the collections
around it stand.

* `Scanner.fetch` — reads on by one mark or scalar.
* `tokens?` — all tokens of a text, or nothing if it is malformed.
-/

namespace Songsheet.Yaml

/-! ## Readable texts -/

/-- The characters that a text may hold. -/
def isReadable (c : Char) : Bool :=
  isPrintable c || c == '\t' || c == '\r' || c == '\u0085' || c == '\ufeff'

/-- A text with each of its line breaks written in one way, save the separators of lines and
of paragraphs. -/
def unifiedBreaks : List Char → List Char
  | '\r' :: '\n' :: rest => '\n' :: unifiedBreaks rest
  | c :: rest => (if c == '\r' || c == '\u0085' then '\n' else c) :: unifiedBreaks rest
  | [] => []

/-- The characters of a text, if all may be there. -/
def readable? (text : String) : Option (List Char) :=
  if text.toList.all isReadable then some (unifiedBreaks text.toList) else none

/-! ## The scanner -/

/-- Where a key may have begun: the number of tokens before it, and whether nothing but a key
can stand there. -/
structure PossibleKey where
  required : Bool
  index : Nat
  place : Place
  deriving Repr

/-- Whether a key can no longer be completed at a place: a key fits on a line and in 1024
characters. -/
def PossibleKey.isStale (k : PossibleKey) (p : Place) : Bool :=
  k.place.line < p.line || k.place.offset + 1024 < p.offset

/-- The text to be read, the tokens so far, the columns of the block collections around it
with the innermost first, and for each flow collection around it, and for the block outside
them, where a key may have begun. -/
structure Scanner where
  spot : Spot
  tokens : Array Token
  columns : List Nat
  keys : List (Option PossibleKey)
  keyAllowed : Bool

namespace Scanner

/-- Whether the scanner is inside a collection in flow style. -/
def inFlow (s : Scanner) : Bool := !s.keys.tail.isEmpty

/-- Adds a token. -/
def emit (s : Scanner) (t : Token) : Scanner :=
  { s with tokens := s.tokens.push t }

/-- Skips characters. -/
def skip (s : Scanner) (count : Nat) : Scanner :=
  { s with spot := s.spot.skip count }

/-- The column of the next character. -/
def column (s : Scanner) : Nat := s.spot.place.column

/-- The spot behind the blanks and comments in front of the next token, and whether a line
break among them allows a key. A tab is no indentation where a key might begin. -/
def gapEnd (flow allowed comment : Bool) (p : Place) : List Char → Spot × Bool
  | [] => (⟨[], p⟩, allowed)
  | c :: rest =>
    if isBreak c then gapEnd flow (allowed || !flow) false (p.next c) rest
    else if comment || c == ' ' || (c == '\t' && (flow || !allowed))
        || (c == '\ufeff' && p.column == 0) then
      gapEnd flow allowed comment (p.next c) rest
    else if c == '#' then gapEnd flow allowed true (p.next c) rest
    else (⟨c :: rest, p⟩, allowed)

/-- Goes on to the next token. -/
def skipGap (s : Scanner) : Scanner :=
  let (spot, keyAllowed) := gapEnd s.inFlow s.keyAllowed false s.spot.place s.spot.rest
  { s with spot, keyAllowed }

/-- Gives up the key that may have begun in the innermost collection. -/
def dropKey (s : Scanner) : Option Scanner :=
  match s.keys with
  | some k :: outer => if k.required then none else some { s with keys := none :: outer }
  | _ => some s

/-- Remembers that a key may begin here. -/
def saveKey (s : Scanner) : Option Scanner :=
  if s.keyAllowed then do
    let s ← s.dropKey
    let key := ⟨!s.inFlow && s.columns.head? == some s.column, s.tokens.size, s.spot.place⟩
    return { s with keys := some key :: s.keys.tail }
  else some s

/-- Closes the block collections that stand to the right of a column, or all. -/
def closeBlocks (s : Scanner) (column : Option Nat) : Scanner :=
  if s.inFlow then s
  else
    let inner := s.columns.takeWhile fun c => column.all (· < c)
    { s with
      columns := s.columns.drop inner.length
      tokens := inner.foldl (fun ts _ => ts.push .blockEnd) s.tokens }

/-- Opens a block collection at a column, unless one is open there; its token stands before
the token numbered `index`. -/
def openBlock (s : Scanner) (column index : Nat) (start : Token) : Scanner :=
  if !s.inFlow && s.columns.head?.all (· < column) then
    { s with columns := column :: s.columns, tokens := s.tokens.insertIdxIfInBounds index start }
  else s

/-- Opens a block collection that begins here. -/
def openBlockHere (s : Scanner) (start : Token) : Option Scanner :=
  if s.inFlow then some s
  else if s.keyAllowed then some (s.openBlock s.column s.tokens.size start)
  else none

/-! ## Marks -/

/-- Closes what is open at the end of a document or of the text. -/
def closeAll (s : Scanner) : Option Scanner := do
  let s ← (s.closeBlocks none).dropKey
  return { s with keyAllowed := false }

/-- Reads the mark that starts or ends a document. -/
def fetchDocumentMark (s : Scanner) (t : Token) : Option Scanner := do
  return (← s.closeAll).emit t |>.skip 3

/-- Reads a directive and the rest of its line. -/
def fetchDirective (s : Scanner) : Option Scanner := do
  let s ← s.closeAll
  let (token, spot) ← directive? s.spot
  return { s.emit token with spot := ← endOfLine? spot }

/-- Reads the mark that opens a flow collection. -/
def fetchFlowStart (s : Scanner) (t : Token) : Option Scanner := do
  let s ← s.saveKey
  return { s.emit t with keys := none :: s.keys, keyAllowed := true }.skip 1

/-- Reads the mark that closes a flow collection. -/
def fetchFlowEnd (s : Scanner) (t : Token) : Option Scanner := do
  let s ← s.dropKey
  let keys := if s.inFlow then s.keys.tail else s.keys
  return { s.emit t with keys, keyAllowed := false }.skip 1

/-- Reads a comma. -/
def fetchFlowEntry (s : Scanner) : Option Scanner := do
  let s ← s.dropKey
  return { s.emit .flowEntry with keyAllowed := true }.skip 1

/-- Reads the dash in front of an item. -/
def fetchEntry (s : Scanner) : Option Scanner := do
  let s ← (← s.openBlockHere .sequenceStart).dropKey
  return { s.emit .entry with keyAllowed := true }.skip 1

/-- Reads the question mark in front of a key. -/
def fetchKey (s : Scanner) : Option Scanner := do
  let s ← (← s.openBlockHere .mappingStart).dropKey
  return { s.emit .key with keyAllowed := !s.inFlow }.skip 1

/-- Reads the colon in front of a value. If a key may have begun before it and can still be
completed, one did. -/
def fetchValue (s : Scanner) : Option Scanner :=
  match s.keys.head?.join.filter fun k => !k.isStale s.spot.place with
  | some k =>
    let s := { s with
      tokens := s.tokens.insertIdxIfInBounds k.index .key
      keys := none :: s.keys.tail
      keyAllowed := false }
    some (((s.openBlock k.place.column k.index .mappingStart).emit .value).skip 1)
  | none => do
    let s ← (← s.dropKey).openBlockHere .mappingStart
    return { s.emit .value with keyAllowed := !s.inFlow }.skip 1

/-- Reads the name of an anchor or an alias. -/
def fetchName (s : Scanner) (t : String → Token) : Option Scanner := do
  let s ← s.saveKey
  let name := s.spot.rest.tail.takeWhile isNameChar
  let s := { s.emit (t (String.ofList name)) with keyAllowed := false }.skip (name.length + 1)
  let next := s.spot.rest.head?
  if !name.isEmpty && (isBlankOrEnd next || next.any ['?', ':', ',', ']', '\x7d', '%', '@',
      '\x60'].contains) then some s
  else none

/-- Reads a tag. A blank must follow it, or in flow style a comma. -/
def fetchTag (s : Scanner) : Option Scanner := do
  let s ← s.saveKey
  let (token, spot) ← tag? s.spot
  if spot.atBlank || (s.inFlow && spot.rest.head? == some ',') then
    return { s.emit token with spot, keyAllowed := false }
  else none

/-! ## Scalars -/

/-- Adds a scalar that ends at a spot. -/
def emitScalar (s : Scanner) (style : Style) (text : String) (spot : Spot) : Scanner :=
  { s.emit (.scalar style text) with spot }

/-- Reads a block scalar. -/
def fetchBlock (s : Scanner) (literal : Bool) : Option Scanner := do
  let s ← s.dropKey
  let (text, spot) ← blockFrom literal s.columns.head? (s.spot.skip 1)
  return { s.emitScalar (if literal then .literal else .folded) text spot with keyAllowed := true }

/-- Reads a quoted scalar. -/
def fetchQuoted (s : Scanner) (read : Place → List Char → Option (String × Spot)) :
    Option Scanner := do
  let s ← s.saveKey
  let behind := s.spot.skip 1
  let (text, spot) ← read behind.place behind.rest
  return { s.emitScalar .quoted text spot with keyAllowed := false }

/-- Reads a plain scalar. A line break behind it allows a key. -/
def fetchPlain (s : Scanner) : Option Scanner := do
  let s ← s.saveKey
  let indent := match s.columns.head? with
    | some column => column + 1
    | none => 0
  let (folding, spot) ← plainFrom s.inFlow indent .empty s.spot.place s.spot.rest
  return { s.emitScalar .plain folding.result spot with keyAllowed := folding.first.isSome }

/-- Whether a plain scalar may begin with a character, given the next one. -/
def startsPlain (flow : Bool) (c : Char) (next : Option Char) : Bool :=
  !(isBlankOrEnd (some c) || leadingMarks.contains c || leadingMarksBeforeBlank.contains c)
    || (c == '-' && !next.any isSpace)
    || (!flow && (c == '?' || c == ':') && !isBlankOrEnd next)

/-- Reads the mark or the scalar that begins with the next character, `c`. -/
def fetchFrom (s : Scanner) (c : Char) (rest : List Char) : Option Scanner :=
  let next := rest.head?
  let blankNext := isBlankOrEnd next
  if s.column = 0 ∧ c = '%' then s.fetchDirective
  else if s.column = 0 ∧ isDocumentMark (c :: rest) then
    s.fetchDocumentMark (if c = '-' then .documentStart else .documentEnd)
  else if c = '[' then s.fetchFlowStart .flowSequenceStart
  else if c = '\x7b' then s.fetchFlowStart .flowMappingStart
  else if c = ']' then s.fetchFlowEnd .flowSequenceEnd
  else if c = '\x7d' then s.fetchFlowEnd .flowMappingEnd
  else if c = ',' then s.fetchFlowEntry
  else if c = '-' ∧ blankNext then s.fetchEntry
  else if c = '?' ∧ (s.inFlow ∨ blankNext) then s.fetchKey
  else if c = ':' ∧ (s.inFlow ∨ blankNext) then s.fetchValue
  else if c = '*' then s.fetchName .alias
  else if c = '&' then s.fetchName .anchor
  else if c = '!' then s.fetchTag
  else if c = '|' ∧ !s.inFlow then s.fetchBlock true
  else if c = '>' ∧ !s.inFlow then s.fetchBlock false
  else if c = '\'' then s.fetchQuoted (singleQuotedFrom .empty)
  else if c = '"' then s.fetchQuoted fun p rest => doubleQuotedFrom .empty p none rest
  else if startsPlain s.inFlow c next then s.fetchPlain
  else none

/-- Reads on by one mark or scalar, or closes all at the end of the text; then the answer is
marked as the last. -/
def fetch (s : Scanner) : Option (Scanner × Bool) := do
  let s := s.skipGap
  match s.spot.rest with
  | [] => return (← s.closeAll, true)
  | c :: rest => return (← (s.closeBlocks (some s.column)).fetchFrom c rest, false)

/-- Reads on until the end of the text, by at most `fuel` marks and scalars. -/
def fetchAll (s : Scanner) : Nat → Option Scanner
  | 0 => none
  | fuel + 1 => do
    let (s, last) ← s.fetch
    if last then return s else s.fetchAll fuel

end Scanner

/-- The tokens of a text. Each takes a character at least, so that the length of the text
bounds their number. -/
def tokens? (text : String) : Option (List Token) := do
  let chars ← readable? text
  let start : Scanner := ⟨⟨chars, ⟨0, 0, 0⟩⟩, #[], [], [none], true⟩
  let s ← start.fetchAll (chars.length + 1)
  return s.tokens.toList

end Songsheet.Yaml
