import Songsheet.Yaml.Token

/-!
# Reading scalars

Each style has its own reader, which begins behind the opening mark, if there is one, and
answers with the text and the spot behind the scalar, or not at all if the scalar is
malformed.

* `plainFrom` — ends at a mark, at a comment, or where the indentation falls back.
* `singleQuotedFrom`, `doubleQuotedFrom` — end at the closing mark.
* `blockFrom` — literal and folded blocks, which end where the indentation falls back.
-/

namespace Songsheet.Yaml

/-! ## Plain scalars -/

/-- The marks of collections in flow style. -/
def flowMarks : List Char := [',', '[', ']', '\x7b', '\x7d']

/-- Reads a plain scalar that is indented by at least `indent`. -/
def plainFrom (flow : Bool) (indent : Nat) (f : Folding) (p : Place) :
    List Char → Option (Folding × Spot)
  | [] => some (f, ⟨[], p⟩)
  | c :: rest =>
    if isSpace c then
      if f.first.isSome && p.column < indent && c == '\t' then none
      else plainFrom flow indent (f.space c) (p.next c) rest
    else if isBreak c then plainFrom flow indent (f.lineBreak c) (p.next c) rest
    else if (f.isPending && c == '#')
        || (f.first.isSome && !flow && p.column < indent)
        || (p.column == 0 && isDocumentMark (c :: rest))
        || (c == ':' && isBlankOrEnd rest.head?)
        || (flow && flowMarks.contains c) then some (f, ⟨c :: rest, p⟩)
    else if flow && c == ':' && rest.head?.any (fun d => d == '?' || flowMarks.contains d) then
      none
    else plainFrom flow indent (f.push c) (p.next c) rest

/-! ## Quoted scalars -/

/-- Reads a single-quoted scalar. -/
def singleQuotedFrom (f : Folding) (p : Place) : List Char → Option (String × Spot)
  | [] => none
  | '\'' :: '\'' :: rest => singleQuotedFrom (f.push '\'') ((p.next '\'').next '\'') rest
  | c :: rest =>
    if c = '\'' then some (f.fullResult, ⟨rest, p.next c⟩)
    else if isSpace c then singleQuotedFrom (f.space c) (p.next c) rest
    else if isBreak c then singleQuotedFrom (f.lineBreak c) (p.next c) rest
    else if p.column = 0 ∧ isDocumentMark (c :: rest) then none
    else singleQuotedFrom (f.push c) (p.next c) rest

/-- The character that an escape of one letter stands for. -/
def escapedChar? : Char → Option Char
  | '0' => some '\x00'
  | 'a' => some '\x07'
  | 'b' => some '\x08'
  | 't' => some '\t'
  | '\t' => some '\t'
  | 'n' => some '\n'
  | 'v' => some '\x0b'
  | 'f' => some '\x0c'
  | 'r' => some '\r'
  | 'e' => some '\x1b'
  | ' ' => some ' '
  | '"' => some '"'
  | '/' => some '/'
  | '\\' => some '\\'
  | 'N' => some '\u0085'
  | '_' => some '\u00a0'
  | 'L' => some '\u2028'
  | 'P' => some '\u2029'
  | _ => none

/-- The number of hexadecimal digits behind an escape that needs them. -/
def hexWidth? : Char → Option Nat
  | 'x' => some 2
  | 'u' => some 4
  | 'U' => some 8
  | _ => none

/-- The character with a code point given in hexadecimal digits. -/
def charOfHex? (digits : List Char) : Option Char := do
  let n ← radix? 16 digits
  if n.isValidChar then some (Char.ofNat n) else none

/-- What is still to be read of the digits of an escape. -/
structure HexEscape where
  missing : Nat
  digits : List Char

/-- Reads a double-quoted scalar; `escape` is there while the digits of an escape are read. -/
def doubleQuotedFrom (f : Folding) (p : Place) (escape : Option HexEscape) :
    List Char → Option (String × Spot)
  | [] => none
  | c :: rest =>
    match escape with
    | some ⟨missing + 1, digits⟩ =>
      let digits := digits ++ [c]
      if (digitValue? c).isNone then none
      else if missing = 0 then
        match charOfHex? digits with
        | some d => doubleQuotedFrom (f.push d) (p.next c) none rest
        | none => none
      else doubleQuotedFrom f (p.next c) (some ⟨missing, digits⟩) rest
    | _ =>
      if c = '"' then some (f.fullResult, ⟨rest, p.next c⟩)
      else if isSpace c then doubleQuotedFrom (f.space c) (p.next c) none rest
      else if isBreak c then doubleQuotedFrom (f.lineBreak c) (p.next c) none rest
      else if p.column = 0 ∧ isDocumentMark (c :: rest) then none
      else if c = '\\' then
        match rest with
        | [] => none
        | d :: rest' =>
          let behind := (p.next c).next d
          if isBreak d then doubleQuotedFrom f.escapedBreak behind none rest'
          else match hexWidth? d, escapedChar? d with
            | some width, _ => doubleQuotedFrom f behind (some ⟨width, []⟩) rest'
            | none, some e => doubleQuotedFrom (f.push e) behind none rest'
            | none, none => none
      else doubleQuotedFrom (f.push c) (p.next c) none rest

/-! ## Block scalars -/

/-- What becomes of the line breaks at the end of a block. -/
inductive Chomping where
  | strip
  | clip
  | keep
  deriving DecidableEq, Repr

/-- The head of a block: whether its lines are kept apart, what becomes of the breaks at its
end, and its indentation if that is given. -/
structure BlockHead where
  literal : Bool
  chomping : Chomping
  indent : Option Nat
  deriving Repr

/-- The chomping that a mark asks for. -/
def chompingOf? : Char → Option Chomping
  | '+' => some .keep
  | '-' => some .strip
  | _ => none

/-- The indentation that a digit asks for. -/
def indentOf? (c : Char) : Option Nat :=
  if '1' ≤ c && c ≤ '9' then some (c.toNat - '0'.toNat) else none

/-- Reads the chomping mark and the indentation digit of a block, in either order. -/
def blockHead (literal : Bool) (s : Spot) : BlockHead × Spot :=
  let plain : BlockHead := ⟨literal, .clip, none⟩
  match s.rest with
  | c :: rest =>
    let next := rest.head?
    match chompingOf? c, indentOf? c with
    | some chomping, _ =>
      match next.bind indentOf? with
      | some n => (⟨literal, chomping, some n⟩, s.skip 2)
      | none => ({ plain with chomping }, s.skip 1)
    | none, some n =>
      match next.bind chompingOf? with
      | some chomping => (⟨literal, chomping, some n⟩, s.skip 2)
      | none => ({ plain with indent := some n }, s.skip 1)
    | none, none => (plain, s)
  | [] => (plain, s)

/-- The spot behind the rest of a line and its break, if only spaces and a comment are left on
the line. -/
def endOfLine? (s : Spot) : Option Spot :=
  let s := s.skip (s.rest.takeWhile isSpace).length
  let s := if s.rest.head? = some '#' then
      s.skip (s.rest.takeWhile fun c => !isBreak c).length
    else s
  match s.rest with
  | [] => some s
  | c :: _ => if isBreak c then some (s.skip 1) else none

/-- The empty lines in front of a line of a block, and the indentation of that line. -/
structure BlockGap where
  breaks : List Char
  deepest : Nat
  spot : Spot

/-- Reads empty lines and the indentation behind them, up to `indent` if that is known. -/
def blockGap (indent : Option Nat) (breaks : List Char) (deepest : Nat) (p : Place) :
    List Char → Option BlockGap
  | [] => some ⟨breaks, deepest, ⟨[], p⟩⟩
  | c :: rest =>
    let inside := match indent with
      | some n => p.column < n
      | none => true
    if inside && c == ' ' then
      blockGap indent breaks (max deepest (p.column + 1)) (p.next c) rest
    else if inside && c == '\t' then none
    else if isBreak c then blockGap indent (breaks ++ [c]) deepest (p.next c) rest
    else some ⟨breaks, deepest, ⟨c :: rest, p⟩⟩

/-- The text of a block while its lines are read: the text with its last character first, the
break that ended the last line, the empty lines behind it, and whether the last line began
with a space. -/
structure BlockText where
  text : List Char
  last : Option Char
  breaks : List Char
  spaced : Bool

namespace BlockText

/-- Takes in the line breaks before another line, which may begin with a space. -/
def join (b : BlockText) (literal spaced : Bool) : List Char :=
  let last := b.last.toList
  let lead :=
    if !literal && b.last == some '\n' && !b.spaced && !spaced then
      (if b.breaks.isEmpty then [' '] else [])
    else last
  b.breaks.reverse ++ lead ++ b.text

/-- The text of a finished block. -/
def result (b : BlockText) (chomping : Chomping) : String :=
  let last := match chomping with
    | .strip => []
    | _ => b.last.toList
  let breaks := match chomping with
    | .keep => b.breaks
    | _ => []
  String.ofList (b.text.reverse ++ last ++ breaks)

end BlockText

/-- Reads the lines of a block that stand at column `indent`, at most `fuel` of them. -/
def blockLines (literal : Bool) (indent fuel : Nat) (b : BlockText) (s : Spot) :
    Option (BlockText × Spot) :=
  match fuel, s.rest with
  | fuel + 1, c :: _ =>
    if s.place.column = indent then do
      let spaced := isSpace c
      let line := s.rest.takeWhile fun c => !isBreak c
      let text := line.reverse ++ b.join literal spaced
      let behind := s.skip line.length
      let last := behind.rest.head?
      let behind := behind.skip 1
      let gap ← blockGap (some indent) [] 0 behind.place behind.rest
      blockLines literal indent fuel ⟨text, last, gap.breaks, spaced⟩ gap.spot
    else some (b, s)
  | _, _ => some (b, s)

/-- Reads a block behind its opening mark; `parent` is the column of the collection that holds
it, if any does. -/
def blockFrom (literal : Bool) (parent : Option Nat) (s : Spot) : Option (String × Spot) := do
  let (head, s) := blockHead literal s
  let s ← endOfLine? s
  let least := match parent with
    | some column => column + 1
    | none => 1
  let known := head.indent.map fun n => n + parent.getD 0
  let gap ← blockGap known [] 0 s.place s.rest
  let indent := known.getD (max gap.deepest least)
  let (b, s) ← blockLines literal indent (s.rest.length + 1) ⟨[], none, gap.breaks, false⟩ gap.spot
  return (b.result head.chomping, s)

end Songsheet.Yaml
