import Songsheet.Note.Reader

/-!
# Scanning one character at a time

A scanner holds a whole text and an index into it, and every scan is made of single steps: a look at
the next characters, or one character taken. Nothing checks that there is a character to be taken;
where the text has ended, the scan breaks off. A loop ends when it has found what it looks for, and a
round that takes nothing would be repeated for ever. That neither happens is to be shown.

* `Scanner`, `Scan` — the place in a text, and what may be done there.
* `Scan.advance` — takes one character; the only step that moves the index.
* `Scan.repeatedly` — repeats a round until it is done.
* `Scan.skipComments`, `Scan.skipGap`, `Scan.quotedText`, `Scan.nextToken`, `Scan.tokens`,
  `Scan.note` — gaps, quoted texts, tokens and notes, scanned by such steps and loops.
-/

namespace Songsheet

/-! ## Scanners -/

/-- A text and the index, the line and the column of the character in it that is next. -/
structure Scanner where
  text : List Char
  index : Nat
  line : Nat
  column : Nat
  deriving DecidableEq, Repr

namespace Scanner

/-- The scanner at the start of a text. -/
def ofText (text : String) : Scanner := ⟨text.toList, 0, 1, 1⟩

/-- How many characters are still to come. -/
def left (s : Scanner) : Nat := s.text.length - s.index

/-- The scanner behind its next character, `x`. -/
def past (s : Scanner) (x : Char) : Scanner :=
  if x = '\n' then ⟨s.text, s.index + 1, s.line + 1, 1⟩
  else ⟨s.text, s.index + 1, s.line, s.column + 1⟩

end Scanner

/-- Why a scan does not come to a value. -/
inductive Halt where
  /-- Something is wrong with the text. -/
  | reported (d : Diagnostic)
  /-- A character was to be taken behind the end of the text. -/
  | outOfText
  /-- A round of a loop took nothing and was to be repeated. -/
  | endless
  deriving DecidableEq, Repr

/-- A computation with a scanner; the scanner is kept also where it does not come to a value. -/
abbrev Scan (α : Type) := EStateM Halt Scanner α

/-- What a round of a loop comes to. -/
inductive Round (β α : Type) where
  /-- One more round, with what has been gathered. -/
  | again (gathered : β)
  /-- The loop is done. -/
  | done (a : α)
  deriving DecidableEq, Repr

namespace Scan

variable {α β : Type}

/-! ## Steps -/

/-- The next character, which is not taken. -/
def peek? : Scan (Option Char) := fun s => .ok s.text[s.index]? s

/-- The character behind the next one. -/
def peekNext? : Scan (Option Char) := fun s => .ok s.text[s.index + 1]? s

/-- Whether no character is left. -/
def atEnd : Scan Bool := fun s => .ok (decide (s.text.length ≤ s.index)) s

/-- The place of the next character. -/
def position : Scan Position := fun s => .ok ⟨s.line, s.column⟩ s

/-- Fails with a cause found at a place. -/
def fail (cause : Cause) (place : Position) : Scan α :=
  fun s => .error (.reported (cause.reportedAt place)) s

/-- Takes the next character, which has to be there. -/
def advance : Scan Char := fun s =>
  match s.text[s.index]? with
  | some x => .ok x (s.past x)
  | none => .error .outOfText s

/-- Repeats a round until it is done. -/
def repeatedly (round : β → Scan (Round β α)) (gathered : β) : Scan α := fun s =>
  match round gathered s with
  | .error halt t => .error halt t
  | .ok (.done a) t => .ok a t
  | .ok (.again more) t =>
    if t.left < s.left then repeatedly round more t else .error .endless t
termination_by s => s.left

/-! ## Loops over characters -/

/-- Takes characters of a class as long as one is next, behind what has been gathered. -/
def takeWhile (within : Char → Bool) (gathered : String) : Scan String :=
  repeatedly (fun gathered => do
    match ← peek? with
    | some x =>
      if within x then return .again (gathered.push (← advance)) else return .done gathered
    | none => return .done gathered) gathered

/-- Takes a run of digits. -/
def digits : Scan String := takeWhile Char.isDigit ""

/-- Takes all up to the next blank or the end. -/
def word : Scan String := takeWhile (fun c => !Text.isBlank c) ""

/-- Takes all through the first `close`, and answers with what stands before it. -/
def through (close : Char) : Scan (Option String) :=
  repeatedly (fun gathered => do
    match ← peek? with
    | none => return .done none
    | some x => do
      let _ ← advance
      if x = close then return .done (some gathered) else return .again (gathered.push x)) ""

/-! ## Gaps -/

/-- Takes the rest of a block comment that has been opened at `opening`. -/
def closeComment (opening : Position) : Scan Unit :=
  repeatedly (fun _ : Unit => do
    if ← atEnd then fail .unterminatedComment opening
    else if (← peek?) = some '*' ∧ (← peekNext?) = some '/' then do
      let _ ← advance
      let _ ← advance
      return .done ()
    else do
      let _ ← advance
      return .again ()) ()

/-- Takes the comment that a slash begins, if one does: `second` stands behind the slash. -/
def commentFrom (second : Option Char) : Scan (Round Unit Unit) :=
  match second with
  | some '/' => do
    let _ ← takeWhile (· != '\n') ""
    return .again ()
  | some '*' => do
    let opening ← position
    let _ ← advance
    let _ ← advance
    closeComment opening
    return .again ()
  | _ => return .done ()

/-- Skips comments. -/
def skipComments : Scan Unit :=
  repeatedly (fun _ : Unit => do
    if (← peek?) = some '/' then commentFrom (← peekNext?) else return .done ()) ()

/-- Skips comments and blanks. -/
def skipGap : Scan Unit :=
  repeatedly (fun _ : Unit => do
    skipComments
    match ← peek? with
    | some x =>
      if Text.isBlank x then do
        let _ ← advance
        return .again ()
      else return .done ()
    | none => return .done ()) ()

/-! ## Quoted texts and tokens -/

/-- Takes the rest of a quoted text that has been opened at `opening`, behind what has been
gathered. -/
def closeQuote (opening : Position) (gathered : String) : Scan String :=
  repeatedly (fun gathered => do
    match ← peek? with
    | none => fail .unterminatedQuote opening
    | some x =>
      if x = '"' then do
        let _ ← advance
        if (← peek?) = some '"' then return .again (gathered.push (← advance))
        else return .done gathered
      else return .again (gathered.push (← advance))) gathered

/-- Scans a quoted text. -/
def quotedText : Scan String := do
  let opening ← position
  if (← peek?) = some '"' then do
    let _ ← advance
    closeQuote opening ""
  else fail (.expectedQuote (← peek?)) opening

/-- Scans the token that begins with the next character, `first`. -/
def kindFrom (first : Char) : Scan TokenKind :=
  if Text.isBlank first then do
    skipGap
    return .blank
  else if first.isDigit then do
    return .number (← digits)
  else if first = '"' then do
    return .quoted (← quotedText)
  else match TokenKind.ofMark? first with
    | some kind => do
      let _ ← advance
      return kind
    | none =>
      if Text.isControl first then do
        let _ ← advance
        return .invalid first
      else do
        return .key (← takeWhile isKeyChar ("".push (← advance)))

/-- Scans the next token. -/
def nextToken : Scan Token := do
  skipComments
  let start ← position
  match ← peek? with
  | none => return ⟨.endOfText, start⟩
  | some first => return ⟨← kindFrom first, start⟩

/-- Scans all tokens that are left; the last one is the end of the text. -/
def tokens : Scan (List Token) :=
  repeatedly (fun gathered => do
    let token ← nextToken
    if token.kind = .endOfText then return .done (gathered ++ [token])
    else return .again (gathered ++ [token])) []

/-! ## Notes -/

/-- Scans one of the two numbers of a duration clause. -/
def lengthPart (part : LengthPart) : Scan Nat := do
  let token ← nextToken
  match token.kind with
  | .number digits =>
    match Text.decimalBelow? UInt32.size digits with
    | some n => return n
    | none => fail (.lengthTooLarge part digits) token.position
  | found => fail (.expectedLength part found) token.position

/-- Scans a given mark of a duration clause. -/
def mark (expected : TokenKind) : Scan Unit := do
  let token ← nextToken
  if token.kind = expected then return ()
  else fail (.expectedMark expected token.kind) token.position

/-- Scans a duration behind its opening bracket, which stands at `start`. -/
def durationClause (start : Position) : Scan Duration := do
  let num ← lengthPart .numerator
  mark .slash
  let den ← lengthPart .denominator
  mark .closeBracket
  match Duration.ofRatio num den with
  | .ok duration => return duration
  | .error fault => fail (.invalidDuration num den fault) start

/-- The octave that `token` writes, if it does, and the token behind it. -/
def octaveAt (token : Token) : Scan (Option UInt8 × Token) :=
  match token.kind with
  | .number digits =>
    match Text.decimalBelow? UInt8.size digits with
    | some n => do return (some (UInt8.ofNat n), ← nextToken)
    | none => fail (.octaveOutOfRange digits) token.position
  | _ => pure (none, token)

/-- The duration of the clause that `token` opens, if it opens one, and the token behind it. -/
def durationAt (token : Token) : Scan (Option Duration × Token) :=
  match token.kind with
  | .openBracket => do
    let duration ← durationClause token.position
    return (some duration, ← nextToken)
  | _ => pure (none, token)

/-- The next token that is no blank. -/
def firstToken : Scan Token :=
  repeatedly (fun _ : Unit => do
    let token ← nextToken
    if token.kind = .blank then return .again () else return .done token) ()

/-- Checks that `token` may follow a note: a blank or the end of the text. -/
def noteEnd (token : Token) : Scan Unit :=
  match token.kind with
  | .blank | .endOfText => pure ()
  | found => fail (.trailingCharacters found) token.position

/-- Scans what may follow a key: an octave, a duration clause, and then a blank or the end. -/
def noteTail (pitch : Pitch) : Scan WrittenNote := do
  let first ← nextToken
  let (octave, second) ← octaveAt first
  let (duration, last) ← durationAt second
  noteEnd last
  return ⟨pitch, octave, duration⟩

/-- Scans one note behind a given note; where the text ends before a key, it is the empty note. -/
def note (previous : Note) : Scan Note := do
  let token ← firstToken
  match token.kind with
  | .endOfText => return .empty
  | .key spelling =>
    return (← noteTail ((Pitch.ofSpelling? spelling).getD .rest)).sounding previous
  | found => fail (.expectedKey found) token.position

end Scan

end Songsheet
