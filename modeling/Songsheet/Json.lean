/-!
# JSON

Reading one JSON text strictly: no comments, no trailing commas, nothing behind the value but
blanks.

* `Json.parse?` — the value of a text. The fields of an object are kept in order, also where
  two have one name, and a number is kept as its numeral.
* A reader of a part of a text answers with what it read and the text behind it.
* A text may hold an escape that names half of a character only. It is well formed but has no
  value, and is kept as such.
-/

namespace Songsheet

/-- A JSON value. -/
inductive Json where
  | null
  | bool (b : Bool)
  | number (numeral : String)
  | text (value : Option String)
  | list (items : List Json)
  | object (fields : List (Option String × Json))

namespace Json

/-- The characters between two tokens. -/
def isBlank (c : Char) : Bool := c == ' ' || c == '\n' || c == '\t' || c == '\r'

/-- A text without the blanks at its start. -/
def skipBlanks (text : List Char) : List Char := text.dropWhile isBlank

/-! ## Texts -/

/-- The value of a hexadecimal digit. -/
def hexDigit? (c : Char) : Option Nat :=
  if c.isDigit then some (c.toNat - '0'.toNat)
  else if 'a' ≤ c && c ≤ 'f' then some (c.toNat - 'a'.toNat + 10)
  else if 'A' ≤ c && c ≤ 'F' then some (c.toNat - 'A'.toNat + 10)
  else none

/-- The value of four hexadecimal digits. -/
def hexUnit? (digits : List Char) : Option Nat :=
  digits.foldlM (fun n c => (hexDigit? c).map (16 * n + ·)) 0

/-- The character of an escape of one letter. -/
def escaped? : Char → Option Char
  | '"' => some '"'
  | '\\' => some '\\'
  | '/' => some '/'
  | 'b' => some '\x08'
  | 'f' => some '\x0c'
  | 'n' => some '\n'
  | 'r' => some '\r'
  | 't' => some '\t'
  | _ => none

/-- The units of a text behind its opening mark: characters, or numbers of 16 bits that were
escaped. -/
def units? : List Char → Option (List (Char ⊕ Nat) × List Char)
  | '\\' :: 'u' :: a :: b :: c :: d :: rest => do
    let n ← hexUnit? [a, b, c, d]
    let (units, rest) ← units? rest
    return (.inr n :: units, rest)
  | '\\' :: c :: rest => do
    let e ← escaped? c
    let (units, rest) ← units? rest
    return (.inl e :: units, rest)
  | '"' :: rest => some ([], rest)
  | c :: rest =>
    if c.toNat < 0x20 then none
    else do
      let (units, rest) ← units? rest
      return (.inl c :: units, rest)
  | [] => none

/-- The characters that units stand for: two halves that belong together make one. -/
def joined? : List (Char ⊕ Nat) → Option (List Char)
  | [] => some []
  | .inl c :: units => (joined? units).map (c :: ·)
  | .inr high :: .inr low :: units =>
    if 0xD800 ≤ high ∧ high < 0xDC00 then
      if 0xDC00 ≤ low ∧ low < 0xE000 then
        (joined? units).map
          (Char.ofNat (0x10000 + 0x400 * (high - 0xD800) + (low - 0xDC00)) :: ·)
      else none
    else if 0xDC00 ≤ high ∧ high < 0xE000 then none
    else (joined? (.inr low :: units)).map (Char.ofNat high :: ·)
  | .inr n :: units =>
    if 0xD800 ≤ n ∧ n < 0xE000 then none else (joined? units).map (Char.ofNat n :: ·)

/-- Reads a text behind its opening mark. -/
def textFrom? (chars : List Char) : Option (Option String × List Char) := do
  let (units, rest) ← units? chars
  return ((joined? units).map String.ofList, rest)

/-! ## Numbers -/

/-- Reads at least one digit. -/
def digits? (chars : List Char) : Option (List Char × List Char) :=
  let digits := chars.takeWhile Char.isDigit
  if digits.isEmpty then none else some (digits, chars.dropWhile Char.isDigit)

/-- Reads the whole part of a numeral, which begins with a zero only if it is zero. -/
def whole? : List Char → Option (List Char × List Char)
  | '0' :: rest => if rest.head?.any Char.isDigit then none else some (['0'], rest)
  | chars => digits? chars

/-- Reads the places behind the point, if there is one. -/
def places? : List Char → Option (List Char × List Char)
  | '.' :: rest => (digits? rest).map fun (digits, rest) => ('.' :: digits, rest)
  | chars => some ([], chars)

/-- Reads an exponent, if there is one. -/
def exponent? : List Char → Option (List Char × List Char)
  | mark :: rest =>
    if mark = 'e' ∨ mark = 'E' then
      let (sign, rest) := match rest with
        | '+' :: rest => (['+'], rest)
        | '-' :: rest => (['-'], rest)
        | rest => ([], rest)
      (digits? rest).map fun (digits, rest) => (mark :: sign ++ digits, rest)
    else some ([], mark :: rest)
  | [] => some ([], [])

/-- Reads a numeral. -/
def numeral? (chars : List Char) : Option (String × List Char) := do
  let (sign, rest) := match chars with
    | '-' :: rest => (['-'], rest)
    | rest => ([], rest)
  let (whole, rest) ← whole? rest
  let (places, rest) ← places? rest
  let (exponent, rest) ← exponent? rest
  return (String.ofList (sign ++ whole ++ places ++ exponent), rest)

/-! ## Values -/

/-- Reads a word that stands for a value. -/
def word? (word : String) (v : Json) (chars : List Char) : Option (Json × List Char) :=
  if word.toList.isPrefixOf chars then some (v, chars.drop word.length) else none

mutual

/-- Reads a value. -/
def value? (chars : List Char) : Nat → Option (Json × List Char)
  | 0 => none
  | fuel + 1 =>
    match skipBlanks chars with
    | '"' :: rest => (textFrom? rest).map fun (s, rest) => (.text s, rest)
    | '[' :: rest =>
      match skipBlanks rest with
      | ']' :: rest => some (.list [], rest)
      | rest => (items? rest fuel).map fun (vs, rest) => (.list vs, rest)
    | '\x7b' :: rest =>
      match skipBlanks rest with
      | '\x7d' :: rest => some (.object [], rest)
      | rest => (fields? rest fuel).map fun (fs, rest) => (.object fs, rest)
    | 'n' :: rest => word? "null" .null ('n' :: rest)
    | 't' :: rest => word? "true" (.bool true) ('t' :: rest)
    | 'f' :: rest => word? "false" (.bool false) ('f' :: rest)
    | rest => (numeral? rest).map fun (n, rest) => (.number n, rest)

/-- Reads the items of a list, at least one, and its end. -/
def items? (chars : List Char) : Nat → Option (List Json × List Char)
  | 0 => none
  | fuel + 1 => do
    let (v, rest) ← value? chars fuel
    match skipBlanks rest with
    | ',' :: rest =>
      let (vs, rest) ← items? rest fuel
      return (v :: vs, rest)
    | ']' :: rest => return ([v], rest)
    | _ => none

/-- Reads the fields of an object, at least one, and its end. -/
def fields? (chars : List Char) : Nat → Option (List (Option String × Json) × List Char)
  | 0 => none
  | fuel + 1 => do
    match skipBlanks chars with
    | '"' :: rest =>
      let (key, rest) ← textFrom? rest
      match skipBlanks rest with
      | ':' :: rest =>
        let (v, rest) ← value? rest fuel
        match skipBlanks rest with
        | ',' :: rest =>
          let (fs, rest) ← fields? rest fuel
          return ((key, v) :: fs, rest)
        | '\x7d' :: rest => return ([(key, v)], rest)
        | _ => none
      | _ => none
    | _ => none

end

/-- The value of a text. Every second step of reading takes a character, so that twice the
length of the text bounds the steps. -/
def parse? (text : String) : Option Json := do
  let (v, rest) ← value? text.toList (2 * text.length + 2)
  if (skipBlanks rest).isEmpty then some v else none

end Json

end Songsheet
