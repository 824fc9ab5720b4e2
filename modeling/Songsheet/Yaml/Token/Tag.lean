import Songsheet.Yaml.Token

/-!
# Reading tags and directives

A tag says what a node stands for. It is an address whose characters may be escaped as octets
(`octets?`), and it is written in one of three ways (`tag?`):

* `!<address>` — in full;
* `!name!suffix` or `!!suffix` — by a handle that a directive, or the standard, explains;
* `!suffix` — by the handle `!`; a lone `!` is an address of its own.

A directive stands on a line of its own in front of a document (`directive?`). It gives the
version of the format or explains a handle.
-/

namespace Songsheet.Yaml

/-! ## Addresses -/

/-- The characters of names: of anchors, handles and directives. -/
def isNameChar (c : Char) : Bool := c.isAlphanum || c == '-' || c == '_'

/-- The characters of an address. Marks of flow style belong to it only where it is written in
full. -/
def isAddressChar (full : Bool) (c : Char) : Bool :=
  isNameChar c || ";/?:@&=+$.%!~*'()".toList.contains c || (full && [',', '[', ']'].contains c)

/-- How many octets follow an octet that begins a character. -/
def followers? (octet : Nat) : Option Nat :=
  if octet < 0x80 then some 0
  else if octet < 0xC0 then none
  else if octet < 0xE0 then some 1
  else if octet < 0xF0 then some 2
  else if octet < 0xF8 then some 3
  else none

/-- The octets of an address, of which `due` are to follow the last one. An escaped octet is
given by two hexadecimal digits; escaped octets come in groups as those of characters do. -/
def octetsFrom? (due : Nat) : List Char → Option Octets
  | [] => if due = 0 then some [] else none
  | '%' :: high :: low :: rest => do
    let octet := 16 * (← digitValue? high) + (← digitValue? low)
    let due ← match due with
      | 0 => followers? octet
      | due + 1 => if 0x80 ≤ octet ∧ octet < 0xC0 then some due else none
    return UInt8.ofNat octet :: (← octetsFrom? due rest)
  | c :: rest =>
    if due = 0 ∧ c ≠ '%' then (octetsFrom? 0 rest).map (UInt8.ofNat c.toNat :: ·) else none

/-- The octets of an address. A zero among them ends it. -/
def octets? (address : List Char) : Option Octets :=
  (octetsFrom? 0 address).map fun octets => octets.takeWhile (· ≠ 0)

/-- Reads an address of at least one character. -/
def address? (full : Bool) (s : Spot) : Option (Octets × Spot) := do
  let (address, behind) := s.run (isAddressChar full)
  if address.isEmpty then none else return (← octets? address, behind)

/-! ## Tags -/

/-- The octet of an exclamation mark. -/
def bang : Octets := [0x21]

/-- Reads the tag that begins with the next character. -/
def tag? (s : Spot) : Option (Token × Spot) := do
  let s ← s.past? '!'
  match s.past? '<' with
  | some s =>
    let (suffix, s) ← address? true s
    return (.tag "" suffix, ← s.past? '>')
  | none =>
    let (name, behind) := s.run isNameChar
    match behind.past? '!' with
    | some s =>
      let (suffix, s) ← address? false s
      return (.tag ("!" ++ String.ofList name ++ "!") suffix, s)
    | none =>
      let (address, s) := s.run (isAddressChar false)
      let suffix ← octets? address
      return (if suffix.isEmpty then .tag "" bang else .tag "!" suffix, s)

/-! ## Directives -/

/-- Reads a number of at most nine digits. -/
def versionNumber? (s : Spot) : Option (Nat × Spot) :=
  let (digits, behind) := s.run Char.isDigit
  if digits.length ≤ 9 then (radix? 10 digits).map (·, behind) else none

/-- Reads the version of the format. -/
def version? (s : Spot) : Option (Token × Spot) := do
  let (major, s) ← versionNumber? s
  let (minor, s) ← versionNumber? (← s.past? '.')
  return (.version major minor, s)

/-- Reads a handle, blanks, and how the addresses begin that it stands for. -/
def tagHandle? (s : Spot) : Option (Token × Spot) := do
  let (name, s) := (← s.past? '!').run isNameChar
  let (handle, s) ← match s.past? '!' with
    | some s => some ("!" ++ String.ofList name ++ "!", s)
    | none => if name.isEmpty then some ("!", s) else none
  let (blanks, s) := s.run isSpace
  let (start, s) ← address? true s
  if blanks.isEmpty || !s.atBlank then none else return (.tagHandle handle start, s)

/-- Reads the directive behind the next character, but not the rest of its line. -/
def directive? (s : Spot) : Option (Token × Spot) :=
  let (name, s) := (s.skip 1).run isNameChar
  let (_, behind) := s.run isSpace
  if !s.atBlank then none
  else if name = "YAML".toList then version? behind
  else if name = "TAG".toList then tagHandle? behind
  else none

end Songsheet.Yaml
