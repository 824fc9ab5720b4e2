import Songsheet.Yaml.Scalar

/-!
# Writing collections

A node is a text, a number, a truth value, a list or a mapping. Collections are written in
block style: the fields of a mapping one to a line, in order, the items of a list behind
dashes in the column of the key that they belong to, and an empty collection on the line of
its key.
-/

namespace Songsheet.Yaml

/-- A value to be written. -/
inductive Node where
  | text (s : String)
  | number (n : Nat)
  | bool (b : Bool)
  | list (items : List Node)
  | mapping (fields : List (String × Node))

mutual

/-- A node whose first line is under way and whose further lines begin at `column`. -/
def Node.write (column : Nat) : Node → String
  | .text s => writeText column s
  | .number n => toString n ++ "\n"
  | .bool b => (if b then "true" else "false") ++ "\n"
  | .list [] => "[]\n"
  | .list (item :: items) => "- " ++ item.write (column + 2) ++ writeItems column items
  | .mapping [] => "\x7b\x7d\n"
  | .mapping (field :: fields) => writeField column field ++ writeFields column fields

/-- The items of a list, each on a new line. -/
def writeItems (column : Nat) : List Node → String
  | [] => ""
  | item :: items =>
    String.ofList (List.replicate column ' ') ++ "- " ++ item.write (column + 2)
      ++ writeItems column items

/-- The fields of a mapping, each on a new line. -/
def writeFields (column : Nat) : List (String × Node) → String
  | [] => ""
  | field :: fields =>
    String.ofList (List.replicate column ' ') ++ writeField column field
      ++ writeFields column fields

/-- One field of a mapping, its value being on the line of its key or below it. -/
def writeField (column : Nat) : String × Node → String
  | (key, .list (item :: items)) =>
    key ++ ":\n" ++ writeItems column (item :: items)
  | (key, .mapping (field :: fields)) =>
    key ++ ":\n" ++ writeFields (column + 2) (field :: fields)
  | (key, value) => key ++ ": " ++ value.write (column + 2)

end

/-- A node as a document. -/
def Node.document (node : Node) : String := node.write 0

end Songsheet.Yaml
