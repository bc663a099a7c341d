/-!
# JSON

The JSON values that are printed, and their text: two blanks of indentation a level, one item a
line, and nothing between the brackets of an empty list. Strings escape the quotation mark, the
backslash and the characters below U+0020, and hold every other character as it is.
-/

namespace Concord

/-- A JSON value without numbers. -/
inductive Json where
  | bool (value : Bool)
  | string (value : String)
  | array (items : List Json)
  | object (fields : List (String × Json))

namespace Json

/-- A hexadecimal digit, in lower case. -/
def hexDigit (n : Nat) : Char := if n < 10 then .ofNat (48 + n) else .ofNat (87 + n)

/-- A character inside a string. -/
def escape (c : Char) : List Char :=
  match c with
  | '"' => ['\\', '"']
  | '\\' => ['\\', '\\']
  | '\x08' => ['\\', 'b']
  | '\x0c' => ['\\', 'f']
  | '\n' => ['\\', 'n']
  | '\r' => ['\\', 'r']
  | '\t' => ['\\', 't']
  | c =>
    if c.toNat < 0x20 then
      ['\\', 'u', '0', '0', hexDigit (c.toNat / 16), hexDigit (c.toNat % 16)]
    else [c]

/-- A string in quotation marks. -/
def quote (s : String) : List Char := '"' :: s.toList.flatMap escape ++ ['"']

/-- A new line at some depth. -/
def newline (depth : Nat) : List Char := '\n' :: List.replicate (2 * depth) ' '

/-- Items between brackets, each on a line of its own one level deeper. -/
def bracket (left right : Char) (depth : Nat) (items : List (List Char)) : List Char :=
  match items with
  | [] => [left, right]
  | items =>
    let lines := items.map (newline (depth + 1) ++ ·)
    left :: [','].intercalate lines ++ newline depth ++ [right]

mutual

/-- The text of a value at some depth. -/
def renderAt (depth : Nat) : Json → List Char
  | bool true => "true".toList
  | bool false => "false".toList
  | string s => quote s
  | array items => bracket '[' ']' depth (renderItems (depth + 1) items)
  | object fields => bracket '\x7b' '\x7d' depth (renderFields (depth + 1) fields)

/-- The texts of some items at some depth. -/
def renderItems (depth : Nat) : List Json → List (List Char)
  | [] => []
  | item :: items => renderAt depth item :: renderItems depth items

/-- The texts of some fields at some depth. -/
def renderFields (depth : Nat) : List (String × Json) → List (List Char)
  | [] => []
  | field :: fields => renderField depth field :: renderFields depth fields

/-- The text of a field at some depth. -/
def renderField (depth : Nat) : String × Json → List Char
  | (name, value) => quote name ++ ':' :: ' ' :: renderAt depth value

end

/-- The text of a value. -/
def render (j : Json) : String := .ofList (renderAt 0 j)

end Json

end Concord
