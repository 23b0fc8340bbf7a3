/-!
# JSON

Values in the notation that scripts read.

Fields keep the order in which they are given. The printer puts every element on
a line of its own, two spaces deeper than what it is in, except that an empty
list or object stays together. In a string it escapes what it has to and nothing
else.

## Main definitions

* `Json`: A value.
* `Json.quote`: A string.
* `Json.pretty`: A value over several lines.
-/

namespace Concordance

/-- A value. Of numbers that are not whole it is only known that they are not. -/
inductive Json where
  | null
  | bool (value : Bool)
  | integer (value : Int)
  | fraction
  | string (value : String)
  | list (elements : List Json)
  | object (fields : List (String × Json))

namespace Json

/-- A control character by its number. -/
def escapeControl (c : Char) : List Char :=
  ['\\', 'u', '0', '0', Nat.digitChar (c.toNat / 16), Nat.digitChar (c.toNat % 16)]

/-- One character of a string. -/
def escape (c : Char) : List Char :=
  if c = '"' then ['\\', '"']
  else if c = '\\' then ['\\', '\\']
  else if c = '\n' then ['\\', 'n']
  else if c = '\r' then ['\\', 'r']
  else if c = '\t' then ['\\', 't']
  else if c = '\x08' then ['\\', 'b']
  else if c = '\x0c' then ['\\', 'f']
  else if c.val < 0x20 then escapeControl c
  else [c]

/-- A string between quotes. -/
def quote (text : String) : String :=
  String.ofList ('"' :: text.toList.flatMap escape ++ ['"'])

/-- The beginning of a line at some depth. -/
def newline (depth : Nat) : String :=
  "\n" ++ String.ofList (List.replicate (2 * depth) ' ')

mutual

/-- A value that begins at some depth. -/
def prettyAt (depth : Nat) : Json → String
  | .null => "null"
  | .bool value => if value then "true" else "false"
  | .integer value => toString value
  | .fraction => "null"
  | .string value => quote value
  | .list [] => "[]"
  | .list (element :: rest) =>
    "[" ++ newline (depth + 1) ++ prettyAt (depth + 1) element ++ prettyElements (depth + 1) rest
      ++ newline depth ++ "]"
  | .object [] => "\x7b\x7d"
  | .object (field :: rest) =>
    "\x7b" ++ newline (depth + 1) ++ prettyField (depth + 1) field
      ++ prettyFields (depth + 1) rest ++ newline depth ++ "\x7d"

/-- The elements of a list behind its first one. -/
def prettyElements (depth : Nat) : List Json → String
  | [] => ""
  | element :: rest =>
    "," ++ newline depth ++ prettyAt depth element ++ prettyElements depth rest

/-- A field of an object. -/
def prettyField (depth : Nat) : String × Json → String
  | (name, value) => quote name ++ ": " ++ prettyAt depth value

/-- The fields of an object behind its first one. -/
def prettyFields (depth : Nat) : List (String × Json) → String
  | [] => ""
  | field :: rest => "," ++ newline depth ++ prettyField depth field ++ prettyFields depth rest

end

/-- A value over several lines. -/
def pretty (value : Json) : String :=
  prettyAt 0 value

end Json

end Concordance
