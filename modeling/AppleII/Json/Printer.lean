import AppleII.Json.Basic

/-!
# Printing JSON

`compact` writes a value without blanks; `pretty` writes each item and member on a line of its own,
indented by two blanks.  In a string the quote, the backslash and the control characters are escaped,
and everything else stands for itself.
-/

namespace AppleII.Json

/-- The hexadecimal digit, in lower case, of a number below 16. -/
def hexDigit (n : Nat) : Char :=
  if n < 10 then Char.ofNat ('0'.toNat + n) else Char.ofNat ('a'.toNat + (n - 10))

/-- The text of one character inside a string. -/
def escapeChar (c : Char) : String :=
  if c == '"' then "\\\""
  else if c == '\\' then "\\\\"
  else if c == '\n' then "\\n"
  else if c == '\r' then "\\r"
  else if c == '\t' then "\\t"
  else if c == '\x08' then "\\b"
  else if c == '\x0c' then "\\f"
  else if c.toNat < 0x20 then
    ("\\u00".push (hexDigit (c.toNat / 16))).push (hexDigit (c.toNat % 16))
  else c.toString

/-- A string in its quotes, appended to `acc`. -/
def appendQuoted (acc s : String) : String :=
  (s.foldl (fun acc c => if c.toNat < 0x20 || c == '"' || c == '\\'
    then acc ++ escapeChar c else acc.push c) (acc.push '"')).push '"'

/-- The text of a name or a string.  A string without a text is written empty. -/
def appendText (acc : String) (s : Option String) : String := appendQuoted acc (s.getD "")

mutual

/-- A value without blanks, appended to `acc`. -/
def appendCompact (acc : String) : Json → String
  | .null => acc ++ "null"
  | .bool b => acc ++ (if b then "true" else "false")
  | .number text => acc ++ text
  | .string s => appendText acc s
  | .array [] => acc ++ "[]"
  | .array (v :: vs) => (appendItems (appendCompact (acc.push '[') v) vs).push ']'
  | .object [] => acc ++ "\x7b\x7d"
  | .object ((k, v) :: ms) =>
    (appendMembers (appendCompact ((appendText (acc.push '\x7b') k).push ':') v) ms).push '\x7d'

/-- The items of an array after its first. -/
def appendItems (acc : String) : List Json → String
  | [] => acc
  | v :: vs => appendItems (appendCompact (acc.push ',') v) vs

/-- The members of an object after its first. -/
def appendMembers (acc : String) : List (Option String × Json) → String
  | [] => acc
  | (k, v) :: ms => appendMembers (appendCompact ((appendText (acc.push ',') k).push ':') v) ms

end

/-- The text of a value without blanks. -/
def compact (j : Json) : String := appendCompact "" j

/-- A new line, indented. -/
def appendLine (depth : Nat) (acc : String) : String :=
  depth.repeat (fun s => s ++ "  ") (acc.push '\n')

mutual

/-- A value over several lines, its items and members indented by `depth + 1` steps. -/
def appendPretty (depth : Nat) (acc : String) : Json → String
  | .array (v :: vs) =>
    let acc := appendPretty (depth + 1) (appendLine (depth + 1) (acc.push '[')) v
    (appendLine depth (appendPrettyItems (depth + 1) acc vs)).push ']'
  | .object ((k, v) :: ms) =>
    let acc := appendText (appendLine (depth + 1) (acc.push '\x7b')) k
    let acc := appendPretty (depth + 1) (acc ++ ": ") v
    (appendLine depth (appendPrettyMembers (depth + 1) acc ms)).push '\x7d'
  | j => appendCompact acc j

/-- The items of an array after its first, one a line. -/
def appendPrettyItems (depth : Nat) (acc : String) : List Json → String
  | [] => acc
  | v :: vs => appendPrettyItems depth (appendPretty depth (appendLine depth (acc.push ',')) v) vs

/-- The members of an object after its first, one a line. -/
def appendPrettyMembers (depth : Nat) (acc : String) : List (Option String × Json) → String
  | [] => acc
  | (k, v) :: ms =>
    let acc := appendText (appendLine depth (acc.push ',')) k
    appendPrettyMembers depth (appendPretty depth (acc ++ ": ") v) ms

end

/-- The text of a value over several lines. -/
def pretty (j : Json) : String := appendPretty 0 "" j

end AppleII.Json
