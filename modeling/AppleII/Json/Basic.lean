/-!
# JSON documents

A document is a tree of values.  A number keeps the text it was written with, so that nothing is
rounded.  A string, or the name of a member, may be written with half of a surrogate pair; it then
stands for no text, and `string none` records that such a string was there.
-/

namespace AppleII

/-- A JSON value. -/
inductive Json where
  | null
  | bool (b : Bool)
  | number (text : String)
  | string (text : Option String)
  | array (items : List Json)
  | object (members : List (Option String × Json))
  deriving Inhabited, Repr

namespace Json

/-- A natural number. -/
def ofNat (n : Nat) : Json := .number (toString n)

/-- A text. -/
def ofString (s : String) : Json := .string (some s)

/-- A value, or null when there is none. -/
def ofOption {α : Type} (f : α → Json) : Option α → Json
  | some a => f a
  | none => .null

/-- An object whose members have the given names. -/
def record (members : List (String × Json)) : Json :=
  .object (members.map fun (k, v) => (some k, v))

end Json

end AppleII
