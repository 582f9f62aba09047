import AppleII.Json.Basic

/-!
# Reading values from JSON

A decoder takes a JSON value to a value of some type.  Numbers have to be whole and in range, strings
have to stand for a text.  A record is an object, in which unknown members are passed over and no
known one is repeated, or an array of its fields in order.
-/

namespace AppleII.Json

/-- Reads values of type `α`; `none` refuses. -/
abbrev Decoder (α : Type) := Json → Option α

namespace Decoder

variable {α β : Type}

/-- True or false. -/
def bool : Decoder Bool
  | .bool b => some b
  | _ => none

/-- A text. -/
def string : Decoder String
  | .string s => s
  | _ => none

/-- A number of at most `max`, written with digits alone. -/
def nat (max : Nat) : Decoder Nat
  | .number text =>
    if text.all Char.isDigit then
      let n := text.foldl (fun n c => n * 10 + (c.toNat - '0'.toNat)) 0
      if n ≤ max then some n else none
    else none
  | _ => none

/-- A byte. -/
def uint8 : Decoder UInt8 := fun j => (nat 0xFF j).map Nat.toUInt8

/-- A 16-bit word. -/
def uint16 : Decoder UInt16 := fun j => (nat 0xFFFF j).map Nat.toUInt16

/-- A count that fits 64 bits. -/
def count : Decoder Nat := nat 0xFFFFFFFFFFFFFFFF

/-- Null, or a value. -/
def option (d : Decoder α) : Decoder (Option α)
  | .null => some none
  | j => (d j).map some

/-- An array of any length. -/
def list (d : Decoder α) : Decoder (List α)
  | .array items => items.mapM d
  | _ => none

/-- An array of two. -/
def pair (d : Decoder α) : Decoder (α × α)
  | .array [x, y] => do return (← d x, ← d y)
  | _ => none

/-- An object whose members all have values of one type. -/
def members (d : Decoder α) : Decoder (List (String × α))
  | .object ms => ms.mapM fun (k, v) => do return (← k, ← d v)
  | _ => none

/-- A name of a finite type: the string itself, or an object that gives it null. -/
def name (find? : String → Option α) : Decoder α
  | .string s => s.bind find?
  | .object [(k, .null)] => k.bind find?
  | _ => none

/-- The fields of a record, where a missing one is `none`. -/
structure Fields where
  values : List (Option Json)
  /-- The fields were given by position. -/
  positional : Bool

/-- The value of one member, if it is there; no member may be there twice. -/
def member? (ms : List (Option String × Json)) (k : String) : Option (Option Json) :=
  match ms.filter (fun m => m.1 == some k) with
  | [] => some none
  | [(_, v)] => some (some v)
  | _ => none

/-- The fields with the given names. -/
def fields (names : List String) : Decoder Fields
  | .object ms => do
    if ms.any (fun m => m.1.isNone) then none
    return ⟨← names.mapM (member? ms), false⟩
  | .array items =>
    if items.length ≤ names.length then
      some ⟨items.map some ++ List.replicate (names.length - items.length) none, true⟩
    else none
  | _ => none

namespace Fields

/-- The field at an index, which has to be there. -/
def required (f : Fields) (i : Nat) (d : Decoder α) : Option α := do
  d (← (f.values[i]?).join)

/-- The field at an index, where null or a missing member stands for no value. -/
def optional (f : Fields) (i : Nat) (d : Decoder α) : Option (Option α) :=
  match (f.values[i]?).join with
  | some v => option d v
  | none => if f.positional then none else some none

/-- The field at an index, or a default when it is missing. -/
def defaulted (f : Fields) (i : Nat) (d : Decoder α) (default : α) : Option α :=
  match (f.values[i]?).join with
  | some v => d v
  | none => some default

end Fields

end Decoder

end AppleII.Json
