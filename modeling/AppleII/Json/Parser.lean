import AppleII.Json.Token

/-!
# Parsing JSON

The tokens of a document are taken one by one; the arrays and objects that are still open wait on a
stack, so that any depth is read.
-/

namespace AppleII.Json

/-- An open array or object, with what it holds so far, latest first. -/
inductive Open where
  | array (items : List Json)
  | object (members : List (Option String × Json)) (key : Option String)

/-- What may come next. -/
inductive Expect where
  | value (stack : List Open)
  /-- The first item of an array, or its end. -/
  | firstItem (stack : List Open)
  /-- The first name of an object, or its end. -/
  | firstKey (stack : List Open)
  /-- The next name of an object. -/
  | key (members : List (Option String × Json)) (stack : List Open)
  /-- The colon after a name. -/
  | colon (members : List (Option String × Json)) (key : Option String) (stack : List Open)
  /-- A value is complete: the next item or member, the end of what is open, or the end. -/
  | after (v : Json) (stack : List Open)

namespace Expect

/-- A token where a value is due. -/
def takeValue (stack : List Open) : Token → Option Expect
  | .mark .openArray => some (.firstItem stack)
  | .mark .openObject => some (.firstKey stack)
  | .mark _ => none
  | .null => some (.after .null stack)
  | .bool b => some (.after (.bool b) stack)
  | .number text => some (.after (.number text) stack)
  | .string s => some (.after (.string s) stack)

def take : Expect → Token → Option Expect
  | .value stack, t => takeValue stack t
  | .firstItem stack, .mark .closeArray => some (.after (.array []) stack)
  | .firstItem stack, t => takeValue (.array [] :: stack) t
  | .firstKey stack, .mark .closeObject => some (.after (.object []) stack)
  | .firstKey stack, .string k => some (.colon [] k stack)
  | .key ms stack, .string k => some (.colon ms k stack)
  | .colon ms k stack, .mark .colon => some (.value (.object ms k :: stack))
  | .after v (.array vs :: stack), .mark .comma => some (.value (.array (v :: vs) :: stack))
  | .after v (.array vs :: stack), .mark .closeArray =>
    some (.after (.array (v :: vs).reverse) stack)
  | .after v (.object ms k :: stack), .mark .comma => some (.key ((k, v) :: ms) stack)
  | .after v (.object ms k :: stack), .mark .closeObject =>
    some (.after (.object ((k, v) :: ms).reverse) stack)
  | _, _ => none

end Expect

/-- The value that a text stands for. -/
def parse? (s : String) : Option Json := do
  let ts ← Token.scan s
  match ← ts.foldlM Expect.take (.value []) with
  | .after v [] => some v
  | _ => none

end AppleII.Json
