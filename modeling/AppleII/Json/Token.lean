import AppleII.Json.Basic
import AppleII.Text.Number

/-!
# JSON tokens

A document is cut into its marks, words, numbers and strings.  `Token.scan` is one pass over the
characters; it fails at the first character that starts no token.
-/

namespace AppleII.Json

open Text (hexValue?)

inductive Mark where
  | openArray
  | closeArray
  | openObject
  | closeObject
  | comma
  | colon
  deriving DecidableEq, Repr

inductive Token where
  | mark (m : Mark)
  | null
  | bool (b : Bool)
  | number (text : String)
  | string (text : Option String)
  deriving DecidableEq, Repr

namespace Token

/-- The value of four hexadecimal digits. -/
def hexQuad? (a b c d : Char) : Option Nat := do
  return ((← hexValue? a) * 16 + (← hexValue? b)) * 256 + (← hexValue? c) * 16 + (← hexValue? d)

/-- The character that a letter stands for after a backslash. -/
def escaped? : Char → Option Char
  | '"' => some '"'
  | '\\' => some '\\'
  | '/' => some '/'
  | 'b' => some '\x08'
  | 'f' => some '\x0c'
  | 'n' => some '\n'
  | 'r' => some '\r'
  | 't' => some '\t'
  | _ => none

/-- A string as far as it is scanned: its text, a leading surrogate that waits for its partner, and
whether every surrogate so far had one. -/
structure Partial where
  text : String := ""
  leading : Option Nat := none
  whole : Bool := true

namespace Partial

/-- A character follows. -/
@[inline] def push (p : Partial) (c : Char) : Partial :=
  { text := p.text.push c, leading := none, whole := p.whole && p.leading.isNone }

/-- A 16-bit unit follows. -/
def pushUnit (p : Partial) (n : Nat) : Partial :=
  if 0xD800 ≤ n ∧ n < 0xDC00 then
    { text := p.text, leading := some n, whole := p.whole && p.leading.isNone }
  else if 0xDC00 ≤ n ∧ n < 0xE000 then
    match p.leading with
    | some h =>
      { text := p.text.push (Char.ofNat (0x10000 + (h - 0xD800) * 0x400 + (n - 0xDC00)))
        leading := none
        whole := p.whole }
    | none => { p with whole := false }
  else p.push (Char.ofNat n)

/-- The text, if every surrogate had its partner. -/
def finish (p : Partial) : Option String :=
  if p.whole && p.leading.isNone then some p.text else none

end Partial

/-- The rest of a string after its opening quote, and what follows the closing one. -/
def scanString (p : Partial) : List Char → Option (Option String × List Char)
  | [] => none
  | '"' :: r => some (p.finish, r)
  | '\\' :: 'u' :: a :: b :: c :: d :: r =>
    match hexQuad? a b c d with
    | some n => scanString (p.pushUnit n) r
    | none => none
  | '\\' :: e :: r =>
    match escaped? e with
    | some c => scanString (p.push c) r
    | none => none
  | c :: r => if c.toNat < 0x20 || c == '\\' then none else scanString (p.push c) r

/-- The digits at the head of a text, and the rest. -/
def digits (cs : List Char) : List Char × List Char := cs.span Char.isDigit

def someDigits? (cs : List Char) : Option (List Char × List Char) :=
  match digits cs with
  | ([], _) => none
  | ds => some ds

/-- The whole part of a number: a zero alone, or digits that start with no zero. -/
def wholePart? : List Char → Option (List Char × List Char)
  | '0' :: r => some (['0'], r)
  | cs => someDigits? cs

/-- A fraction, if there is one. -/
def fraction? : List Char → Option (List Char × List Char)
  | '.' :: r => do
    let (ds, r) ← someDigits? r
    return ('.' :: ds, r)
  | r => some ([], r)

/-- An exponent, if there is one. -/
def exponent? : List Char → Option (List Char × List Char)
  | e :: r =>
    if e == 'e' || e == 'E' then
      match r with
      | '+' :: r => do
        let (ds, r) ← someDigits? r
        return (e :: '+' :: ds, r)
      | '-' :: r => do
        let (ds, r) ← someDigits? r
        return (e :: '-' :: ds, r)
      | r => do
        let (ds, r) ← someDigits? r
        return (e :: ds, r)
    else some ([], e :: r)
  | [] => some ([], [])

/-- A number without its sign, and what follows. -/
def scanNumber (cs : List Char) : Option (List Char × List Char) := do
  let (ds, r) ← wholePart? cs
  let (fs, r) ← fraction? r
  let (es, r) ← exponent? r
  return (ds ++ fs ++ es, r)

/-- One token at the head of a text that starts with no blank. -/
def next : List Char → Option (Token × List Char)
  | '[' :: r => some (.mark .openArray, r)
  | ']' :: r => some (.mark .closeArray, r)
  | '\x7b' :: r => some (.mark .openObject, r)
  | '\x7d' :: r => some (.mark .closeObject, r)
  | ',' :: r => some (.mark .comma, r)
  | ':' :: r => some (.mark .colon, r)
  | '"' :: r => (scanString {} r).map fun (s, r) => (.string s, r)
  | '-' :: r => (scanNumber r).map fun (ds, r) => (.number (.ofList ('-' :: ds)), r)
  | 'n' :: 'u' :: 'l' :: 'l' :: r => some (.null, r)
  | 't' :: 'r' :: 'u' :: 'e' :: r => some (.bool true, r)
  | 'f' :: 'a' :: 'l' :: 's' :: 'e' :: r => some (.bool false, r)
  | cs => (scanNumber cs).map fun (ds, r) => (.number (.ofList ds), r)

/-- The blanks between tokens. -/
def isBlank (c : Char) : Bool := c == ' ' || c == '\n' || c == '\t' || c == '\r'

/-- The tokens of a text after those in `acc`.  Each token takes a character or more, so that as many
rounds as there are characters are enough. -/
def scanFrom (acc : Array Token) : Nat → List Char → Option (Array Token)
  | 0, _ => none
  | fuel + 1, cs =>
    match cs.dropWhile isBlank with
    | [] => some acc
    | cs =>
      match next cs with
      | none => none
      | some (t, r) => scanFrom (acc.push t) fuel r

/-- The tokens of a text. -/
def scan (s : String) : Option (Array Token) :=
  let cs := s.toList
  scanFrom #[] (cs.length + 1) cs

end Token

end AppleII.Json
