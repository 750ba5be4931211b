import DoubleRatchet.Bytes

/-!
# JSON texts

A reader for JSON and the view of its values that configuration and bundle
files need: unsigned whole numbers, lists, and records. A record is written as
an object, or as an array of its leading fields in order.

Names and values that nobody asks for have to be well formed and are otherwise
not looked at. So a text is kept even when its escapes are no characters, as a
text without a value.
-/
namespace DoubleRatchet

inductive Json
  | null
  | boolean (b : Bool)
  /-- A number, with its value if it is written in digits alone. -/
  | number (value : Option Nat)
  | text (value : Option String)
  | array (items : List Json)
  | object (members : List (Option String × Json))

namespace Json

/-- What a reader gives: a value and the characters that follow it. -/
abbrev Read (α : Type) := List Char → Option (α × List Char)

def isBlank (c : Char) : Bool := c = ' ' || c = '\t' || c = '\n' || c = '\r'

def skipBlank (cs : List Char) : List Char := cs.dropWhile isBlank

/-- The number that digits write in a base. -/
def digitsValue (base : Nat) (ds : List Nat) : Nat := ds.foldl (fun v d => base * v + d) 0

/-- One or more decimal digits. -/
def digits : Read (List Nat) := fun cs =>
  match cs.takeWhile Char.isDigit with
  | [] => none
  | ds => some (ds.map fun c => c.toNat - 48, cs.dropWhile Char.isDigit)

/-- Digits without a zero in front. -/
def wholePart : Read Nat
  | '0' :: rest => some (0, rest)
  | cs => (digits cs).map fun (ds, rest) => (digitsValue 10 ds, rest)

/-- The rest after a fraction, and whether there is one. -/
def fraction : Read Bool
  | '.' :: rest => (digits rest).map fun (_, rest) => (true, rest)
  | cs => some (false, cs)

/-- The rest after an exponent, and whether there is one. -/
def exponent (cs : List Char) : Option (Bool × List Char) :=
  match cs with
  | c :: rest =>
    if c = 'e' ∨ c = 'E' then
      let unsigned :=
        match rest with
        | s :: more => if s = '+' ∨ s = '-' then more else rest
        | [] => rest
      (digits unsigned).map fun (_, rest) => (true, rest)
    else some (false, cs)
  | [] => some (false, cs)

def unsignedNumber : Read (Option Nat) := fun cs => do
  let (whole, rest) ← wholePart cs
  let (hasFraction, rest) ← fraction rest
  let (hasExponent, rest) ← exponent rest
  return (if hasFraction || hasExponent then none else some whole, rest)

def readNumber : Read Json
  | '-' :: rest => (unsignedNumber rest).map fun (_, rest) => (number none, rest)
  | cs => (unsignedNumber cs).map fun (value, rest) => (number value, rest)

/-- The escapes of one letter. -/
def escaped? : Char → Option Char
  | '"' => some '"'
  | '\\' => some '\\'
  | '/' => some '/'
  | 'b' => some '\x08'
  | 'f' => some '\x0c'
  | 'n' => some '\n'
  | 'r' => some '\r'
  | 't' => some '\t'
  | _ => none

/-- What stands for a character in a text: itself, or a code unit of sixteen bits. -/
inductive Piece
  | char (c : Char)
  | unit (code : Nat)

/-- The characters of the pieces. Units in the range of surrogates come in pairs. -/
def characters? : List Piece → Option (List Char)
  | [] => some []
  | .char c :: rest => (characters? rest).map (c :: ·)
  | .unit high :: .unit low :: rest =>
    if 0xd800 ≤ high ∧ high < 0xdc00 ∧ 0xdc00 ≤ low ∧ low < 0xe000 then
      (characters? rest).map (Char.ofNat (0x10000 + (high - 0xd800) * 0x400 + (low - 0xdc00)) :: ·)
    else if 0xd800 ≤ high ∧ high < 0xe000 then none
    else (characters? (.unit low :: rest)).map (Char.ofNat high :: ·)
  | .unit code :: rest =>
    if 0xd800 ≤ code ∧ code < 0xe000 then none else (characters? rest).map (Char.ofNat code :: ·)

/-- The pieces up to the closing quote. -/
def pieces : List Char → Option (List Piece × List Char)
  | [] => none
  | '"' :: rest => some ([], rest)
  | '\\' :: 'u' :: a :: b :: c :: d :: rest => do
    let code := digitsValue 16 (← [a, b, c, d].mapM hexValue?)
    let (more, rest) ← pieces rest
    return (.unit code :: more, rest)
  | '\\' :: letter :: rest => do
    let c ← escaped? letter
    let (more, rest) ← pieces rest
    return (.char c :: more, rest)
  | c :: rest =>
    if c.toNat < 0x20 then none
    else (pieces rest).map fun (more, rest) => (.char c :: more, rest)

/-- A text after its opening quote. -/
def readText : Read (Option String) := fun cs =>
  (pieces cs).map fun (ps, rest) => ((characters? ps).map String.ofList, rest)

/-- Items with commas between them, up to the closing bracket. -/
def separated {α : Type} (item : Read α) (close : Char) : (fuel : Nat) → Read (List α)
  | 0, _ => none
  | fuel + 1, cs => do
    let (a, rest) ← item cs
    match skipBlank rest with
    | ',' :: rest =>
      let (more, rest) ← separated item close fuel rest
      return (a :: more, rest)
    | c :: rest => if c = close then some ([a], rest) else none
    | [] => none

/-- Items after the opening bracket, none among them. -/
def enclosed {α : Type} (item : Read α) (close : Char) (fuel : Nat) : Read (List α) := fun cs =>
  match skipBlank cs with
  | c :: rest => if c = close then some ([], rest) else separated item close fuel cs
  | [] => none

/-- A name, a colon and a value. -/
def readMember (value : Read Json) : Read (Option String × Json) := fun cs => do
  match skipBlank cs with
  | '"' :: rest =>
    let (name, rest) ← readText rest
    match skipBlank rest with
    | ':' :: rest =>
      let (v, rest) ← value rest
      return ((name, v), rest)
    | _ => none
  | _ => none

/-- A value. The fuel bounds how deep it is nested and how many items there are
at a level, with one less at each level. -/
def readValue : (fuel : Nat) → Read Json
  | 0, _ => none
  | fuel + 1, cs =>
    match skipBlank cs with
    | 'n' :: 'u' :: 'l' :: 'l' :: rest => some (null, rest)
    | 't' :: 'r' :: 'u' :: 'e' :: rest => some (boolean true, rest)
    | 'f' :: 'a' :: 'l' :: 's' :: 'e' :: rest => some (boolean false, rest)
    | '"' :: rest => (readText rest).map fun (s, rest) => (text s, rest)
    | '[' :: rest => (enclosed (readValue fuel) ']' fuel rest).map fun (items, rest) =>
      (array items, rest)
    | '\x7b' :: rest =>
      (enclosed (readMember (readValue fuel)) '\x7d' fuel rest).map fun (members, rest) =>
        (object members, rest)
    | rest => readNumber rest

/-- The value of a whole text. Each level of nesting and each item takes up a
character, so the length of the text is enough fuel. -/
def parse? (s : String) : Option Json := do
  let (v, rest) ← readValue (s.length + 1) s.toList
  if skipBlank rest = [] then some v else none

def isNull : Json → Bool
  | null => true
  | _ => false

/-- A whole number below `2 ^ bits`. -/
def word? (bits : Nat) : Json → Option Nat
  | number (some n) => if n < 1 <<< bits then some n else none
  | _ => none

def list? {α : Type} (item : Json → Option α) : Json → Option (List α)
  | array items => items.mapM item
  | _ => none

/-- The fields of a record that are there. Every name must be readable, none of
the record's own may come twice, and names it does not have are left out. -/
def fields? (names : List String) : Json → Option (List (String × Json))
  | array items => if items.length ≤ names.length then some (names.zip items) else none
  | object members => do
    let members ← members.mapM fun (name, v) => name.map (·, v)
    let known := members.filter fun (name, _) => names.contains name
    if (known.map Prod.fst).Nodup then some known else none
  | _ => none

end Json

end DoubleRatchet
