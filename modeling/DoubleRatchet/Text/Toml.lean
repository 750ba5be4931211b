import DoubleRatchet.Text.Json

/-!
# TOML texts

A reader for TOML 1.0. A text is a list of lines, each of which defines a value
under a path of keys or opens a table for the lines after it, so that the
document grows line by line. What makes a path usable again is how the tables
on it came about; `Origin` records this.

Floats and dates are checked for their form only, since nothing here needs
their values.
-/
namespace DoubleRatchet

namespace Toml

/-- How a table came about: by its own header, on the way to another header, on
the way to a dotted key, or within braces. -/
inductive Origin
  | header
  | implied
  | dotted
  | braces
deriving DecidableEq

end Toml

inductive Toml
  | boolean (b : Bool)
  | integer (n : Int)
  | float
  | dateTime
  | text (s : String)
  | array (items : List Toml)
  | table (origin : Toml.Origin) (entries : List (String × Toml))
  /-- Tables that have the same header in double brackets. -/
  | tables (items : List (List (String × Toml)))

namespace Toml

open Json (Read digitsValue)

abbrev Entries := List (String × Toml)

/-- The entries with another value at a key. -/
def replace (key : String) (value : Toml) : Entries → Entries
  | [] => []
  | (k, v) :: rest => if k = key then (k, value) :: rest else (k, v) :: replace key value rest

/-- Changes the table at a path. Missing tables on the path are made with the
origin given. Nothing reaches into braces, and dotted keys do not reach into a
table that has its own header; of tables in double brackets the last is meant. -/
def change (made : Origin) (f : Origin → Entries → Option Entries) :
    (path : List String) → Origin → Entries → Option Entries
  | [], origin, es => f origin es
  | key :: path, _, es =>
    match es.lookup key with
    | none => do
      let child ← change made f path made []
      return es ++ [(key, table made child)]
    | some (table origin child) =>
      if origin = .braces ∨ (made = .dotted ∧ origin = .header) then none
      else do
        let child ← change made f path origin child
        return replace key (table origin child) es
    | some (tables items) => do
      let last ← change made f path .header (← items.getLast?)
      return replace key (tables (items.dropLast ++ [last])) es
    | some _ => none

/-- Defines a value under a dotted key, once. The table that a dotted key ends
in must have come about by dotted keys too. -/
def define (path : List String) (key : String) (value : Toml) (origin : Origin)
    (es : Entries) : Option Entries :=
  change .dotted
    (fun origin es =>
      if (path ≠ [] ∧ origin ≠ .dotted) ∨ (es.lookup key).isSome then none
      else some (es ++ [(key, value)]))
    path origin es

/-- Opens the table of a header, which may have been implied before. -/
def openTable (key : String) (_ : Origin) (es : Entries) : Option Entries :=
  match es.lookup key with
  | none => some (es ++ [(key, table .header [])])
  | some (table .implied child) => some (replace key (table .header child) es)
  | some _ => none

/-- Opens the next one of the tables of a header in double brackets. -/
def openNext (key : String) (_ : Origin) (es : Entries) : Option Entries :=
  match es.lookup key with
  | none => some (es ++ [(key, tables [[]])])
  | some (tables items) => some (replace key (tables (items ++ [[]])) es)
  | some _ => none

/-- A document with the path of the table that was opened last. -/
structure Document where
  entries : Entries := []
  current : List String := []

namespace Document

/-- Opens the table at a nonempty path by `f`. -/
def header (d : Document) (path : List String) (f : String → Origin → Entries → Option Entries) :
    Option Document := do
  let key ← path.getLast?
  return ⟨← change .implied (f key) path.dropLast .header d.entries, path⟩

/-- Defines a value in the current table. -/
def assign (d : Document) (path : List String) (value : Toml) : Option Document := do
  let key ← path.getLast?
  return { d with
    entries := ← change .implied (define path.dropLast key value) d.current .header d.entries }

end Document

def isBlank (c : Char) : Bool := c = ' ' || c = '\t'

/-- Characters that may stand in comments and on one line of a text. -/
def isPrintable (c : Char) : Bool := c = '\t' || (' ' ≤ c && c ≠ '\x7f')

def skipBlank (cs : List Char) : List Char := cs.dropWhile isBlank

/-- What follows a line end. -/
def newline? : List Char → Option (List Char)
  | '\n' :: rest => some rest
  | '\r' :: '\n' :: rest => some rest
  | _ => none

/-- What follows the rest of a line, in which only a comment may stand. -/
def lineEnd? (cs : List Char) : Option (List Char) :=
  let rest :=
    match skipBlank cs with
    | '#' :: comment => comment.dropWhile isPrintable
    | rest => rest
  if rest = [] then some [] else newline? rest

/-- Skips blanks and line ends. -/
def skipWhite : List Char → List Char
  | '\r' :: '\n' :: rest => skipWhite rest
  | c :: rest => if isBlank c || c = '\n' then skipWhite rest else c :: rest
  | [] => []

/-- Skips blanks, line ends and comments, which end with their line. -/
def skipLines? : (inComment : Bool) → List Char → Option (List Char)
  | _, [] => some []
  | _, '\r' :: '\n' :: rest => skipLines? false rest
  | _, '\n' :: rest => skipLines? false rest
  | true, c :: rest => if isPrintable c then skipLines? true rest else none
  | false, c :: rest =>
    if isBlank c then skipLines? false rest
    else if c = '#' then skipLines? true rest
    else some (c :: rest)

/-- The character whose number is written by hexadecimal digits, if it is one. -/
def scalar? (ds : List Char) : Option Char := do
  let code := digitsValue 16 (← ds.mapM hexValue?)
  if code.isValidChar then some (Char.ofNat code) else none

/-- What an escape stands for, after its backslash. -/
def escape : Read Char
  | 'b' :: rest => some ('\x08', rest)
  | 't' :: rest => some ('\t', rest)
  | 'n' :: rest => some ('\n', rest)
  | 'f' :: rest => some ('\x0c', rest)
  | 'r' :: rest => some ('\r', rest)
  | '"' :: rest => some ('"', rest)
  | '\\' :: rest => some ('\\', rest)
  | 'u' :: rest => if 4 ≤ rest.length then (scalar? (rest.take 4)).map (·, rest.drop 4) else none
  | 'U' :: rest => if 8 ≤ rest.length then (scalar? (rest.take 8)).map (·, rest.drop 8) else none
  | _ => none

/-- A text in quotes on one line, after the opening quote. Single quotes take
everything as it is. -/
def lineText (quote : Char) : (fuel : Nat) → Read (List Char)
  | 0, _ => none
  | fuel + 1, cs =>
    match cs with
    | [] => none
    | c :: rest =>
      if c = quote then some ([], rest)
      else if c = '\\' ∧ quote = '"' then do
        let (c, rest) ← escape rest
        let (more, rest) ← lineText quote fuel rest
        return (c :: more, rest)
      else if isPrintable c then (lineText quote fuel rest).map fun (more, rest) =>
        (c :: more, rest)
      else none

/-- A text in triple quotes, after the opening ones. Up to two quotes may stand
anywhere in it, also at its end. A backslash before a line end joins the lines. -/
def blockText (quote : Char) : (fuel : Nat) → Read (List Char)
  | 0, _ => none
  | fuel + 1, cs =>
    match cs with
    | [] => none
    | c :: rest =>
      if c = quote then
        let run := (cs.takeWhile (· = quote)).length
        if run < 3 then
          (blockText quote fuel (cs.drop run)).map fun (more, rest) =>
            (List.replicate run quote ++ more, rest)
        else if run ≤ 5 then some (List.replicate (run - 3) quote, cs.drop run)
        else none
      else if c = '\\' ∧ quote = '"' then
        match newline? (skipBlank rest) with
        | some rest => blockText quote fuel (skipWhite rest)
        | none => do
          let (c, rest) ← escape rest
          let (more, rest) ← blockText quote fuel rest
          return (c :: more, rest)
      else
        match newline? cs with
        | some rest => (blockText quote fuel rest).map fun (more, rest) => ('\n' :: more, rest)
        | none =>
          if isPrintable c then (blockText quote fuel rest).map fun (more, rest) =>
            (c :: more, rest)
          else none

/-- A text after its first quote. A line end right after triple quotes is left out. -/
def readText (quote : Char) : Read String := fun cs =>
  let chars :=
    if cs.take 2 = [quote, quote] then
      let body := cs.drop 2
      blockText quote (cs.length + 1) ((newline? body).getD body)
    else lineText quote (cs.length + 1) cs
  chars.map fun (s, rest) => (String.ofList s, rest)

def isBare (c : Char) : Bool := c.isAlphanum || c = '-' || c = '_'

def readKey : Read String
  | '"' :: rest => (lineText '"' (rest.length + 1) rest).map fun (s, rest) =>
    (String.ofList s, rest)
  | '\'' :: rest => (lineText '\'' (rest.length + 1) rest).map fun (s, rest) =>
    (String.ofList s, rest)
  | cs =>
    match cs.takeWhile isBare with
    | [] => none
    | key => some (String.ofList key, cs.dropWhile isBare)

/-- Keys with points between them, blanks around each. The fuel bounds their number. -/
def readPath : (fuel : Nat) → Read (List String)
  | 0, _ => none
  | fuel + 1, cs => do
    let (key, rest) ← readKey (skipBlank cs)
    match skipBlank rest with
    | '.' :: rest =>
      let (path, rest) ← readPath fuel rest
      return (key :: path, rest)
    | rest => return ([key], rest)

/-- How many keys a path has at most, and how deep values nest. -/
def depthLimit : Nat := 79

/-- Digits in which single underscores may stand. -/
def grouped (digit? : Char → Option Nat) : List Char → Option (List Nat)
  | [] => none
  | [c] => (digit? c).map fun d => [d]
  | c :: '_' :: rest => do return (← digit? c) :: (← grouped digit? rest)
  | c :: rest => do return (← digit? c) :: (← grouped digit? rest)

/-- A digit of a base up to sixteen. -/
def digitOf? (base : Nat) (c : Char) : Option Nat := (hexValue? c).filter (· < base)

/-- Decimal digits without a zero in front. -/
def whole? (cs : List Char) : Option Nat := do
  let ds ← grouped (digitOf? 10) cs
  if ds.head? = some 0 ∧ 1 < cs.length then none else some (digitsValue 10 ds)

/-- The integers of 64 bits. -/
def bounded? (n : Int) : Option Toml :=
  if Int64.minValue.toInt ≤ n ∧ n ≤ Int64.maxValue.toInt then some (integer n) else none

/-- The sign in front, as whether it is negative, and the rest. -/
def unsigned : List Char → Bool × List Char
  | '-' :: rest => (true, rest)
  | '+' :: rest => (false, rest)
  | cs => (false, cs)

def integer? (cs : List Char) : Option Toml :=
  let based (base : Nat) (ds : List Char) : Option Toml := do
    bounded? (digitsValue base (← grouped (digitOf? base) ds))
  match cs with
  | '0' :: 'x' :: ds => based 16 ds
  | '0' :: 'o' :: ds => based 8 ds
  | '0' :: 'b' :: ds => based 2 ds
  | _ => do
    let (negative, ds) := unsigned cs
    let n ← whole? ds
    bounded? (if negative then -n else n)

/-- The least number that is nearer to `2 ^ 1024` than to any double. -/
def floatLimit : Nat := 1 <<< 1024 - 1 <<< 970

/-- Whether `m * 10 ^ e` is past all doubles; the number of digits decides unless it is near. -/
def overflows (m : Nat) (e : Int) : Bool :=
  let magnitude := (Nat.toDigits 10 m).length + e
  if m = 0 ∨ magnitude < 300 then false
  else if 400 < magnitude then true
  else if 0 ≤ e then floatLimit ≤ m * Nat.pow 10 e.toNat
  else floatLimit * Nat.pow 10 (-e).toNat ≤ m

/-- The digits of an exponent, with its sign. -/
def exponent? (cs : List Char) : Option Int := do
  let (negative, ds) := unsigned cs
  let n := digitsValue 10 (← grouped (digitOf? 10) ds)
  return if negative then -(n : Int) else n

/-- A float: a fraction, an exponent or both after the whole part, or one of the
named values. Positive numbers past all doubles are refused. -/
def float? (cs : List Char) : Option Toml := do
  let (negative, cs) := unsigned cs
  if cs = ['i', 'n', 'f'] ∨ cs = ['n', 'a', 'n'] then return float
  let isMark (c : Char) : Bool := c = '.' || c = 'e' || c = 'E'
  let isE (c : Char) : Bool := c = 'e' || c = 'E'
  let whole ← whole? (cs.takeWhile (!isMark ·))
  let rest := cs.dropWhile (!isMark ·)
  let (decimals, power) ← match rest with
    | '.' :: rest => do
      let decimals ← grouped (digitOf? 10) (rest.takeWhile (!isE ·))
      some (decimals, rest.dropWhile (!isE ·))
    | _ :: _ => some ([], rest)
    | [] => none
  let e ← match power with
    | _ :: rest => exponent? rest
    | [] => some 0
  let m := decimals.foldl (fun v d => 10 * v + d) whole
  if !negative && overflows m (e - decimals.length) then none else some float

/-- A number of `n` decimal digits, within bounds. -/
def field (n low high : Nat) : Read Nat := fun cs => do
  let ds ← (cs.take n).mapM (digitOf? 10)
  let v := digitsValue 10 ds
  if ds.length = n ∧ low ≤ v ∧ v ≤ high then some (v, cs.drop n) else none

/-- One expected character. -/
def mark (c : Char) : List Char → Option (List Char)
  | d :: rest => if d = c then some rest else none
  | [] => none

def daysIn (year month : Nat) : Nat :=
  if month = 2 then if year % 4 = 0 ∧ (year % 100 ≠ 0 ∨ year % 400 = 0) then 29 else 28
  else if month = 4 ∨ month = 6 ∨ month = 9 ∨ month = 11 then 30
  else 31

/-- What follows a date. -/
def date? (cs : List Char) : Option (List Char) := do
  let (year, rest) ← field 4 0 9999 cs
  let (month, rest) ← field 2 1 12 (← mark '-' rest)
  let (_, rest) ← field 2 1 (daysIn year month) (← mark '-' rest)
  return rest

/-- What follows a time of day, whose seconds may have a fraction. -/
def time? (cs : List Char) : Option (List Char) := do
  let (_, rest) ← field 2 0 23 cs
  let (_, rest) ← field 2 0 59 (← mark ':' rest)
  let (_, rest) ← field 2 0 60 (← mark ':' rest)
  match rest with
  | '.' :: rest =>
    if (rest.takeWhile Char.isDigit).isEmpty then none else some (rest.dropWhile Char.isDigit)
  | rest => some rest

/-- Whether nothing but an offset from universal time is there. -/
def isOffset (cs : List Char) : Bool :=
  match cs with
  | [] => true
  | c :: rest =>
    if c = 'Z' ∨ c = 'z' then rest.isEmpty
    else if c = '+' ∨ c = '-' then
      (do
        let (_, rest) ← field 2 0 23 rest
        let (_, rest) ← field 2 0 59 (← mark ':' rest)
        some rest) = some []
    else false

/-- A date, a time, or both in one word. -/
def dateTime? (cs : List Char) : Option Toml :=
  match date? cs with
  | some [] => some dateTime
  | some (c :: rest) =>
    if c = 'T' ∨ c = 't' then ((time? rest).filter isOffset).map fun _ => dateTime else none
  | none => if time? cs = some [] then some dateTime else none

def isWordChar (c : Char) : Bool :=
  c.isAlphanum || c = '+' || c = '-' || c = '_' || c = '.' || c = ':'

/-- A value that is one word, or a date and a time with a blank between. -/
def readWord : Read Toml := fun cs =>
  let word := cs.takeWhile isWordChar
  let rest := cs.dropWhile isWordChar
  if word = ['t', 'r', 'u', 'e'] then some (boolean true, rest)
  else if word = ['f', 'a', 'l', 's', 'e'] then some (boolean false, rest)
  else
    match (integer? word).or ((float? word).or (dateTime? word)), rest with
    | some dateTime, ' ' :: more =>
      let time := more.takeWhile isWordChar
      if time = [] then some (dateTime, rest)
      else if date? word = some [] ∧ ((time? time).any isOffset) then
        some (dateTime, more.dropWhile isWordChar)
      else none
    | some v, _ => some (v, rest)
    | none, _ => none

/-- The items of an array up to its bracket. A comma may follow the last one. -/
def readItems (value : Read Toml) : (fuel : Nat) → Read (List Toml)
  | 0, _ => none
  | fuel + 1, cs => do
    match ← skipLines? false cs with
    | ']' :: rest => return ([], rest)
    | cs =>
      let (v, rest) ← value cs
      match ← skipLines? false rest with
      | ',' :: rest =>
        let (more, rest) ← readItems value fuel rest
        return (v :: more, rest)
      | ']' :: rest => return ([v], rest)
      | _ => none

/-- A path of keys, the sign of equality and a value. -/
def readPair (value : Read Toml) : Read (List String × Toml) := fun cs => do
  let (path, rest) ← readPath depthLimit cs
  let (v, rest) ← value (skipBlank (← mark '=' rest))
  return ((path, v), rest)

/-- The pairs of an inline table up to its brace. -/
def readPairs (value : Read Toml) : (fuel : Nat) → Read (List (List String × Toml))
  | 0, _ => none
  | fuel + 1, cs => do
    let (pair, rest) ← readPair value cs
    match skipBlank rest with
    | ',' :: rest =>
      let (more, rest) ← readPairs value fuel rest
      return (pair :: more, rest)
    | '\x7d' :: rest => return ([pair], rest)
    | _ => none

/-- The entries that a list of pairs defines. -/
def ofPairs (pairs : List (List String × Toml)) : Option Entries :=
  pairs.foldlM (fun es (path, v) => do define path.dropLast (← path.getLast?) v .braces es) []

/-- A value in which arrays and inline tables nest no deeper than the fuel. -/
def readValue : (depth : Nat) → Read Toml
  | 0, '"' :: rest => (readText '"' rest).map fun (s, rest) => (text s, rest)
  | 0, '\'' :: rest => (readText '\'' rest).map fun (s, rest) => (text s, rest)
  | 0, cs => readWord cs
  | depth + 1, '[' :: rest =>
    (readItems (readValue depth) (rest.length + 1) rest).map fun (items, rest) =>
      (array items, rest)
  | depth + 1, '\x7b' :: rest =>
    match skipBlank rest with
    | '\x7d' :: rest => some (table .braces [], rest)
    | rest => do
      let (pairs, rest) ← readPairs (readValue depth) (rest.length + 1) rest
      return (table .braces (← ofPairs pairs), rest)
  | depth + 1, cs => readValue depth cs

/-- Reads the lines of a document. -/
def readLines : (fuel : Nat) → Document → List Char → Option Document
  | 0, _, _ => none
  | fuel + 1, d, cs =>
    match skipBlank cs with
    | [] => some d
    | '#' :: rest => do readLines fuel d (← lineEnd? ('#' :: rest))
    | '\n' :: rest => readLines fuel d rest
    | '\r' :: rest => do readLines fuel d (← mark '\n' rest)
    | '[' :: '[' :: rest => do
      let (path, rest) ← readPath depthLimit rest
      let rest ← lineEnd? (← mark ']' (← mark ']' rest))
      readLines fuel (← d.header path openNext) rest
    | '[' :: rest => do
      let (path, rest) ← readPath depthLimit rest
      let rest ← lineEnd? (← mark ']' rest)
      readLines fuel (← d.header path openTable) rest
    | cs => do
      let ((path, v), rest) ← readPair (readValue depthLimit) cs
      readLines fuel (← d.assign path v) (← lineEnd? rest)

/-- The table that a text describes. A mark of the byte order may stand in front. -/
def parse? (s : String) : Option Toml := do
  let cs :=
    match s.toList with
    | '\ufeff' :: rest => rest
    | cs => cs
  let d ← readLines (cs.length + 1) {} cs
  return table .header d.entries

/-- A whole number below `2 ^ bits`. -/
def word? (bits : Nat) : Toml → Option Nat
  | integer n => if 0 ≤ n ∧ n < 1 <<< bits then some n.toNat else none
  | _ => none

def text? : Toml → Option String
  | text s => some s
  | _ => none

/-- The fields of a record that are there. A record is a table, in which names
that are not the record's are left out, or an array of its fields in order. A
date counts as a table without any of them. -/
def fields? (names : List String) : Toml → Option (List (String × Toml))
  | table _ entries => some (entries.filter fun (name, _) => names.contains name)
  | array items => some (names.zip items)
  | tables items => some (names.zip (items.map (table .header)))
  | dateTime => some []
  | _ => none

end Toml

end DoubleRatchet
