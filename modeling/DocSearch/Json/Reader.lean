import DocSearch.Json.Basic

/-!
# Reading JSON

`read?` accepts strict JSON: blanks are space, tab, line feed and carriage return, nothing follows the
value, and at most `greatestDepth` arrays and objects stand inside one another. Of two fields with one
key the later counts.

Each reader takes the characters ahead and returns what it read with the characters that are left. A
value may also be *skipped*: its shape is checked, but not its depth, the range of its numbers and the
pairing of its escaped surrogates.
-/

namespace DocSearch.Json.Reader

open Decimal

/-- A blank between tokens. -/
def isSpace (c : Char) : Bool := c == ' ' || c == '\t' || c == '\n' || c == '\r'

def skipSpace (cs : List Char) : List Char := cs.dropWhile isSpace

def digit? (c : Char) : Option Nat :=
  if '0' ≤ c ∧ c ≤ '9' then some (c.toNat - '0'.toNat) else none

/-- The digits ahead. -/
def digits : List Char → List Nat × List Char
  | [] => ([], [])
  | c :: rest =>
    match digit? c with
    | some d => let (ds, left) := digits rest; (d :: ds, left)
    | none => ([], c :: rest)

/-- At least one digit. -/
def digits1? (cs : List Char) : Option (List Nat × List Char) :=
  match digits cs with
  | ([], _) => none
  | (ds, left) => some (ds, left)

/-- The digits before the point: a zero stands alone. -/
def whole? (cs : List Char) : Option (List Nat × List Char) :=
  match digits1? cs with
  | some (0 :: _ :: _, _) => none
  | other => other

/-- The point and the digits after it, if a point is ahead. -/
def fraction? : List Char → Option (List Nat × List Char)
  | '.' :: rest => digits1? rest
  | cs => some ([], cs)

def valueOf (ds : List Nat) : Nat := ds.foldl (fun n d => n * 10 + d) 0

/-- The digits of an exponent, and its sign. -/
def exponentDigits? : List Char → Option (Int × List Char)
  | '-' :: rest => (digits1? rest).map fun (ds, left) => (-(valueOf ds : Int), left)
  | '+' :: rest => (digits1? rest).map fun (ds, left) => ((valueOf ds : Int), left)
  | cs => (digits1? cs).map fun (ds, left) => ((valueOf ds : Int), left)

/-- The exponent, if one is ahead. -/
def exponent? : List Char → Option (Option Int × List Char)
  | 'e' :: rest => (exponentDigits? rest).map fun (e, left) => (some e, left)
  | 'E' :: rest => (exponentDigits? rest).map fun (e, left) => (some e, left)
  | cs => some (none, cs)

/-- A number without its sign. -/
def unsigned? (negative : Bool) (cs : List Char) : Option (Literal × List Char) := do
  let (whole, cs) ← whole? cs
  let (fraction, cs) ← fraction? cs
  let (exponent, cs) ← exponent? cs
  some (⟨negative, whole, fraction, exponent⟩, cs)

/-- A number as it is spelled. -/
def literal? : List Char → Option (Literal × List Char)
  | '-' :: rest => unsigned? true rest
  | cs => unsigned? false cs

def hex? (c : Char) : Option Nat :=
  if '0' ≤ c ∧ c ≤ '9' then some (c.toNat - '0'.toNat)
  else if 'a' ≤ c ∧ c ≤ 'f' then some (c.toNat - 'a'.toNat + 10)
  else if 'A' ≤ c ∧ c ≤ 'F' then some (c.toNat - 'A'.toNat + 10)
  else none

def hex4? (a b c d : Char) : Option Nat := do
  some ((((← hex? a) * 16 + (← hex? b)) * 16 + (← hex? c)) * 16 + (← hex? d))

/-- The character of an escape of two characters. -/
def shortEscape? : Char → Option Char
  | '"' => some '"'
  | '\\' => some '\\'
  | '/' => some '/'
  | 'b' => some '\x08'
  | 'f' => some '\x0c'
  | 'n' => some '\n'
  | 'r' => some '\r'
  | 't' => some '\t'
  | _ => none

/-- The code units of a text up to its closing quote, each escape one of them. Only an escape yields a
surrogate. -/
def units? : List Char → Option (List Nat × List Char)
  | [] => none
  | '"' :: rest => some ([], rest)
  | '\\' :: 'u' :: a :: b :: c :: d :: rest => do
    let unit ← hex4? a b c d
    let (us, left) ← units? rest
    some (unit :: us, left)
  | '\\' :: c :: rest => do
    let char ← shortEscape? c
    let (us, left) ← units? rest
    some (char.toNat :: us, left)
  | c :: rest =>
    if c.toNat < 0x20 then none
    else do
      let (us, left) ← units? rest
      some (c.toNat :: us, left)

def isHighSurrogate (u : Nat) : Bool := 0xD800 ≤ u && u ≤ 0xDBFF

def isLowSurrogate (u : Nat) : Bool := 0xDC00 ≤ u && u ≤ 0xDFFF

/-- The characters that code units spell; a surrogate counts only in a pair. -/
def ofUnits? : List Nat → Option (List Char)
  | [] => some []
  | [u] => if isHighSurrogate u || isLowSurrogate u then none else some [Char.ofNat u]
  | u :: v :: rest =>
    if isHighSurrogate u then
      if isLowSurrogate v then
        (ofUnits? rest).map (Char.ofNat (0x10000 + (u - 0xD800) * 0x400 + (v - 0xDC00)) :: ·)
      else none
    else if isLowSurrogate u then none
    else (ofUnits? (v :: rest)).map (Char.ofNat u :: ·)

/-- Whether the value of what is read is wanted. -/
inductive Care where
  | kept
  | skipped
  deriving DecidableEq

/-- A text after its opening quote. -/
def text? (care : Care) (cs : List Char) : Option (String × List Char) := do
  let (units, left) ← units? cs
  match care with
  | .kept => some (String.ofList (← ofUnits? units), left)
  | .skipped => some ("", left)

def number? (care : Care) (cs : List Char) : Option (Number × List Char) := do
  let (literal, left) ← literal? cs
  match care with
  | .kept => some (← Number.ofLiteral? literal, left)
  | .skipped => some (.natural 0, left)

/-- Reads the given characters. -/
def expect? : List Char → List Char → Option (List Char)
  | [], cs => some cs
  | e :: es, c :: cs => if e = c then expect? es cs else none
  | _ :: _, [] => none

/-- The items of an array from the first one on, and its end. At most `fuel` items are read. -/
def items? {α : Type} (item? : List Char → Option (α × List Char)) :
    Nat → List Char → Option (List α × List Char)
  | 0, _ => none
  | fuel + 1, cs => do
    let (item, cs) ← item? (skipSpace cs)
    match skipSpace cs with
    | ',' :: rest => do
      let (items, left) ← items? item? fuel rest
      some (item :: items, left)
    | ']' :: rest => some ([item], rest)
    | _ => none

/-- An array after its opening bracket. -/
def array? {α : Type} (item? : List Char → Option (α × List Char)) (fuel : Nat) (cs : List Char) :
    Option (List α × List Char) :=
  match skipSpace cs with
  | ']' :: rest => some ([], rest)
  | _ => items? item? fuel cs

/-- A key, the colon and a value, which is read by a reader that knows the key. -/
def field? {α : Type} (care : Care) (value? : String → List Char → Option (α × List Char))
    (cs : List Char) : Option ((String × α) × List Char) :=
  match skipSpace cs with
  | '"' :: rest => do
    let (key, cs) ← text? care rest
    match skipSpace cs with
    | ':' :: rest => do
      let (value, left) ← value? key (skipSpace rest)
      some ((key, value), left)
    | _ => none
  | _ => none

/-- The fields of an object from the first one on, and its end. At most `fuel` fields are read. -/
def fields? {α : Type} (care : Care) (value? : String → List Char → Option (α × List Char)) :
    Nat → List Char → Option (List (String × α) × List Char)
  | 0, _ => none
  | fuel + 1, cs => do
    let (field, cs) ← field? care value? cs
    match skipSpace cs with
    | ',' :: rest => do
      let (fields, left) ← fields? care value? fuel rest
      some (field :: fields, left)
    | '}' :: rest => some ([field], rest)
    | _ => none

/-- An object after its opening brace, its fields as they come. -/
def object? {α : Type} (care : Care) (value? : String → List Char → Option (α × List Char))
    (fuel : Nat) (cs : List Char) : Option (List (String × α) × List Char) :=
  match skipSpace cs with
  | '}' :: rest => some ([], rest)
  | _ => fields? care value? fuel cs

/-- A value that stands at the head of `cs`, with at most `depth` arrays and objects inside one
another, each of at most `fuel` members. -/
def value? (care : Care) (fuel : Nat) : Nat → List Char → Option (Json × List Char)
  | _, 'n' :: rest => (expect? ['u', 'l', 'l'] rest).map (Json.null, ·)
  | _, 't' :: rest => (expect? ['r', 'u', 'e'] rest).map (Json.bool true, ·)
  | _, 'f' :: rest => (expect? ['a', 'l', 's', 'e'] rest).map (Json.bool false, ·)
  | _, '"' :: rest => (text? care rest).map fun (s, left) => (.text s, left)
  | depth + 1, '[' :: rest =>
    (array? (value? care fuel depth) fuel rest).map fun (items, left) => (.array items, left)
  | depth + 1, '{' :: rest =>
    (object? care (fun _ => value? care fuel depth) fuel rest).map fun (fields, left) =>
      (.object (Fields.ofList fields), left)
  | _, cs => (number? care cs).map fun (n, left) => (.number n, left)

/-- How many arrays and objects may stand inside one another. -/
def greatestDepth : Nat := 127

/-- The end of a text, after blanks. -/
def atEnd {α : Type} : α × List Char → Option α
  | (a, left) => if skipSpace left = [] then some a else none

end Reader

/-- The value that a text spells. -/
def read? (s : String) : Option Json :=
  (Reader.value? .kept s.length Reader.greatestDepth (Reader.skipSpace s.toList)).bind Reader.atEnd

end DocSearch.Json
