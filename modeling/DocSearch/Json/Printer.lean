import DocSearch.Json.Basic

/-!
# Writing JSON

`compact` writes a value without blanks, `pretty` over several lines with two blanks of indentation a
level. In a text the quote, the backslash and the characters below U+0020 are escaped, and nothing
else.
-/

namespace DocSearch.Json

/-- The hexadecimal digit of a number below 16. -/
def hexDigit (n : Nat) : Char := Char.ofNat (if n < 10 then '0'.toNat + n else 'a'.toNat + (n - 10))

/-- A character as it stands in a quoted text. -/
def escape (c : Char) : List Char :=
  match c with
  | '"' => ['\\', '"']
  | '\\' => ['\\', '\\']
  | '\x08' => ['\\', 'b']
  | '\x0c' => ['\\', 'f']
  | '\n' => ['\\', 'n']
  | '\r' => ['\\', 'r']
  | '\t' => ['\\', 't']
  | c =>
    if c.toNat < 0x20 then ['\\', 'u', '0', '0', hexDigit (c.toNat / 16), hexDigit (c.toNat % 16)]
    else [c]

def quoted (s : String) : List Char := '"' :: (s.toList.flatMap escape ++ ['"'])

def keyword : Bool → List Char
  | true => ['t', 'r', 'u', 'e']
  | false => ['f', 'a', 'l', 's', 'e']

mutual

/-- A value without blanks. -/
def compactChars : Json → List Char
  | .null => ['n', 'u', 'l', 'l']
  | .bool b => keyword b
  | .number n => n.text
  | .text s => quoted s
  | .array [] => ['[', ']']
  | .array (item :: items) => '[' :: (compactChars item ++ compactItems items)
  | .object [] => ['{', '}']
  | .object ((key, value) :: fields) =>
    '{' :: (quoted key ++ ':' :: (compactChars value ++ compactFields fields))

/-- The items of an array after the first, and its end. -/
def compactItems : List Json → List Char
  | [] => [']']
  | item :: items => ',' :: (compactChars item ++ compactItems items)

/-- The fields of an object after the first, and its end. -/
def compactFields : List (String × Json) → List Char
  | [] => ['}']
  | (key, value) :: fields =>
    ',' :: (quoted key ++ ':' :: (compactChars value ++ compactFields fields))

end

def compact (j : Json) : String := String.ofList j.compactChars

/-- A line break and the indentation of a level. -/
def newLine (level : Nat) : List Char := '\n' :: List.replicate (2 * level) ' '

mutual

/-- A value that starts on a line of the given level. -/
def prettyChars (level : Nat) : Json → List Char
  | .null => ['n', 'u', 'l', 'l']
  | .bool b => keyword b
  | .number n => n.text
  | .text s => quoted s
  | .array [] => ['[', ']']
  | .array (item :: items) =>
    '[' :: (newLine (level + 1) ++ prettyChars (level + 1) item ++ prettyItems level items)
  | .object [] => ['{', '}']
  | .object ((key, value) :: fields) =>
    '{' :: (newLine (level + 1) ++ quoted key ++ ':' :: ' ' ::
      (prettyChars (level + 1) value ++ prettyFields level fields))

/-- The items of an array after the first, and its end. -/
def prettyItems (level : Nat) : List Json → List Char
  | [] => newLine level ++ [']']
  | item :: items =>
    ',' :: (newLine (level + 1) ++ prettyChars (level + 1) item ++ prettyItems level items)

/-- The fields of an object after the first, and its end. -/
def prettyFields (level : Nat) : List (String × Json) → List Char
  | [] => newLine level ++ ['}']
  | (key, value) :: fields =>
    ',' :: (newLine (level + 1) ++ quoted key ++ ':' :: ' ' ::
      (prettyChars (level + 1) value ++ prettyFields level fields))

end

/-- The text of a value over several lines. -/
def pretty (j : Json) : String := String.ofList (prettyChars 0 j)

end DocSearch.Json
