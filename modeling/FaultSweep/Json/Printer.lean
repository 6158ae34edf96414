import FaultSweep.Json.Numeral

/-!
# Writing JSON

Two layouts: compact, and one value a line with two spaces for each level. In a text only the quote,
the backslash and the characters below U+0020 are escaped.
-/

namespace FaultSweep.Json

def hexDigit (n : Nat) : Char := Nat.digitChar n

/-- How a character is written inside a text. -/
def escaped (c : Char) : List Char :=
  match c with
  | '\x22' => ['\x5c', '\x22']
  | '\x5c' => ['\x5c', '\x5c']
  | '\x08' => ['\x5c', 'b']
  | '\x0c' => ['\x5c', 'f']
  | '\n' => ['\x5c', 'n']
  | '\r' => ['\x5c', 'r']
  | '\t' => ['\x5c', 't']
  | _ =>
    if c.toNat < 0x20 then
      ['\x5c', 'u', '0', '0', hexDigit (c.toNat / 16), hexDigit (c.toNat % 16)]
    else [c]

def quoted (s : String) : List Char := '\x22' :: (s.toList.flatMap escaped ++ ['\x22'])

mutual
def compactChars : Json → List Char
  | .null => ['n', 'u', 'l', 'l']
  | .bool true => ['t', 'r', 'u', 'e']
  | .bool false => ['f', 'a', 'l', 's', 'e']
  | .num n => n.text
  | .str s => quoted s
  | .arr items => '[' :: (compactItems items ++ [']'])
  | .obj fields => '\x7b' :: (compactFields fields ++ ['\x7d'])
def compactItems : List Json → List Char
  | [] => []
  | [v] => compactChars v
  | v :: vs => compactChars v ++ ',' :: compactItems vs
def compactFields : List (String × Json) → List Char
  | [] => []
  | [(k, v)] => quoted k ++ ':' :: compactChars v
  | (k, v) :: fs => quoted k ++ ':' :: (compactChars v ++ ',' :: compactFields fs)
end

def compact (v : Json) : String := String.ofList (compactChars v)

/-- A line break and the indentation of a level. -/
def newline (level : Nat) : List Char := '\n' :: List.replicate (2 * level) ' '

mutual
/-- The layout with line breaks, inside `level` arrays and objects. -/
def prettyChars (level : Nat) : Json → List Char
  | .null => ['n', 'u', 'l', 'l']
  | .bool true => ['t', 'r', 'u', 'e']
  | .bool false => ['f', 'a', 'l', 's', 'e']
  | .num n => n.text
  | .str s => quoted s
  | .arr [] => ['[', ']']
  | .arr (v :: vs) => '[' :: (prettyItems (level + 1) (v :: vs) ++ newline level ++ [']'])
  | .obj [] => ['\x7b', '\x7d']
  | .obj (f :: fs) => '\x7b' :: (prettyFields (level + 1) (f :: fs) ++ newline level ++ ['\x7d'])
def prettyItems (level : Nat) : List Json → List Char
  | [] => []
  | [v] => newline level ++ prettyChars level v
  | v :: vs => newline level ++ prettyChars level v ++ ',' :: prettyItems level vs
def prettyFields (level : Nat) : List (String × Json) → List Char
  | [] => []
  | [(k, v)] => newline level ++ quoted k ++ ':' :: ' ' :: prettyChars level v
  | (k, v) :: fs =>
    newline level ++ quoted k ++ ':' :: ' ' :: (prettyChars level v ++ ',' :: prettyFields level fs)
end

def pretty (v : Json) : String := String.ofList (prettyChars 0 v)

end FaultSweep.Json
