import OriginGate.Hex
import OriginGate.Json.Basic

/-!
# Writing JSON text

* `Json.compact` : the text of a value without blanks;
* `Json.pretty` : the text over several lines, two spaces to a level.

Strings escape the quote, the backslash and the control characters only. Each writer puts its text
in front of what follows.
-/

namespace OriginGate.Json

/-! ## Strings -/

/-- A character of a string as it is written. -/
def escapeChar (c : Char) : List Char :=
  match c with
  | '"' => ['\\', '"']
  | '\\' => ['\\', '\\']
  | '\x08' => ['\\', 'b']
  | '\x0c' => ['\\', 'f']
  | '\n' => ['\\', 'n']
  | '\r' => ['\\', 'r']
  | '\t' => ['\\', 't']
  | c => if c.toNat < 0x20 then '\\' :: 'u' :: Hex.encode 4 c.toNat else [c]

/-- A string in quotes. -/
def writeString (s : String) (rest : List Char) : List Char :=
  '"' :: s.toList.flatMap escapeChar ++ '"' :: rest

/-! ## Without blanks -/

mutual

def write : Json → List Char → List Char
  | null, rest => 'n' :: 'u' :: 'l' :: 'l' :: rest
  | bool true, rest => 't' :: 'r' :: 'u' :: 'e' :: rest
  | bool false, rest => 'f' :: 'a' :: 'l' :: 's' :: 'e' :: rest
  | int n, rest => (toString n).toList ++ rest
  | double d, rest => d.text ++ rest
  | str s, rest => writeString s rest
  | arr items, rest => '[' :: writeItems items (']' :: rest)
  | obj fields, rest => '\x7b' :: writeFields fields ('\x7d' :: rest)

def writeItems : List Json → List Char → List Char
  | [], rest => rest
  | [x], rest => write x rest
  | x :: xs, rest => write x (',' :: writeItems xs rest)

def writeFields : List (String × Json) → List Char → List Char
  | [], rest => rest
  | [(k, x)], rest => writeString k (':' :: write x rest)
  | (k, x) :: fs, rest => writeString k (':' :: write x (',' :: writeFields fs rest))

end

/-- The text of a value without blanks. -/
def compact (j : Json) : String := String.ofList (write j [])

/-! ## Over several lines -/

/-- A line break and the blanks of a level. -/
def newline (level : Nat) (rest : List Char) : List Char :=
  '\n' :: List.replicate (2 * level) ' ' ++ rest

mutual

def writePretty (level : Nat) : Json → List Char → List Char
  | arr (x :: xs), rest =>
    '[' :: writePrettyItems (level + 1) (x :: xs) (newline level (']' :: rest))
  | obj (f :: fs), rest =>
    '\x7b' :: writePrettyFields (level + 1) (f :: fs) (newline level ('\x7d' :: rest))
  | j, rest => write j rest

def writePrettyItems (level : Nat) : List Json → List Char → List Char
  | [], rest => rest
  | [x], rest => newline level (writePretty level x rest)
  | x :: xs, rest => newline level (writePretty level x (',' :: writePrettyItems level xs rest))

def writePrettyFields (level : Nat) : List (String × Json) → List Char → List Char
  | [], rest => rest
  | [(k, x)], rest => newline level (writeString k (':' :: ' ' :: writePretty level x rest))
  | (k, x) :: fs, rest =>
    newline level
      (writeString k (':' :: ' ' :: writePretty level x (',' :: writePrettyFields level fs rest)))

end

/-- The text of a value over several lines. -/
def pretty (j : Json) : String := String.ofList (writePretty 0 j [])

end OriginGate.Json
