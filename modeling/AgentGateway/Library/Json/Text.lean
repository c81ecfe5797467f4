import AgentGateway.Library.Json.Value

/-!
# JSON texts

The compact printer and the recursive-descent reader of RFC 8259 texts.  The
reader returns the syntax tree: fields stay in document order and a repeated
key is kept, so that what to do about either is left to the decoder above it.
A text whose arrays and objects nest deeper than a given bound is refused.
-/

namespace Json

/-! ## Printing -/

/-- The lower-case hexadecimal digit of a number below sixteen. -/
def hexDigit (n : ℕ) : Char := Nat.digitChar n

/-- A character as it stands inside a string literal: quotes, backslashes and
control characters are escaped, everything else stands for itself. -/
def escapeChar (c : Char) : List Char :=
  if c = '"' then ['\\', '"']
  else if c = '\\' then ['\\', '\\']
  else if c = '\x08' then ['\\', 'b']
  else if c = '\x0c' then ['\\', 'f']
  else if c = '\n' then ['\\', 'n']
  else if c = '\r' then ['\\', 'r']
  else if c = '\t' then ['\\', 't']
  else if c.toNat < 32 then
    ['\\', 'u', '0', '0', hexDigit (c.toNat / 16), hexDigit (c.toNat % 16)]
  else [c]

def printString (s : String) : List Char :=
  '"' :: (s.toList.flatMap escapeChar ++ ['"'])

def Number.print : Number → List Char
  | .posInt n => Nat.toDigits 10 n
  | .negInt n => '-' :: Nat.toDigits 10 n
  | .float text => text.toList

mutual
/-- Compact text of a value, fields in the order in which they are stored. -/
def print : Value → List Char
  | .null => ['n', 'u', 'l', 'l']
  | .bool true => ['t', 'r', 'u', 'e']
  | .bool false => ['f', 'a', 'l', 's', 'e']
  | .num n => n.print
  | .str s => printString s
  | .arr [] => ['[', ']']
  | .arr (x :: xs) => '[' :: (print x ++ printItems xs)
  | .obj [] => ['{', '}']
  | .obj ((k, x) :: fs) =>
      '{' :: (printString k ++ ':' :: (print x ++ printFields fs))

/-- The items after the first one, and the closing bracket. -/
def printItems : List Value → List Char
  | [] => [']']
  | x :: xs => ',' :: (print x ++ printItems xs)

/-- The fields after the first one, and the closing brace. -/
def printFields : List (String × Value) → List Char
  | [] => ['}']
  | (k, x) :: fs => ',' :: (printString k ++ ':' :: (print x ++ printFields fs))
end

/-! ## Reading -/

def isSpace (c : Char) : Bool :=
  c = ' ' || c = '\n' || c = '\t' || c = '\r'

def skipSpace : List Char → List Char
  | [] => []
  | c :: cs => if isSpace c then skipSpace cs else c :: cs

def hexValue? (c : Char) : Option ℕ :=
  if '0' ≤ c ∧ c ≤ '9' then some (c.toNat - '0'.toNat)
  else if 'a' ≤ c ∧ c ≤ 'f' then some (c.toNat - 'a'.toNat + 10)
  else if 'A' ≤ c ∧ c ≤ 'F' then some (c.toNat - 'A'.toNat + 10)
  else none

/-- The code unit written by the four digits of a `\u` escape. -/
def codeUnit? (a b c d : Char) : Option ℕ := do
  let a ← hexValue? a
  let b ← hexValue? b
  let c ← hexValue? c
  let d ← hexValue? d
  return ((a * 16 + b) * 16 + c) * 16 + d

/-- The character of a two-character escape. -/
def unescape? (c : Char) : Option Char :=
  if c = '"' then some '"'
  else if c = '\\' then some '\\'
  else if c = '/' then some '/'
  else if c = 'b' then some '\x08'
  else if c = 'f' then some '\x0c'
  else if c = 'n' then some '\n'
  else if c = 'r' then some '\r'
  else if c = 't' then some '\t'
  else none

/-- Read the rest of a string literal, its closing quote included.  Control
characters must be escaped, and surrogate escapes must form a pair. -/
def readChars : List Char → Option (List Char × List Char)
  | [] => none
  | '"' :: cs => some ([], cs)
  | '\\' :: 'u' :: a :: b :: c :: d :: cs =>
      match codeUnit? a b c d with
      | none => none
      | some n =>
          if 0xD800 ≤ n ∧ n < 0xDC00 then
            match cs with
            | '\\' :: 'u' :: e :: f :: g :: h :: cs =>
                match codeUnit? e f g h with
                | none => none
                | some m =>
                    if 0xDC00 ≤ m ∧ m < 0xE000 then
                      (readChars cs).map fun r =>
                        (Char.ofNat
                          (0x10000 + (n - 0xD800) * 0x400 + (m - 0xDC00)) ::
                            r.1, r.2)
                    else none
            | _ => none
          else if 0xDC00 ≤ n ∧ n < 0xE000 then none
          else (readChars cs).map fun r => (Char.ofNat n :: r.1, r.2)
  | '\\' :: e :: cs =>
      match unescape? e with
      | none => none
      | some c => (readChars cs).map fun r => (c :: r.1, r.2)
  | c :: cs =>
      if c.toNat < 32 then none
      else (readChars cs).map fun r => (c :: r.1, r.2)

/-- Split off the longest prefix of digits. -/
def spanDigits : List Char → List Char × List Char
  | [] => ([], [])
  | c :: cs =>
      if c.isDigit then
        let r := spanDigits cs
        (c :: r.1, r.2)
      else ([], c :: cs)

/-- The integer part of a number literal: no superfluous leading zero. -/
def readInteger (cs : List Char) : Option (List Char × List Char) :=
  match spanDigits cs with
  | ([], _) => none
  | ('0' :: _ :: _, _) => none
  | (ds, rest) => some (ds, rest)

/-- The optional fraction of a number literal, as text. -/
def readFraction (cs : List Char) : Option (List Char × List Char) :=
  match cs with
  | '.' :: cs =>
      match spanDigits cs with
      | ([], _) => none
      | (ds, rest) => some ('.' :: ds, rest)
  | _ => some ([], cs)

/-- The optional exponent of a number literal, as text. -/
def readExponent (cs : List Char) : Option (List Char × List Char) :=
  match cs with
  | e :: cs' =>
      if e = 'e' ∨ e = 'E' then
        let (sign, cs'') := match cs' with
          | '+' :: r => (['+'], r)
          | '-' :: r => (['-'], r)
          | _ => ([], cs')
        match spanDigits cs'' with
        | ([], _) => none
        | (ds, rest) => some (e :: (sign ++ ds), rest)
      else some ([], cs)
  | [] => some ([], [])

/-- The class of a literal: plain integers of 64 bits are integers, and so are
their negatives down to the least signed one; `-0`, larger integers and
literals with a fraction or an exponent are not. -/
def classify (negative : Bool) (ds tail : List Char) : Number :=
  let n := Nat.ofDigitChars 10 ds 0
  if tail = [] ∧ negative = false ∧ n < 2 ^ 64 then .posInt n
  else if tail = [] ∧ negative = true ∧ 0 < n ∧ n ≤ 2 ^ 63 then .negInt n
  else .float (String.ofList
    ((if negative then ['-'] else []) ++ ds ++ tail))

def readNumber (cs : List Char) : Option (Number × List Char) :=
  let (negative, cs) := match cs with
    | '-' :: r => (true, r)
    | _ => (false, cs)
  match readInteger cs with
  | none => none
  | some (ds, cs) =>
      match readFraction cs with
      | none => none
      | some (fraction, cs) =>
          match readExponent cs with
          | none => none
          | some (exponent, cs) =>
              some (classify negative ds (fraction ++ exponent), cs)

mutual
/-- Read a value and return the text after it.  `fuel` bounds the number of
calls and `depth` the number of arrays and objects that may still be entered. -/
def readValue : ℕ → ℕ → List Char → Option (Value × List Char)
  | 0, _, _ => none
  | fuel + 1, depth, cs =>
      match skipSpace cs with
      | 'n' :: 'u' :: 'l' :: 'l' :: cs => some (.null, cs)
      | 't' :: 'r' :: 'u' :: 'e' :: cs => some (.bool true, cs)
      | 'f' :: 'a' :: 'l' :: 's' :: 'e' :: cs => some (.bool false, cs)
      | '"' :: cs =>
          (readChars cs).map fun r => (.str (String.ofList r.1), r.2)
      | '[' :: cs =>
          match depth with
          | 0 => none
          | depth + 1 =>
              match skipSpace cs with
              | ']' :: cs => some (.arr [], cs)
              | cs => (readItems fuel depth cs).map fun r => (.arr r.1, r.2)
      | '{' :: cs =>
          match depth with
          | 0 => none
          | depth + 1 =>
              match skipSpace cs with
              | '}' :: cs => some (.obj [], cs)
              | cs => (readFields fuel depth cs).map fun r => (.obj r.1, r.2)
      | cs => (readNumber cs).map fun r => (.num r.1, r.2)

/-- Read one or more items and the closing bracket. -/
def readItems : ℕ → ℕ → List Char → Option (List Value × List Char)
  | 0, _, _ => none
  | fuel + 1, depth, cs =>
      match readValue fuel depth cs with
      | none => none
      | some (x, cs) =>
          match skipSpace cs with
          | ',' :: cs => (readItems fuel depth cs).map fun r => (x :: r.1, r.2)
          | ']' :: cs => some ([x], cs)
          | _ => none

/-- Read one or more fields and the closing brace. -/
def readFields :
    ℕ → ℕ → List Char → Option (List (String × Value) × List Char)
  | 0, _, _ => none
  | fuel + 1, depth, cs =>
      match skipSpace cs with
      | '"' :: cs =>
          match readChars cs with
          | none => none
          | some (k, cs) =>
              match skipSpace cs with
              | ':' :: cs =>
                  match readValue fuel depth cs with
                  | none => none
                  | some (x, cs) =>
                      match skipSpace cs with
                      | ',' :: cs => (readFields fuel depth cs).map fun r =>
                          ((String.ofList k, x) :: r.1, r.2)
                      | '}' :: cs => some ([(String.ofList k, x)], cs)
                      | _ => none
              | _ => none
      | _ => none
end

/-- Read a whole text.  Its length is fuel enough: an array or object costs two
calls and has two brackets, and each further item or field has a comma. -/
def read (depth : ℕ) (cs : List Char) : Option Value :=
  match readValue (cs.length + 1) depth cs with
  | some (v, rest) => if skipSpace rest = [] then some v else none
  | none => none

end Json
