/-!
# JSON values

A JSON value as far as settings need it.  Only numbers written as plain
digits have a value here, since no setting takes any other; an object keeps
its fields in the order in which they are written, repeated ones included.

`Json.read?` reads a text that holds one JSON value and nothing else.  The
grammar is the strict one: no comments, no trailing commas, no leading zeros,
no control characters in strings.
-/

namespace SmallWorld

inductive Json where
  | null
  | bool (value : Bool)
  /-- A number without sign, fraction and exponent. -/
  | whole (value : Nat)
  /-- Any other number. -/
  | otherNumber
  /-- A string; there is no content if it names half a surrogate pair. -/
  | string (content : Option String)
  | array (elements : List Json)
  | object (fields : List (Option String × Json))
  deriving Inhabited

namespace Json

/-- The value of a number that fits into 64 bits and is written as plain
digits. -/
def word? : Json → Option Nat
  | .whole value => if value < UInt64.size then some value else none
  | _ => none

def skipBlank (characters : List Char) : List Char :=
  characters.dropWhile fun character =>
    character == ' ' || character == '\n' || character == '\t' ||
      character == '\r'

def hexDigit? (character : Char) : Option Nat :=
  if '0' ≤ character ∧ character ≤ '9' then
    some (character.toNat - '0'.toNat)
  else if 'a' ≤ character ∧ character ≤ 'f' then
    some (character.toNat - 'a'.toNat + 10)
  else if 'A' ≤ character ∧ character ≤ 'F' then
    some (character.toNat - 'A'.toNat + 10)
  else
    none

/-- The number that four hexadecimal digits stand for. -/
def hexUnit? (first second third fourth : Char) : Option Nat := do
  let first ← hexDigit? first
  let second ← hexDigit? second
  let third ← hexDigit? third
  let fourth ← hexDigit? fourth
  pure (((first * 16 + second) * 16 + third) * 16 + fourth)

/-- The character that a letter after a backslash stands for. -/
def escaped? : Char → Option Nat
  | '"' => some 0x22
  | '\\' => some 0x5c
  | '/' => some 0x2f
  | 'b' => some 0x08
  | 'f' => some 0x0c
  | 'n' => some 0x0a
  | 'r' => some 0x0d
  | 't' => some 0x09
  | _ => none

/-- Read a string after its opening quote.  The result is the list of code
points, in which an escape of four digits may be half a surrogate pair, and
what follows the closing quote. -/
def readUnits : List Char → Option (List Nat × List Char)
  | [] => none
  | '"' :: rest => some ([], rest)
  | '\\' :: 'u' :: first :: second :: third :: fourth :: rest => do
      let unit ← hexUnit? first second third fourth
      let (units, rest) ← readUnits rest
      pure (unit :: units, rest)
  | '\\' :: letter :: rest => do
      let unit ← escaped? letter
      let (units, rest) ← readUnits rest
      pure (unit :: units, rest)
  | character :: rest =>
      if character.toNat < 0x20 || character == '\\' then
        none
      else do
        let (units, rest) ← readUnits rest
        pure (character.toNat :: units, rest)

/-- The characters that units stand for, unless half of a surrogate pair is
left alone. -/
def joinUnits : List Nat → Option (List Char)
  | [] => some []
  | unit :: rest =>
      if 0xd800 ≤ unit ∧ unit < 0xdc00 then
        match rest with
        | [] => none
        | low :: rest =>
            if 0xdc00 ≤ low ∧ low < 0xe000 then do
              let characters ← joinUnits rest
              let point := 0x10000 + (unit - 0xd800) * 0x400 + (low - 0xdc00)
              pure (Char.ofNat point :: characters)
            else
              none
      else if 0xdc00 ≤ unit ∧ unit < 0xe000 then
        none
      else do
        let characters ← joinUnits rest
        pure (Char.ofNat unit :: characters)

def content? (units : List Nat) : Option String :=
  (joinUnits units).map String.ofList

/-- At least one digit, and what follows. -/
def readDigits (characters : List Char) : Option (List Char × List Char) :=
  match characters.span Char.isDigit with
  | ([], _) => none
  | (digits, rest) => some (digits, rest)

/-- The digits of a whole number, which begin with a zero only if there is no
other digit. -/
def readWhole (characters : List Char) : Option (List Char × List Char) := do
  let (digits, rest) ← readDigits characters
  match digits with
  | '0' :: _ :: _ => none
  | _ => pure (digits, rest)

/-- What follows the fraction of a number, and whether there was one. -/
def skipFraction : List Char → Option (Bool × List Char)
  | '.' :: rest => do
      let (_, rest) ← readDigits rest
      pure (true, rest)
  | rest => some (false, rest)

def skipExponent : List Char → Option (Bool × List Char)
  | letter :: rest =>
      if letter == 'e' || letter == 'E' then do
        let unsigned :=
          match rest with
          | '+' :: digits => digits
          | '-' :: digits => digits
          | digits => digits
        let (_, rest) ← readDigits unsigned
        pure (true, rest)
      else
        some (false, letter :: rest)
  | [] => some (false, [])

/-- The number that decimal digits stand for. -/
def wholeNumber (digits : List Char) : Nat :=
  digits.foldl (fun number digit => number * 10 + (digit.toNat - '0'.toNat)) 0

def readNumber (characters : List Char) : Option (Json × List Char) := do
  let (negative, rest) :=
    match characters with
    | '-' :: rest => (true, rest)
    | rest => (false, rest)
  let (digits, rest) ← readWhole rest
  let (hasFraction, rest) ← skipFraction rest
  let (hasExponent, rest) ← skipExponent rest
  if negative || hasFraction || hasExponent then
    pure (.otherNumber, rest)
  else
    pure (.whole (wholeNumber digits), rest)

/-- Read a value that is a single word or number. -/
def readAtom : List Char → Option (Json × List Char)
  | 'n' :: 'u' :: 'l' :: 'l' :: rest => some (.null, rest)
  | 't' :: 'r' :: 'u' :: 'e' :: rest => some (.bool true, rest)
  | 'f' :: 'a' :: 'l' :: 's' :: 'e' :: rest => some (.bool false, rest)
  | characters => readNumber characters

mutual

/-- Read a value, after blanks.  Nothing is read without fuel, and each call
takes one unit of it. -/
def readValue : (fuel : Nat) → List Char → Option (Json × List Char)
  | 0, _ => none
  | fuel + 1, characters =>
      match skipBlank characters with
      | '"' :: rest => do
          let (units, rest) ← readUnits rest
          pure (.string (content? units), rest)
      | '[' :: rest =>
          match skipBlank rest with
          | ']' :: rest => some (.array [], rest)
          | rest => do
              let (elements, rest) ← readElements fuel rest
              pure (.array elements, rest)
      | '\x7b' :: rest =>
          match skipBlank rest with
          | '\x7d' :: rest => some (.object [], rest)
          | rest => do
              let (fields, rest) ← readFields fuel rest
              pure (.object fields, rest)
      | rest => readAtom rest

def readElements :
    (fuel : Nat) → List Char → Option (List Json × List Char)
  | 0, _ => none
  | fuel + 1, characters => do
      let (element, rest) ← readValue fuel characters
      match skipBlank rest with
      | ',' :: rest => do
          let (elements, rest) ← readElements fuel rest
          pure (element :: elements, rest)
      | ']' :: rest => pure ([element], rest)
      | _ => none

def readFields : (fuel : Nat) → List Char →
    Option (List (Option String × Json) × List Char)
  | 0, _ => none
  | fuel + 1, characters =>
      match skipBlank characters with
      | '"' :: rest => do
          let (units, rest) ← readUnits rest
          match skipBlank rest with
          | ':' :: rest => do
              let (value, rest) ← readValue fuel rest
              let field := (content? units, value)
              match skipBlank rest with
              | ',' :: rest => do
                  let (fields, rest) ← readFields fuel rest
                  pure (field :: fields, rest)
              | '\x7d' :: rest => pure ([field], rest)
              | _ => none
          | _ => none
      | _ => none

end

/-- Read a text that holds one value.  At most two calls are nested for each
character, which bounds the fuel. -/
def read? (text : String) : Option Json := do
  let characters := text.toList
  let (value, rest) ← readValue (2 * characters.length + 2) characters
  if skipBlank rest = [] then some value else none

end Json

end SmallWorld
