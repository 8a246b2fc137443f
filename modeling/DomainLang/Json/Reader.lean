import DomainLang.Json.Value

/-!
# Reading JSON text

A total reader over characters. `readValue` recurses on a bound on the nesting,
and the readers of lists and objects recurse on a bound on the number of their
items, so nothing depends on the text being well formed; the length of the text
is such a bound.

Limits of the format: no repeated leading zeros, no control characters inside a
text, nothing but blanks after the value. Lists and objects that nest deeper than
127 levels are unreadable: they may stand only where a value is ignored.
-/

namespace DomainLang.Json

/-- The four characters that may stand between tokens. -/
def isBlank (character : Char) : Bool :=
  character = ' ' || character = '\n' || character = '\t' || character = '\r'

/-- Drop blanks in front. -/
def skipBlanks (characters : List Char) : List Char :=
  characters.dropWhile isBlank

/-- The value of a decimal digit. -/
def digitValue (character : Char) : Nat :=
  character.toNat - '0'.toNat

/-- The value of a hexadecimal digit. -/
def hexValue? (character : Char) : Option Nat :=
  if '0' ≤ character ∧ character ≤ '9' then some (character.toNat - '0'.toNat)
  else if 'a' ≤ character ∧ character ≤ 'f' then some (character.toNat - 'a'.toNat + 10)
  else if 'A' ≤ character ∧ character ≤ 'F' then some (character.toNat - 'A'.toNat + 10)
  else none

/-- Four hexadecimal digits and what follows them. -/
def readHex4 : List Char → Option (Nat × List Char)
  | first :: second :: third :: fourth :: rest => do
    let first ← hexValue? first
    let second ← hexValue? second
    let third ← hexValue? third
    let fourth ← hexValue? fourth
    return (((first * 16 + second) * 16 + third) * 16 + fourth, rest)
  | _ => none

/-- What one escape stands for: a character, or half of a surrogate pair. -/
inductive Escaped where
  | character (value : Char)
  | unpaired

/-- The escape after a backslash. -/
def readEscape : List Char → Option (Escaped × List Char)
  | '"' :: rest => some (.character '"', rest)
  | '\\' :: rest => some (.character '\\', rest)
  | '/' :: rest => some (.character '/', rest)
  | 'b' :: rest => some (.character '\x08', rest)
  | 'f' :: rest => some (.character '\x0c', rest)
  | 'n' :: rest => some (.character '\n', rest)
  | 'r' :: rest => some (.character '\r', rest)
  | 't' :: rest => some (.character '\t', rest)
  | 'u' :: rest => do
    let (unit, rest) ← readHex4 rest
    if unit < 0xD800 ∨ 0xDFFF < unit then
      return (.character (Char.ofNat unit), rest)
    else if unit < 0xDC00 then
      match rest with
      | '\\' :: 'u' :: afterMark =>
        let (low, afterLow) ← readHex4 afterMark
        if 0xDC00 ≤ low ∧ low ≤ 0xDFFF then
          let scalar := 0x10000 + (unit - 0xD800) * 0x400 + (low - 0xDC00)
          return (.character (Char.ofNat scalar), afterLow)
        else return (.unpaired, afterLow)
      | _ => return (.unpaired, rest)
    else return (.unpaired, rest)
  | _ => none

/-- The characters of a text up to its closing quote; `none` in their place when
an escape was half of a surrogate pair. -/
def readText : (bound : Nat) → List Char → Option (Option (List Char) × List Char)
  | 0, _ => none
  | _ + 1, [] => none
  | _ + 1, '"' :: rest => some (some [], rest)
  | bound + 1, '\\' :: rest => do
    let (escaped, rest) ← readEscape rest
    let (tail, rest) ← readText bound rest
    match escaped with
    | .character value => return (tail.map (value :: ·), rest)
    | .unpaired => return (none, rest)
  | bound + 1, character :: rest => do
    if character.toNat < 0x20 then none
    else
      let (tail, rest) ← readText bound rest
      return (tail.map (character :: ·), rest)

/-- The integers that 64 bits hold, signed or unsigned. -/
def fitsWord (value : Int) : Bool :=
  -0x8000000000000000 ≤ value && value < 0x10000000000000000

/-- The digits of a significand that 64 unsigned bits hold, and how many digits
were left over. Once a digit does not fit, it and all after it are left over. -/
def significand : (value : Nat) → List Char → Nat × Nat
  | value, [] => (value, 0)
  | value, digit :: rest =>
    let next := value * 10 + digitValue digit
    if next < UInt64.size then significand next rest else (value, rest.length + 1)

/-- The largest exponent that is read; a larger one is treated as unbounded. -/
def maxExponent : Nat := 0x7fffffff

/-- The double with the given digits before and after the point and exponent. -/
def decimal? (whole fraction : List Char) (exponent : Int) : Option Double :=
  let (value, leftOver) := significand 0 whole
  let (value, dropped) := significand value fraction
  let kept := fraction.length - dropped
  if maxExponent < exponent.natAbs then
    if value = 0 ∨ exponent < 0 then some (Double.ofNat 0) else none
  else Double.ofDecimal? value ((leftOver : Int) - kept + exponent)

/-- The digits of an exponent after its mark, with their sign. -/
def readExponent (characters : List Char) : Option (Int × List Char) :=
  let (negative, unsigned) := match characters with
    | '+' :: rest => (false, rest)
    | '-' :: rest => (true, rest)
    | _ => (false, characters)
  let digits := unsigned.takeWhile Char.isDigit
  if digits.isEmpty then none
  else
    let value : Int := digits.foldl (fun total digit => total * 10 + digitValue digit) 0
    some (if negative then -value else value, unsigned.dropWhile Char.isDigit)

/-- The double with an optional sign; nothing readable when it is too large. -/
def signedDouble (negative : Bool) (magnitude : Option Double) : Json :=
  match magnitude with
  | none => .unreadable
  | some value => .double (if negative then value.negate else value)

/-- A number without its sign, and what follows it. -/
def readUnsigned (negative : Bool) (characters : List Char) : Option (Json × List Char) :=
  let whole := characters.takeWhile Char.isDigit
  let afterWhole := characters.dropWhile Char.isDigit
  if whole.isEmpty ∨ (whole.head? = some '0' ∧ 1 < whole.length) then none
  else
    match afterWhole with
    | '.' :: afterPoint => do
      let fraction := afterPoint.takeWhile Char.isDigit
      let afterFraction := afterPoint.dropWhile Char.isDigit
      if fraction.isEmpty then none
      else if afterFraction.head? = some 'e' ∨ afterFraction.head? = some 'E' then
        let (exponent, rest) ← readExponent afterFraction.tail
        return (signedDouble negative (decimal? whole fraction exponent), rest)
      else return (signedDouble negative (decimal? whole fraction 0), afterFraction)
    | mark :: afterMark => do
      if mark = 'e' ∨ mark = 'E' then
        let (exponent, rest) ← readExponent afterMark
        return (signedDouble negative (decimal? whole [] exponent), rest)
      else return (integerOrDouble negative whole, afterWhole)
    | [] => some (integerOrDouble negative whole, [])
where
  /-- Digits alone: an integer when 64 bits hold it and it is not a negative zero. -/
  integerOrDouble (negative : Bool) (digits : List Char) : Json :=
    let magnitude := digits.foldl (fun total digit => total * 10 + digitValue digit) 0
    let value : Int := if negative then -(magnitude : Int) else magnitude
    if fitsWord value ∧ ¬(negative ∧ magnitude = 0) then .integer value
    else signedDouble negative (decimal? digits [] 0)

/-- The items of a list after its opening bracket. -/
def readItems (readItem : List Char → Option (Json × List Char)) :
    (bound : Nat) → List Char → Option (List Json × List Char)
  | 0, _ => none
  | bound + 1, characters => do
    let (item, rest) ← readItem characters
    match skipBlanks rest with
    | ',' :: rest =>
      let (items, rest) ← readItems readItem bound rest
      return (item :: items, rest)
    | ']' :: rest => return ([item], rest)
    | _ => none

/-- The fields of an object after its opening brace; a name with half of a surrogate
pair has no text. -/
def readFields (readItem : List Char → Option (Json × List Char)) :
    (bound : Nat) → List Char → Option (List (Option String × Json) × List Char)
  | 0, _ => none
  | bound + 1, characters => do
    match skipBlanks characters with
    | '"' :: rest =>
      let (name, rest) ← readText rest.length rest
      match skipBlanks rest with
      | ':' :: rest =>
        let (item, rest) ← readItem rest
        let field := (name.map String.ofList, item)
        match skipBlanks rest with
        | ',' :: rest =>
          let (fields, rest) ← readFields readItem bound rest
          return (field :: fields, rest)
        | '\x7d' :: rest => return ([field], rest)
        | _ => none
      | _ => none
    | _ => none

/-- The object of some fields; a name without text spoils it. -/
def ofFields (fields : List (Option String × Json)) : Json :=
  match fields.mapM fun (name, value) => name.map (·, value) with
  | some fields => .object fields
  | none => .unreadable

/-- A list or object, which can only be ignored when `levels` are used up. -/
def within (levels : Nat) (json : Json) : Json :=
  if levels = 0 then .unreadable else json

/-- One value and what follows it; `levels` is how many lists and objects may
still be opened and read. Deeper ones must be grammatical and are unreadable. -/
def readValue : (bound levels : Nat) → List Char → Option (Json × List Char)
  | 0, _, _ => none
  | bound + 1, levels, characters =>
    match skipBlanks characters with
    | 'n' :: 'u' :: 'l' :: 'l' :: rest => some (.null, rest)
    | 't' :: 'r' :: 'u' :: 'e' :: rest => some (.bool true, rest)
    | 'f' :: 'a' :: 'l' :: 's' :: 'e' :: rest => some (.bool false, rest)
    | '"' :: rest => do
      let (content, rest) ← readText rest.length rest
      match content with
      | some content => return (.text (String.ofList content), rest)
      | none => return (.unreadable, rest)
    | '-' :: rest => readUnsigned true rest
    | '[' :: rest =>
      match skipBlanks rest with
      | ']' :: rest => some (within levels (.list []), rest)
      | _ => do
        let (items, rest) ← readItems (readValue bound (levels - 1)) rest.length rest
        return (within levels (.list items), rest)
    | '\x7b' :: rest =>
      match skipBlanks rest with
      | '\x7d' :: rest => some (within levels (.object []), rest)
      | _ => do
        let (fields, rest) ← readFields (readValue bound (levels - 1)) rest.length rest
        return (within levels (ofFields fields), rest)
    | rest => readUnsigned false rest

/-- How many nested lists and objects are read. -/
def maxLevels : Nat := 127

/-- The value a whole text holds. -/
def parse? (source : String) : Option Json := do
  let characters := source.toList
  let (json, rest) ← readValue (characters.length + 1) maxLevels characters
  if (skipBlanks rest).isEmpty then some json else none

end DomainLang.Json
