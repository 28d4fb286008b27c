import ElasticCache.Text.Scan

/-!
# JSON texts

A reader and a writer for JSON. The reader takes one value with blanks around it, keeps the members
of an object in their order and with their repetitions, and refuses a text that is nested deeper
than 127 arrays and objects or holds a number beyond the range of binary64.
-/

namespace ElasticCache

/-- A number as it was written: `digits * 10 ^ scale` with a sign. -/
structure JsonNumber where
  negative : Bool
  digits : Nat
  scale : Int
  /-- Written without a fraction and without an exponent. -/
  whole : Bool
  deriving DecidableEq, Repr

/-- A JSON value. -/
inductive Json where
  | null
  | bool (value : Bool)
  | number (value : JsonNumber)
  | string (value : String)
  | array (items : List Json)
  | object (members : List (String × Json))
  deriving Inhabited

namespace JsonNumber

/-- The number of a natural number. -/
def ofNat (n : Nat) : JsonNumber := ⟨false, n, 0, true⟩

/-- The nearest binary64 value. -/
def toFloat (n : JsonNumber) : Float :=
  let magnitude :=
    if 0 ≤ n.scale then Float.ofScientific n.digits false n.scale.toNat
    else Float.ofScientific n.digits true (-n.scale).toNat
  if n.negative then -magnitude else magnitude

/-- Least integer that binary64 rounds to infinity. -/
def floatLimit : Nat := (1 <<< 1024) - (1 <<< 970)

/-- Whether the number is within the range of binary64. -/
def isFinite (n : JsonNumber) : Bool :=
  if n.digits = 0 then true
  else
    let magnitude : Int := (Nat.toDigits 10 n.digits).length + n.scale
    if 320 < magnitude then false
    else if magnitude < 300 then true
    else if 0 ≤ n.scale then n.digits * Nat.pow 10 n.scale.toNat < floatLimit
    else n.digits < floatLimit * Nat.pow 10 (-n.scale).toNat

end JsonNumber

namespace Json

/-- A natural number as a value. -/
def ofNat (n : Nat) : Json := .number (.ofNat n)

/-- The value of a 64-bit natural number written as such. -/
def nat? : Json → Option Nat
  | .number n => if n.whole ∧ n.negative = false ∧ n.digits < 1 <<< 64 then some n.digits else none
  | _ => none

/-- The text of a string value. -/
def string? : Json → Option String
  | .string s => some s
  | _ => none

/-- The first value of a member of the given name. -/
def member? (name : String) : Json → Option Json
  | .object members => (members.find? (·.1 == name)).map (·.2)
  | _ => none

/-! ## Writing -/

/-- A hexadecimal digit. -/
def hexDigit (n : Nat) : Char := Nat.digitChar n

/-- A character of a string between its quotes. -/
def escape (c : Char) : String :=
  if c = '"' then "\\\""
  else if c = '\\' then "\\\\"
  else if c.toNat < 32 then
    String.ofList ['\\', 'u', '0', '0', hexDigit (c.toNat / 16), hexDigit (c.toNat % 16)]
  else c.toString

/-- A string with its quotes. -/
def quote (s : String) : String := s.foldl (fun text c => text ++ escape c) "\"" ++ "\""

/-- A number in its plainest form. -/
def numberText (n : JsonNumber) : String :=
  let sign := if n.negative then "-" else ""
  if n.scale = 0 then sign ++ toString n.digits else s!"{sign}{n.digits}e{n.scale}"

mutual

/-- Appends a value to a text. -/
def write (text : String) : Json → String
  | .null => text ++ "null"
  | .bool b => text ++ if b then "true" else "false"
  | .number n => text ++ numberText n
  | .string s => text ++ quote s
  | .array items => writeItems (text.push '[') true items ++ "]"
  | .object members => writeMembers (text.push '\x7b') true members ++ "\x7d"

/-- Appends the items of an array, with commas between them. -/
def writeItems (text : String) (first : Bool) : List Json → String
  | [] => text
  | item :: rest => writeItems (write (if first then text else text.push ',') item) false rest

/-- Appends the members of an object, with commas between them. -/
def writeMembers (text : String) (first : Bool) : List (String × Json) → String
  | [] => text
  | (name, value) :: rest =>
    let text := if first then text else text.push ','
    writeMembers (write (text ++ quote name ++ ":") value) false rest

end

/-- The text of a value, without blanks. -/
def render (value : Json) : String := write "" value

/-! ## Reading -/

/-- The characters that may stand between tokens. -/
def isBlank (c : Char) : Bool := c = ' ' || c = '\t' || c = '\n' || c = '\r'

/-- The text after its leading blanks. -/
def skipBlank (text : List Char) : List Char := text.dropWhile isBlank

/-- Reads one or more decimal digits. -/
def scanDigits (text : List Char) : Option (List Char × List Char) :=
  let digits := text.takeWhile Char.isDigit
  if digits.isEmpty then none else some (digits, text.dropWhile Char.isDigit)

/-- Reads a fraction, which may be absent. -/
def scanFraction : List Char → Option (List Char × List Char)
  | '.' :: text => scanDigits text
  | text => some ([], text)

/-- Reads an exponent, which may be absent. -/
def scanExponent : List Char → Option (Option Int × List Char)
  | c :: text =>
    if c = 'e' ∨ c = 'E' then do
      let (negative, text) := match text with
        | '-' :: text => (true, text)
        | '+' :: text => (false, text)
        | text => (false, text)
      let (digits, text) ← scanDigits text
      let size : Int := decimalValue digits
      return (some (if negative then -size else size), text)
    else some (none, c :: text)
  | [] => some (none, [])

/-- Reads a number without leading zeros. -/
def scanNumber (text : List Char) : Option (JsonNumber × List Char) := do
  let (negative, text) := match text with
    | '-' :: text => (true, text)
    | text => (false, text)
  let (whole, text) ← scanDigits text
  if whole.length > 1 ∧ whole.head? = some '0' then none
  let (fraction, text) ← scanFraction text
  let (exponent, text) ← scanExponent text
  let number : JsonNumber := ⟨negative, decimalValue (whole ++ fraction),
    exponent.getD 0 - fraction.length, fraction.isEmpty && exponent.isNone⟩
  if number.isFinite then some (number, text) else none

/-- The value of a hexadecimal digit. -/
def hexValue? (c : Char) : Option Nat :=
  if c.isDigit then some (c.toNat - '0'.toNat)
  else if 'a' ≤ c ∧ c ≤ 'f' then some (c.toNat - 'a'.toNat + 10)
  else if 'A' ≤ c ∧ c ≤ 'F' then some (c.toNat - 'A'.toNat + 10)
  else none

/-- The code unit of four hexadecimal digits. -/
def codeUnit? (a b c d : Char) : Option Nat := do
  return ((← hexValue? a) * 16 + (← hexValue? b)) * 256 + (← hexValue? c) * 16 + (← hexValue? d)

/-- The character that a letter stands for behind a backslash. -/
def escaped? (c : Char) : Option Char :=
  if c = '"' ∨ c = '\\' ∨ c = '/' then some c
  else if c = 'b' then some '\x08'
  else if c = 'f' then some '\x0c'
  else if c = 'n' then some '\n'
  else if c = 'r' then some '\r'
  else if c = 't' then some '\t'
  else none

/-- Reads the rest of a string up to its closing quote, after the characters `seen` in reverse. -/
def scanString (seen : List Char) : List Char → Option (String × List Char)
  | [] => none
  | '"' :: text => some (String.ofList seen.reverse, text)
  | '\\' :: 'u' :: a :: b :: c :: d :: text =>
    match codeUnit? a b c d with
    | none => none
    | some unit =>
      if unit < 0xD800 ∨ 0xE000 ≤ unit then scanString (Char.ofNat unit :: seen) text
      else if 0xDC00 ≤ unit then none
      else
        match text with
        | '\\' :: 'u' :: a :: b :: c :: d :: text =>
          match codeUnit? a b c d with
          | none => none
          | some low =>
            if 0xDC00 ≤ low ∧ low < 0xE000 then
              scanString (Char.ofNat (0x10000 + (unit - 0xD800) * 0x400 + (low - 0xDC00)) :: seen)
                text
            else none
        | _ => none
  | '\\' :: c :: text =>
    match escaped? c with
    | none => none
    | some c => scanString (c :: seen) text
  | c :: text => if c = '\\' ∨ c.toNat < 32 then none else scanString (c :: seen) text

mutual

/-- Reads a value. Each step takes one from `fuel`, and each array or object one from `depth`. -/
def scanValue (fuel depth : Nat) (text : List Char) : Option (Json × List Char) :=
  match fuel, skipBlank text with
  | 0, _ => none
  | _, 'n' :: 'u' :: 'l' :: 'l' :: text => some (.null, text)
  | _, 't' :: 'r' :: 'u' :: 'e' :: text => some (.bool true, text)
  | _, 'f' :: 'a' :: 'l' :: 's' :: 'e' :: text => some (.bool false, text)
  | _, '"' :: text => (scanString [] text).map fun (s, text) => (.string s, text)
  | fuel + 1, '[' :: text =>
    if depth ≤ 1 then none
    else
      match skipBlank text with
      | ']' :: text => some (.array [], text)
      | text => (scanItems fuel (depth - 1) text).map fun (items, text) => (.array items, text)
  | fuel + 1, '\x7b' :: text =>
    if depth ≤ 1 then none
    else
      match skipBlank text with
      | '\x7d' :: text => some (.object [], text)
      | text =>
        (scanMembers fuel (depth - 1) text).map fun (members, text) => (.object members, text)
  | _, text => (scanNumber text).map fun (n, text) => (.number n, text)

/-- Reads one or more items and the closing bracket. -/
def scanItems (fuel depth : Nat) (text : List Char) : Option (List Json × List Char) :=
  match fuel with
  | 0 => none
  | fuel + 1 => do
    let (item, text) ← scanValue fuel depth text
    match skipBlank text with
    | ',' :: text => do
      let (items, text) ← scanItems fuel depth text
      return (item :: items, text)
    | ']' :: text => return ([item], text)
    | _ => none

/-- Reads one or more members and the closing brace. -/
def scanMembers (fuel depth : Nat) (text : List Char) : Option (List (String × Json) × List Char) :=
  match fuel with
  | 0 => none
  | fuel + 1 =>
    match skipBlank text with
    | '"' :: text => do
      let (name, text) ← scanString [] text
      match skipBlank text with
      | ':' :: text => do
        let (value, text) ← scanValue fuel depth text
        match skipBlank text with
        | ',' :: text => do
          let (members, text) ← scanMembers fuel depth text
          return ((name, value) :: members, text)
        | '\x7d' :: text => return ([(name, value)], text)
        | _ => none
      | _ => none
    | _ => none

end

/-- Arrays and objects may be nested this deep, less one. -/
def depthLimit : Nat := 128

/-- The value that a whole text stands for. -/
def parse? (text : String) : Option Json := do
  let text := text.toList
  let (value, rest) ← scanValue (2 * text.length + 2) depthLimit text
  if (skipBlank rest).isEmpty then some value else none

end Json

end ElasticCache
