/-!
# Readers of texts

A reader takes a value from the front of a text and answers it with the rest, or fails.
-/

namespace ElasticCache

/-- A reader of the front of a text. -/
abbrev Scan := StateT (List Char) Option

namespace Scan

/-- Passes the characters of a class. -/
def skip (f : Char → Bool) : Scan Unit := modify fun text => text.dropWhile f

/-- Reads the characters of a class, as many as there are. -/
def span (f : Char → Bool) : Scan (List Char) := fun text =>
  some (text.takeWhile f, text.dropWhile f)

/-- Reads a character of a class. -/
def one (f : Char → Bool) : Scan Char := fun
  | c :: text => if f c then some (c, text) else none
  | [] => none

/-- Passes a given character. -/
def char (c : Char) : Scan Unit := discard (one (· == c))

/-- Reads one or more decimal digits, at most `most`. -/
def digits (most : Nat) : Scan (List Char) := fun text =>
  let found := (text.take most).takeWhile Char.isDigit
  if found.isEmpty then none else some (found, text.drop found.length)

/-- What a reader takes, if it can. Otherwise nothing is taken. -/
def attempt {α : Type} (scan : Scan α) : Scan (Option α) := fun text =>
  match scan text with
  | some (a, rest) => some (some a, rest)
  | none => some (none, text)

/-- The value of a whole text. -/
def whole? {α : Type} (scan : Scan α) (text : String) : Option α := do
  let (a, rest) ← scan.run text.toList
  if rest.isEmpty then some a else none

end Scan

/-- The number that decimal digits stand for. -/
def decimalValue (digits : List Char) : Nat :=
  digits.foldl (fun n c => 10 * n + (c.toNat - '0'.toNat)) 0

end ElasticCache
