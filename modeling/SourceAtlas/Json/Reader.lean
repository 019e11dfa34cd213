import SourceAtlas.Decimal.Reading
import SourceAtlas.Json.Value
import SourceAtlas.Text.Encoding

/-!
# Reading values

A number without point and exponent is whole, any other is a floating point
number; the words NaN, Infinity and -Infinity are read too. Of two fields
with one name the later value stays in the earlier place. Whole numbers have
a limit of digits, and lists and records a limit of depth.
-/

namespace SourceAtlas.Json

open SourceAtlas.Text (hexDigit? digitsToNat isHighHalf isLowHalf ofCodePoint)

/-- Why a text spells no value. -/
inductive Fault where
  | malformed
  | tooManyDigits (n : Nat)
  | tooDeep
  deriving DecidableEq

/-- Reading from the front of a text; a reader answers with a result and what follows it. -/
abbrev Reading := Except Fault

def malformed {α : Type} : Reading α := throw .malformed

def maxDigits : Nat := 4300

def maxDepth : Nat := 950

def skipBlanks (cs : List Char) : List Char :=
  cs.dropWhile fun c => c == ' ' || c == '\t' || c == '\n' || c == '\r'

/-- Four hexadecimal digits and what follows. -/
def readUnit : List Char → Reading (Nat × List Char)
  | a :: b :: c :: d :: rest =>
    if [a, b, c, d].all (hexDigit? · |>.isSome) then pure (digitsToNat 16 [a, b, c, d], rest)
    else malformed
  | _ => malformed

/-- One escaped character, after its backslash. -/
def readEscape : List Char → Reading (Char × List Char)
  | '"' :: r => pure ('"', r)
  | '\\' :: r => pure ('\\', r)
  | '/' :: r => pure ('/', r)
  | 'b' :: r => pure ('\x08', r)
  | 'f' :: r => pure ('\x0c', r)
  | 'n' :: r => pure ('\n', r)
  | 'r' :: r => pure ('\r', r)
  | 't' :: r => pure ('\t', r)
  | 'u' :: r => do
    let (high, rest) ← readUnit r
    match isHighHalf high, rest with
    | true, '\\' :: 'u' :: more =>
      let (low, after) ← readUnit more
      if isLowHalf low then
        pure (Char.ofNat (0x10000 + (high - 0xd800) * 0x400 + (low - 0xdc00)), after)
      else pure (ofCodePoint high, rest)
    | _, _ => pure (ofCodePoint high, rest)
  | _ => malformed

/-- The rest of a text, after its opening quote. -/
def readText : Nat → List Char → List Char → Reading (String × List Char)
  | 0, _, _ => malformed
  | _, _, [] => malformed
  | _, acc, '"' :: rest => pure (String.ofList acc.reverse, rest)
  | fuel + 1, acc, '\\' :: rest => do
    let (c, rest) ← readEscape rest
    readText fuel (c :: acc) rest
  | fuel + 1, acc, c :: rest => if c.toNat < 32 then malformed else readText fuel (c :: acc) rest

/-- A whole number of so many digits. -/
def wholeNumber (negative : Bool) (digits : List Char) : Reading Value :=
  if maxDigits < digits.length then throw (.tooManyDigits digits.length)
  else
    let n : Int := digitsToNat 10 digits
    pure (.int (if negative then -n else n))

/-- A number without its sign. -/
def readNumber (negative : Bool) (cs : List Char) : Reading (Value × List Char) := do
  let whole := cs.takeWhile Char.isDigit
  let rest := cs.dropWhile Char.isDigit
  let places := match rest with
    | '.' :: r => r.takeWhile Char.isDigit
    | _ => []
  let rest := if places.isEmpty then rest else rest.drop (places.length + 1)
  let exponent? : Option (Int × List Char) := match rest with
    | 'e' :: r | 'E' :: r =>
      let (minus, r) := match r with
        | '-' :: r => (true, r)
        | '+' :: r => (false, r)
        | r => (false, r)
      match r.takeWhile Char.isDigit with
      | [] => none
      | ds =>
        let e : Int := digitsToNat 10 ds
        some (if minus then -e else e, r.dropWhile Char.isDigit)
    | _ => none
  match whole with
  | [] => malformed
  | '0' :: _ :: _ => malformed
  | _ =>
    let decimal (e : Int) : Value :=
      .float (Decimal.ofDecimal negative (digitsToNat 10 (whole ++ places)) (e - places.length))
    match exponent?, places with
    | none, [] => pure (← wholeNumber negative whole, rest)
    | none, _ => pure (decimal 0, rest)
    | some (e, rest), _ => pure (decimal e, rest)

def dropWord (word : String) (cs : List Char) : Option (List Char) :=
  if word.toList.isPrefixOf cs then some (cs.drop word.length) else none

/-- The words that stand for values. -/
def words : List (String × Value) :=
  [("null", .null), ("true", .bool true), ("false", .bool false), ("NaN", .float (0.0 / 0.0)),
   ("Infinity", .float (1.0 / 0.0)), ("-Infinity", .float (-1.0 / 0.0))]

/-- A word or a number. -/
def readAtom (cs : List Char) : Reading (Value × List Char) :=
  match words.findSome? fun w => (dropWord w.1 cs).map fun r => (w.2, r) with
  | some found => pure found
  | none => match cs with
    | '-' :: r => readNumber true r
    | _ => readNumber false cs

mutual

/-- The value at the front. `fuel` bounds the number of characters read, `depth` how far
lists and records may be nested. -/
def readValue : (fuel depth : Nat) → List Char → Reading (Value × List Char)
  | 0, _, _ => malformed
  | fuel + 1, depth, cs =>
    match depth, cs with
    | _, '"' :: r => do
      let (s, r) ← readText (r.length + 1) [] r
      pure (.str s, r)
    | 0, '[' :: _ | 0, '\x7b' :: _ => throw .tooDeep
    | depth + 1, '[' :: r =>
      match skipBlanks r with
      | ']' :: r => pure (.list [], r)
      | r => do
        let (xs, r) ← readItems fuel depth [] r
        pure (.list xs, r)
    | depth + 1, '\x7b' :: r =>
      match skipBlanks r with
      | '\x7d' :: r => pure (.obj [], r)
      | r => do
        let (fs, r) ← readFields fuel depth [] r
        pure (.obj fs, r)
    | _, _ => readAtom cs

/-- The rest of a list, after its bracket. -/
def readItems : (fuel depth : Nat) → List Value → List Char → Reading (List Value × List Char)
  | 0, _, _, _ => malformed
  | fuel + 1, depth, acc, cs => do
    let (v, cs) ← readValue fuel depth (skipBlanks cs)
    match skipBlanks cs with
    | ',' :: cs => readItems fuel depth (v :: acc) cs
    | ']' :: cs => pure ((v :: acc).reverse, cs)
    | _ => malformed

/-- The rest of a record, after its brace or a comma. -/
def readFields : (fuel depth : Nat) → Record → List Char → Reading (Record × List Char)
  | 0, _, _, _ => malformed
  | fuel + 1, depth, acc, cs => do
    let '"' :: cs := skipBlanks cs | malformed
    let (name, cs) ← readText (cs.length + 1) [] cs
    let ':' :: cs := skipBlanks cs | malformed
    let (v, cs) ← readValue fuel depth (skipBlanks cs)
    let acc := Record.set acc name v
    match skipBlanks cs with
    | ',' :: cs => readFields fuel depth acc cs
    | '\x7d' :: cs => pure (acc, cs)
    | _ => malformed

end

/-- The value that a whole text spells. -/
def read (s : String) : Reading Value := do
  let cs := s.toList
  let (v, rest) ← readValue (cs.length + 1) maxDepth (skipBlanks cs)
  if (skipBlanks rest).isEmpty then pure v else malformed

end SourceAtlas.Json
