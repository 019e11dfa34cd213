import SourceAtlas.Json.Access
import SourceAtlas.Settings.Numeral
import SourceAtlas.Text.Path

/-!
# Fields of settings

A field is read from a text or from another value. Numbers and flags may be
given as texts, and as each other where nothing is lost.
-/

namespace SourceAtlas.Settings.Field

open Json (Value)
open Decimal (Extended)

/-- A value, or the kind of its fault. -/
abbrev Parsed (α : Type) := Except String α

def text : Value → Parsed String
  | .str s => pure s
  | _ => throw "string_type"

def text? : Value → Parsed (Option String)
  | .null => pure none
  | v => some <$> text v

def choice (options : List String) (v : Value) : Parsed String :=
  match options.find? v.isText with
  | some s => pure s
  | none => throw "literal_error"

def path : Value → Parsed String
  | .str s => pure (Text.normalPath s)
  | _ => throw "path_type"

/-- Whether a whole number has a place in 64 bits. -/
def isShort (n : Int) : Bool := (Int64.ofInt n).toInt == n

def flagOf (n : Int) : Parsed Bool :=
  if !isShort n then throw "bool_type"
  else if n = 0 then pure false
  else if n = 1 then pure true
  else throw "bool_parsing"

def flag : Value → Parsed Bool
  | .bool b => pure b
  | .str s =>
    let t := String.ofList (s.toList.map Char.toLower)
    if ["1", "on", "t", "true", "y", "yes"].contains t then pure true
    else if ["0", "off", "f", "false", "n", "no"].contains t then pure false
    else throw "bool_parsing"
  | .int n => flagOf n
  | .float x =>
    match Extended.ofFloat x with
    | .exact q => if q.den = 1 then flagOf q.num else throw "bool_type"
    | _ => throw "bool_type"
  | _ => throw "bool_type"

/-- The most characters of a numeral. -/
def maxLength : Nat := 4300

def whole : Value → Parsed Int
  | .int n => pure n
  | .bool b => pure (if b then 1 else 0)
  | .str s =>
    if maxLength < s.length then throw "int_parsing_size"
    else match Numeral.whole? s with
      | some n => pure n
      | none => throw "int_parsing"
  | .float x =>
    match Extended.ofFloat x with
    | .exact q =>
      if q.den != 1 then throw "int_from_float"
      else if isShort q.num then pure q.num
      else throw "int_parsing_size"
    | _ => throw "finite_number"
  | _ => throw "int_type"

def real : Value → Parsed Float
  | .float x => pure x
  | .int n =>
    match floatOf n with
    | .ok x => pure x
    | .error _ => throw "float_type"
  | .bool b => pure (if b then 1.0 else 0.0)
  | .str s =>
    match Numeral.real? s with
    | some x => pure x
    | none => throw "float_parsing"
  | _ => throw "float_type"

def atLeast (low : Int) (n : Int) : Parsed Int :=
  if n < low then throw "greater_than_equal" else pure n

def between (low high : Int) (n : Int) : Parsed Int :=
  if high < n then throw "less_than_equal" else atLeast low n

def aboveZero (x : Float) : Parsed Float := if 0.0 < x then pure x else throw "greater_than"

def fromZero (x : Float) : Parsed Float :=
  if 0.0 ≤ x then pure x else throw "greater_than_equal"

end SourceAtlas.Settings.Field
