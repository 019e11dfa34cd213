import SourceAtlas.Failure
import SourceAtlas.Json.Reader

/-!
# Values from bytes
-/

namespace SourceAtlas.Json

def Fault.toFailure : Fault → Failure
  | .malformed => .mishap .malformedJson
  | .tooManyDigits n =>
    .badValue ("Exceeds the limit (" ++ toString maxDigits ++ " digits) for integer string " ++
      "conversion: value has " ++ toString n ++
      " digits; use sys.set_int_max_str_digits() to increase the limit")
  | .tooDeep => .mishap .tooDeep

/-- The value that a text spells. -/
def parse (text : String) : Outcome Value := (read text).mapError Fault.toFailure

/-- The value that bytes spell in an encoding. -/
def decode (e : Text.Encoding) (bytes : List UInt8) : Outcome Value :=
  match e.decode? bytes with
  | some text => parse text
  | none => throw (.mishap .badEncoding)

end SourceAtlas.Json
