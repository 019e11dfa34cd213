/-!
# Dynamic values

Documents, payloads and snapshots hold values whose shape is not fixed in
advance. Whole numbers and floating point numbers stay apart, and a record
keeps its fields in the order in which they were added.
-/

namespace SourceAtlas.Json

inductive Value where
  | null
  | bool (b : Bool)
  | int (n : Int)
  | float (x : Float)
  | str (s : String)
  | list (items : List Value)
  | obj (fields : List (String × Value))
  deriving Inhabited

/-- Named values, each name at most once. -/
abbrev Record := List (String × Value)

namespace Record

def get? (r : Record) (name : String) : Option Value := (r.find? (·.1 == name)).map (·.2)

/-- The value of a field, null when there is none. -/
def get (r : Record) (name : String) : Value := (get? r name).getD .null

/-- Replaces the field in its place, or adds it at the end. -/
def set (r : Record) (name : String) (v : Value) : Record :=
  if r.any (·.1 == name) then r.map fun f => if f.1 == name then (name, v) else f
  else r ++ [(name, v)]

/-- The fields of `r` followed and overridden by those of `s`. -/
def extend (r s : Record) : Record := s.foldl (fun acc f => set acc f.1 f.2) r

end Record

namespace Value

instance : Coe String Value := ⟨.str⟩

/-- What a value is called that is of the wrong type. -/
def typeName : Value → String
  | .null => "NoneType"
  | .bool _ => "bool"
  | .int _ => "int"
  | .float _ => "float"
  | .str _ => "str"
  | .list _ => "list"
  | .obj _ => "dict"

/-- Neither null, false, zero nor empty. -/
def truthy : Value → Bool
  | .null => false
  | .bool b => b
  | .int n => n != 0
  | .float x => x != 0
  | .str s => s != ""
  | .list xs => !xs.isEmpty
  | .obj fs => !fs.isEmpty

/-- Whether the value is this text. -/
def isText (v : Value) (s : String) : Bool :=
  match v with
  | .str t => t == s
  | _ => false

def text? : Value → Option String
  | .str s => some s
  | _ => none

def ofOption (f : α → Value) : Option α → Value
  | some a => f a
  | none => .null

def ofText? (s : Option String) : Value := ofOption .str s

def texts (ss : List String) : Value := .list (ss.map .str)

end Value

end SourceAtlas.Json
