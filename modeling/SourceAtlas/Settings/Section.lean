import SourceAtlas.Json.Reader
import SourceAtlas.Settings.Field
import SourceAtlas.Text.Case

/-!
# Sections of settings

The fields of a section come from environment variables that start with its
name, or from one variable of its name that spells them as a record. What is
spelled as a record counts more, and must have no unknown fields. Names are
read in any case.
-/

namespace SourceAtlas.Settings

open Json (Value Record)

/-- Variables by their names in lower case. -/
abbrev Environment := List (String × String)

namespace Environment

def ofVariables (vars : List (String × String)) : Environment :=
  vars.map fun v => (Text.lower v.1, v.2)

/-- The last variable of a name counts. -/
def get? (env : Environment) (name : String) : Option String :=
  (env.reverse.find? (·.1 == name)).map (·.2)

end Environment

/-- Where something is wrong, and of what kind it is. -/
abbrev Fault := List String × String

namespace Fault

def before (a b : Fault) : Bool := a.1 < b.1 || a.1 == b.1 && a.2 ≤ b.2

def toFailure (faults : List Fault) : Failure := .badSettings (faults.mergeSort before)

end Fault

structure Section where
  name : String
  environment : Environment
  /-- The value that the variable of the section's name spells, if there is one. -/
  spelled : Option Value

namespace Section

def ofEnvironment (env : Environment) (name : String) : Outcome Section :=
  match (env.get? name).map Json.read with
  | none | some (.ok .null) => pure ⟨name, env, none⟩
  | some (.ok v) => pure ⟨name, env, some v⟩
  | some (.error .tooDeep) => throw (.mishap .tooDeep)
  | some (.error _) => throw (.mishap .unreadableSetting)

/-- The fields that are spelled as a record. -/
def fields (s : Section) : Record :=
  match s.spelled with
  | some (.obj r) => r
  | _ => []

/-- The value that a field is given. -/
def get? (s : Section) (field : String) : Option Value :=
  ((s.fields.reverse.find? fun f => Text.lower f.1 == field).map (·.2)) <|>
    (s.environment.get? (s.name ++ "_" ++ field)).map .str

end Section

/-- The fields that were read from a section and what was wrong with them. -/
structure FieldLog where
  known : List String := []
  faults : List Fault := []

/-- Reads the fields of a section. -/
abbrev FieldReader := ReaderT Section (StateM FieldLog)

def readField {α : Type} (name : String) (default : α) (parse : Value → Field.Parsed α) :
    FieldReader α := do
  modify fun f => { f with known := f.known ++ [name] }
  match (← read).get? name with
  | none => pure default
  | some v =>
    match parse v with
    | .ok a => pure a
    | .error kind => do
      modify fun f => { f with faults := f.faults ++ [([name], kind)] }
      pure default

namespace Section

/-- What is wrong with a section. Whether its fields fit together, as `holds` says, counts only
if there is nothing wrong with each of them. -/
def faults (s : Section) (log : FieldLog) (holds : Bool) : List Fault :=
  match s.spelled with
  | some (.obj r) =>
    let unknown := (r.filter fun f => !log.known.contains (Text.lower f.1)).map fun f =>
      ([f.1], "extra_forbidden")
    check (log.faults ++ unknown)
  | some _ => [([], "model_type")]
  | none => check log.faults
where
  /-- Adds the fault of fields that do not fit together. -/
  check (faults : List Fault) : List Fault :=
    if faults.isEmpty && !holds then [([], "value_error")] else faults

/-- Reads sections one after another. The faults of one that is spelled are kept until the
end; any other fails at once. -/
abbrev Reader := StateT (List Fault) Outcome

def readAs {α : Type} (s : Section) (fields : FieldReader α) (holds : α → Bool) : Reader α := do
  let (a, log) := (fields.run s).run {}
  let faults := s.faults log (holds a)
  if s.spelled.isSome then modify (· ++ faults.map fun f => (s.name :: f.1, f.2))
  else if !faults.isEmpty then throw (Fault.toFailure faults)
  pure a

def Reader.finish {α : Type} (x : Reader α) : Outcome α := do
  let (a, faults) ← x.run []
  if faults.isEmpty then pure a else throw (Fault.toFailure faults)

end Section

end SourceAtlas.Settings
