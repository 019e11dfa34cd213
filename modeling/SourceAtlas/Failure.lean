import SourceAtlas.Json.Display

/-!
# Failures

What can go wrong, by cause. A failure of the program itself is of a kind,
belongs to a family, and has a message and named details; the others come from
values and services that it uses.
-/

namespace SourceAtlas

open Json (Value Record)

inductive Family where
  | configuration | parsing | graph | search | embedding | indexing
  deriving DecidableEq

def Family.name : Family → String
  | configuration => "ConfigurationError"
  | parsing => "ParsingError"
  | graph => "GraphError"
  | search => "SearchError"
  | embedding => "EmbeddingError"
  | indexing => "IndexingError"

def Family.all : List Family := [configuration, parsing, graph, search, embedding, indexing]

/-- Kinds of failures of the program itself. -/
inductive FailureKind where
  | missingSetting
  | unsupportedLanguage | unparsable
  | engineNotReady | graphWrite | snapshot
  | searchConnection | searchIndex | searchQuery | vectorStore
  | modelLoad | embedding
  | unknownRepository | unknownJob | forbiddenTransition | cancelled | git
  deriving DecidableEq

namespace FailureKind

def name : FailureKind → String
  | missingSetting => "MissingConfigError"
  | unsupportedLanguage => "UnsupportedLanguageError"
  | unparsable => "SyntaxParseError"
  | engineNotReady => "GraphNotInitializedError"
  | graphWrite => "GraphStoreError"
  | snapshot => "GraphSerializationError"
  | searchConnection => "SearchConnectionError"
  | searchIndex => "SearchIndexError"
  | searchQuery => "SearchQueryError"
  | vectorStore => "VectorStoreError"
  | modelLoad => "ModelLoadError"
  | embedding => "EmbeddingGenerationError"
  | unknownRepository => "RepositoryNotFoundError"
  | unknownJob => "JobNotFoundError"
  | forbiddenTransition => "InvalidJobTransitionError"
  | cancelled => "IndexingCancelledError"
  | git => "GitOperationError"

def all : List FailureKind :=
  [missingSetting, unsupportedLanguage, unparsable, engineNotReady, graphWrite, snapshot,
   searchConnection, searchIndex, searchQuery, vectorStore, modelLoad, embedding,
   unknownRepository, unknownJob, forbiddenTransition, cancelled, git]

def family : FailureKind → Family
  | missingSetting => .configuration
  | unsupportedLanguage | unparsable => .parsing
  | engineNotReady | graphWrite | snapshot => .graph
  | searchConnection | searchIndex | searchQuery | vectorStore => .search
  | modelLoad | embedding => .embedding
  | unknownRepository | unknownJob | forbiddenTransition | cancelled | git => .indexing

/-- The details of a failure. -/
def details : FailureKind → List String
  | missingSetting => ["config_key"]
  | unsupportedLanguage => ["language", "supported_languages"]
  | unparsable => ["file_path", "line"]
  | engineNotReady | graphWrite | vectorStore => ["operation"]
  | snapshot | git => ["operation", "path"]
  | searchConnection => ["url"]
  | searchIndex => ["index_name", "operation"]
  | searchQuery => ["query"]
  | modelLoad => ["model_name"]
  | embedding => ["text_length"]
  | unknownRepository => ["repo_id"]
  | unknownJob => ["job_id"]
  | forbiddenTransition => ["job_id", "current", "target"]
  | cancelled => ["repo_id", "processed"]

/-- Whether a failure can come from another one. -/
def hasCause : FailureKind → Bool
  | unparsable | graphWrite | snapshot | searchConnection | searchIndex | searchQuery
  | vectorStore | modelLoad | embedding | git => true
  | _ => false

/-- The words of a failure with these details. -/
def message (kind : FailureKind) (details : Record) : String :=
  let given (name : String) : String := Json.plain (Record.get details name)
  let operation := given "operation"
  match kind with
  | missingSetting => "Missing required configuration: " ++ given "config_key"
  | unsupportedLanguage => "Language '" ++ given "language" ++ "' is not supported"
  | unparsable =>
    "Failed to parse " ++ given "file_path" ++
      if (Record.get details "line").truthy then " at line " ++ given "line" else ""
  | engineNotReady => s!"Graph engine is uninitialized; call init() before {operation}"
  | graphWrite => s!"Graph store operation '{operation}' failed"
  | snapshot => s!"Graph {operation} failed for " ++ given "path"
  | searchConnection => "Failed to connect to search engine at " ++ given "url"
  | searchIndex => s!"Index operation '{operation}' failed on '" ++ given "index_name" ++ "'"
  | searchQuery => "Search query execution failed"
  | vectorStore => s!"Vector store operation '{operation}' failed"
  | modelLoad => "Failed to load model: " ++ given "model_name"
  | embedding => "Failed to generate embedding"
  | unknownRepository => "Repository " ++ given "repo_id" ++ " not found"
  | unknownJob => "Index job " ++ given "job_id" ++ " not found"
  | forbiddenTransition =>
    "Job " ++ given "job_id" ++ " cannot move from '" ++ given "current" ++ "' to '" ++
      given "target" ++ "'"
  | cancelled =>
    "Indexing of " ++ given "repo_id" ++ " cancelled after " ++ given "processed" ++ " files"
  | git => s!"Git {operation} failed for " ++ given "path"

end FailureKind

/-- Causes that are reported by their kind alone. -/
inductive Mishap where
  | missingAttribute | divisionByZero | overflow | indexOutOfRange | tooDeep
  | truncatedFile | malformedJson | notCompressed | corruptStream | badEncoding
  | isDirectory | notDirectory | fileExists | nameTooLong
  | httpStatus | connection | timeout | gitCommand | unreadableSetting
  deriving DecidableEq

def Mishap.name : Mishap → String
  | missingAttribute => "AttributeError"
  | divisionByZero => "ZeroDivisionError"
  | overflow => "OverflowError"
  | indexOutOfRange => "IndexError"
  | tooDeep => "RecursionError"
  | truncatedFile => "EOFError"
  | malformedJson => "JSONDecodeError"
  | notCompressed => "BadGzipFile"
  | corruptStream => "error"
  | badEncoding => "UnicodeDecodeError"
  | isDirectory => "IsADirectoryError"
  | notDirectory => "NotADirectoryError"
  | fileExists => "FileExistsError"
  | nameTooLong => "OSError"
  | httpStatus => "HTTPStatusError"
  | connection => "ConnectError"
  | timeout => "ReadTimeout"
  | gitCommand => "GitCommandError"
  | unreadableSetting => "SettingsError"

inductive Failure where
  /-- A failure in words of its own, of a family or of none. -/
  | general (family : Option Family) (message details : Value) (cause : Option Failure)
  | report (kind : FailureKind) (details : Record) (cause : Option Failure)
  /-- A value outside of its domain. -/
  | badValue (message : String)
  | missingKey (key : Value)
  /-- A value of a type that is of no use, in words that may be empty. -/
  | wrongType (reason : String)
  /-- A part that is out of order, or a condition that never holds in service. -/
  | outage (reason : Value)
  /-- Settings that do not satisfy their constraints: where and how. -/
  | badSettings (errors : List (List String × String))
  | fileMissing (path : String)
  /-- A request that the search service turned down. -/
  | rejected (message : String)
  | mishap (kind : Mishap)
  deriving Inhabited

namespace Failure

def missingSetting (key : Value) : Failure := .report .missingSetting [("config_key", key)] none

def unsupportedLanguage (language : String) (supported : List String) : Failure :=
  .report .unsupportedLanguage
    [("language", language), ("supported_languages", Value.texts supported)] none

def unparsable (path : String) (line : Int) : Failure :=
  .report .unparsable [("file_path", path), ("line", .int line)] none

def engineNotReady (operation : String) : Failure :=
  .report .engineNotReady [("operation", operation)] none

def graphWrite (operation : String) (cause : Failure) : Failure :=
  .report .graphWrite [("operation", operation)] cause

def snapshot (operation path : String) (cause : Failure) : Failure :=
  .report .snapshot [("operation", operation), ("path", path)] cause

def searchIndex (index : Value) (operation : String) (cause : Failure) : Failure :=
  .report .searchIndex [("index_name", index), ("operation", operation)] cause

def searchQuery (query : Value) (cause : Failure) : Failure :=
  .report .searchQuery [("query", query)] cause

def vectorStore (operation : String) (cause : Failure) : Failure :=
  .report .vectorStore [("operation", operation)] cause

def modelLoad (model : String) (cause : Failure) : Failure :=
  .report .modelLoad [("model_name", model)] cause

def embedding (length : Nat) (cause : Failure) : Failure :=
  .report .embedding [("text_length", .int length)] cause

def unknownRepository (id : Value) : Failure := .report .unknownRepository [("repo_id", id)] none

def unknownJob (id : Value) : Failure := .report .unknownJob [("job_id", id)] none

def forbiddenTransition (job : Value) (current target : String) : Failure :=
  .report .forbiddenTransition [("job_id", job), ("current", current), ("target", target)] none

def cancelled (repo : Value) (processed : Nat) : Failure :=
  .report .cancelled [("repo_id", repo), ("processed", .int processed)] none

def git (operation path : String) (cause : Failure) : Failure :=
  .report .git [("operation", operation), ("path", path)] cause

/-- The words of a failure of the program itself. -/
def message? : Failure → Option Value
  | general _ message _ _ => message
  | report kind details _ => some (kind.message details)
  | _ => none

/-- The text of any failure, as a job or a file report quotes it. -/
def text : Failure → String
  | general _ message _ _ => Json.plain message
  | report kind details _ => kind.message details
  | badValue message | wrongType message | rejected message => message
  | outage reason => Json.plain reason
  | missingKey key => Json.shown key
  | fileMissing path => s!"[Errno 2] No such file or directory: {Json.quoted path}"
  | mishap .divisionByZero => "integer modulo by zero"
  | badSettings _ | mishap _ => ""

/-- The name of what a failure is. -/
def name : Failure → String
  | general none .. => "CodeGraphError"
  | general (some family) .. => family.name
  | report kind .. => kind.name
  | badValue _ => "ValueError"
  | wrongType _ => "TypeError"
  | missingKey _ => "KeyError"
  | outage _ => "RuntimeError"
  | badSettings _ => "ValidationError"
  | fileMissing _ => "FileNotFoundError"
  | rejected _ => "MeilisearchApiError"
  | mishap kind => kind.name

def family? : Failure → Option Family
  | general family .. => family
  | report kind .. => some kind.family
  | _ => none

def cause? : Failure → Option Failure
  | general _ _ _ cause | report _ _ cause => cause
  | _ => none

def details : Failure → Value
  | general _ _ details _ => details
  | report _ details _ => .obj details
  | _ => .null

/-- What a failure of the program itself belongs to, the narrowest first. -/
def kinds (f : Failure) : List String :=
  let wider := (f.family?.map Family.name).toList ++ ["CodeGraphError"]
  f.name :: wider.filter (· != f.name)

/-- A failure of the program itself as a record. -/
def toRecord (f : Failure) : Record :=
  [("error", .str f.name), ("message", f.message?.getD f.text)] ++
  if f.details.truthy then [("details", f.details)] else []

/-- A failure as an answer: what it is, with its words if they are its own or plain ones. -/
def toAnswer (f : Failure) : Record :=
  match f with
  | general .. | report .. =>
    f.toRecord ++ (f.cause?.map fun c => ("cause", (c.name : Value))).toList
  | badValue _ | missingKey _ | outage _ => f.toRecord
  | badSettings errors =>
    [("error", f.name), ("errors", .list (errors.map fun e => .list [Value.texts e.1, .str e.2]))]
  | wrongType _ | fileMissing _ | rejected _ | mishap _ => [("error", f.name)]

end Failure

/-- A computation that may fail. -/
abbrev Outcome (α : Type) := Except Failure α

/-- A computation on a state that may fail; the state reached stays. -/
abbrev Act (σ α : Type) := ExceptT Failure (StateM σ) α

namespace Act

variable {σ τ α : Type}

def ofOutcome (x : Outcome α) : Act σ α := ExceptT.mk (pure x)

/-- Runs an action and hands its outcome on as a value. -/
def attempt (x : Act σ α) : Act σ (Outcome α) := ExceptT.lift x.run

/-- Runs an action on one part of a larger state. -/
def within (get : τ → σ) (set : τ → σ → τ) (x : Act σ α) : Act τ α :=
  ExceptT.mk fun t => let (r, s) := x.run (get t); (r, set t s)

end Act

/-- The member of an enumeration that a dynamic value names. -/
def named (label : String) (all : List α) (name : α → String) (v : Value) : Outcome α :=
  match all.find? fun a => v.isText (name a) with
  | some a => pure a
  | none => throw (.badValue (Json.shown v ++ " is not a valid " ++ label))

end SourceAtlas
