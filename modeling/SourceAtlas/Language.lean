import SourceAtlas.Text.Case
import SourceAtlas.Text.Path

/-!
# Languages

A file's language is read off its extension.
-/

namespace SourceAtlas

inductive Language where
  | typescript | tsx | javascript | python | go | c | cpp | csharp | markdown
  deriving DecidableEq

namespace Language

def name : Language → String
  | typescript => "typescript"
  | tsx => "tsx"
  | javascript => "javascript"
  | python => "python"
  | go => "go"
  | c => "c"
  | cpp => "cpp"
  | csharp => "csharp"
  | markdown => "markdown"

def all : List Language := [typescript, tsx, javascript, python, go, c, cpp, csharp, markdown]

/-- The languages whose declarations are extracted; documents are cut into sections instead. -/
def code : List Language := [typescript, tsx, javascript, python, go, c, cpp, csharp]

def isEcmaScript (l : Language) : Bool := [typescript, tsx, javascript].contains l

def ofExtension? (ext : String) : Option Language :=
  match Text.lower (String.ofList (ext.toList.dropWhile (· == '.'))) with
  | "ts" | "mts" | "cts" => some typescript
  | "tsx" | "jsx" => some tsx
  | "js" | "mjs" | "cjs" => some javascript
  | "py" | "pyw" => some python
  | "go" => some go
  | "c" | "h" => some c
  | "cpp" | "cc" | "cxx" | "hpp" | "hxx" => some cpp
  | "cs" => some csharp
  | "md" | "mdx" | "mdc" => some markdown
  | _ => none

def ofPath? (path : String) : Option Language := ofExtension? (Text.Path.ofString path).suffix

end Language

end SourceAtlas
