import SourceAtlas.Extract.CSharp
import SourceAtlas.Extract.Cpp
import SourceAtlas.Extract.EcmaScript
import SourceAtlas.Extract.Go
import SourceAtlas.Extract.Python
import SourceAtlas.Language

/-!
# Symbols of a source file
-/

namespace SourceAtlas

open Syntax (Source Cursor Tree)

/-- The symbols that a file declares, in pre-order of their declarations. -/
def symbolsOf (language : Language) (src : Source) (tree : Tree) : Outcome (List Symbol) :=
  let root := Cursor.root tree
  match language with
  | .typescript | .tsx | .javascript => pure (Extract.walk (Extract.EcmaScript.visit src) root)
  | .python => pure (Extract.walk (Extract.Python.visit src) root)
  | .go => pure (Extract.walk (Extract.Go.visit src) root)
  | .c => pure (Extract.walk (Extract.C.visit src) root)
  | .cpp => pure (Extract.Cpp.symbols src root)
  | .csharp => pure (Extract.walk (Extract.CSharp.visit src) root)
  | .markdown => throw (.unsupportedLanguage language.name (Language.code.map Language.name))

end SourceAtlas
