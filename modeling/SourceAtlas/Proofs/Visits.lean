import SourceAtlas.Proofs.Declarations

/-!
# Visits of the languages

A symbol has the lines of the node that declares it or of the parent of that node. Its
name is joined to the scope that the node lies in, unless the node itself says whose it
is: a method in Go does so with its receiver, and a function in C++ with its name.
-/

namespace SourceAtlas

open Syntax (Source Cursor)

namespace Extract

variable {language : Language} {src : Source} {c : Cursor} {owner scope : Scope} {s : Symbol}

/-! ## Owners -/

theorem qualify_some {owner : String} (h : owner ≠ "") (name : String) :
    qualify (some owner) name = owner ++ "." ++ name := by
  rw [qualify, if_neg (by simpa using h)]

def Go.ownerOf (src : Source) (c : Cursor) (scope : Scope) : Scope :=
  if c.kind = "method_declaration" then
    match receiverType src c with
    | some r => if r == "" then scope else some (qualify scope r)
    | none => scope
  else scope

def Cpp.definedParts (src : Source) (c : Cursor) : List String :=
  nameParts (nameOr "anonymous" (C.declaredName src (C.functionDeclarator c)))

def Cpp.namedOwner (src : Source) (c : Cursor) : String :=
  joinDots ((definedParts src c).dropLast.filter (· != ""))

def Cpp.ownerOf (src : Source) (c : Cursor) (scope : Scope) : Scope :=
  if c.kind = "function_definition" then
    if namedOwner src c == "" then scope else some (qualify scope (namedOwner src c))
  else scope

def ownerOf (language : Language) (src : Source) (c : Cursor) (scope : Scope) : Scope :=
  match language with
  | .go => Go.ownerOf src c scope
  | .cpp => Cpp.ownerOf src c scope
  | _ => scope

/-! ## Declared symbols -/

/-- Whether a node may declare a symbol in a scope: the lines are its own or its parent's. -/
structure Declares (src : Source) (c : Cursor) (owner : Scope) (s : Symbol) : Prop where
  place : ∃ place, (place = c ∨ c.parent? = some place) ∧ s.location = place.lines src
  named : s.qualifiedName = qualify owner s.name

theorem Declares.here (hlines : s.location = c.lines src) (hnamed : s.qualifiedName = qualify owner s.name) :
    Declares src c owner s :=
  ⟨⟨c, .inl rfl, hlines⟩, hnamed⟩

def Visit.DeclaredBy (src : Source) (c : Cursor) (owner : Scope) (v : Visit) : Prop :=
  ∀ s ∈ v.symbols, Declares src c owner s

theorem Visit.DeclaredBy.nothing (opened : Scope) : Visit.DeclaredBy src c owner ⟨[], opened⟩ := by
  intro s hs
  cases hs

theorem Visit.DeclaredBy.declare (h : Declares src c owner s) : Visit.DeclaredBy src c owner (.declare s) := by
  intro s' hs'
  obtain rfl := List.mem_singleton.1 hs'
  exact h

/-- Some languages take the place of the parent if it is of a kind. -/
theorem place_eq (c : Cursor) (kinds : Cursor → Prop) [DecidablePred kinds] :
    let place := match c.parent? with
      | some p => if kinds p then p else c
      | none => c
    place = c ∨ c.parent? = some place := by
  cases c.parent? with
  | none => exact .inl rfl
  | some p =>
    by_cases hp : kinds p
    · simp [hp]
    · simp [hp]

/-! ## Languages -/

theorem EcmaScript.declaredBy (scope : Scope) : Visit.DeclaredBy src c scope (visit src c scope) := by
  unfold visit functionVariable
  split <;> try exact .declare (.here rfl rfl)
  · split
    · split
      · exact .declare (.here rfl rfl)
      · exact .nothing none
    · exact .nothing none
  · exact .nothing none

theorem Python.declaredBy (scope : Scope) : Visit.DeclaredBy src c scope (visit src c scope) := by
  unfold visit
  split
  · exact .declare (.here rfl rfl)
  · exact .declare (.here rfl rfl)
  · split
    · split
      · exact .declare (.here rfl rfl)
      · exact .nothing none
    · exact .nothing none
  · exact .nothing none

theorem Go.declares_at_anchor (hlines : s.location = (anchor c).lines src)
    (hnamed : s.qualifiedName = qualify owner s.name) :
    Declares src c owner s :=
  ⟨⟨anchor c, place_eq c _, hlines⟩, hnamed⟩

theorem Go.declaredBy (scope : Scope) : Visit.DeclaredBy src c (ownerOf src c scope) (visit src c scope) := by
  have hnames : ∀ (names : List Cursor) (doc : Option String), Visit.DeclaredBy src c scope
      ⟨names.map fun n => declare src (anchor c) scope (n.text src) .variable none doc, none⟩ := by
    intro names doc s hs
    obtain ⟨n, -, rfl⟩ := List.mem_map.1 hs
    exact declares_at_anchor rfl rfl
  by_cases hmethod : c.kind = "method_declaration"
  · rw [visit, hmethod, ownerOf, if_pos hmethod]
    exact .declare (.here rfl rfl)
  rw [ownerOf, if_neg hmethod]
  unfold visit
  split
  · exact .declare (.here rfl rfl)
  · contradiction
  · exact .declare (declares_at_anchor rfl rfl)
  · exact .declare (declares_at_anchor rfl rfl)
  · exact hnames _ _
  · exact hnames _ _
  · exact .nothing none

theorem C.declaredBy_declaration (scope : Scope) : Visit.DeclaredBy src c scope (declaration src c scope) := by
  unfold declaration
  dsimp only
  split
  · exact .nothing none
  · exact .declare (.here rfl rfl)

theorem C.declaredBy_aggregate (visibility : Cursor → Visibility) (scope : Scope) :
    Visit.DeclaredBy src c scope (aggregate src visibility c scope) := by
  unfold aggregate
  split
  · exact .nothing none
  · exact .declare ⟨⟨_, place_eq c _, rfl⟩, rfl⟩

theorem C.declaredBy (scope : Scope) : Visit.DeclaredBy src c scope (visit src c scope) := by
  unfold visit
  split
  · exact .declare (.here rfl rfl)
  · exact declaredBy_declaration scope
  · exact declaredBy_aggregate _ scope
  · exact declaredBy_aggregate _ scope
  · exact declaredBy_aggregate _ scope
  · exact .nothing none

theorem Cpp.declaredBy_callable (owner : Scope) (declarator : Option Cursor) (name shown : String)
    (kind : SymbolKind) :
    Visit.DeclaredBy src c owner (callable src c owner declarator name shown kind) :=
  .declare (.here rfl rfl)

theorem Cpp.declaredBy (scope : Scope) : Visit.DeclaredBy src c (ownerOf src c scope) (visit src c scope) := by
  by_cases hdefinition : c.kind = "function_definition"
  · rw [visit, hdefinition, ownerOf, if_pos hdefinition, namedOwner, definedParts]
    exact declaredBy_callable _ _ _ _ _
  rw [ownerOf, if_neg hdefinition]
  unfold visit
  split
  · contradiction
  · exact C.declaredBy_declaration scope
  · unfold methodDeclaration
    dsimp only
    split
    · exact .nothing none
    · exact declaredBy_callable _ _ _ _ _
  · exact C.declaredBy_aggregate _ scope
  · exact C.declaredBy_aggregate _ scope
  · exact C.declaredBy_aggregate _ scope
  · exact C.declaredBy_aggregate _ scope
  · split
    · exact .nothing none
    · exact .nothing _
  · exact .nothing none

theorem CSharp.declaredBy (scope : Scope) : Visit.DeclaredBy src c scope (visit src c scope) := by
  unfold visit
  dsimp only
  split <;> try exact .declare (.here rfl rfl)
  · split
    · exact .nothing none
    · exact .nothing _
  · split
    · exact .nothing none
    · exact .nothing _
  · exact .nothing none

theorem declaredBy_of_visitor? {visit : Visitor} (h : visitor? language src = some visit)
    (c : Cursor) (scope : Scope) :
    Visit.DeclaredBy src c (ownerOf language src c scope) (visit c scope) := by
  cases language <;> cases h
  · exact EcmaScript.declaredBy scope
  · exact EcmaScript.declaredBy scope
  · exact EcmaScript.declaredBy scope
  · exact Python.declaredBy scope
  · exact Go.declaredBy scope
  · exact C.declaredBy scope
  · exact Cpp.declaredBy scope
  · exact CSharp.declaredBy scope

theorem declares_of_mem_declaredAt {visit : Visitor} (h : visitor? language src = some visit)
    (hs : s ∈ declaredAt visit c) :
    Declares src c (ownerOf language src c (scopeOf visit c)) s :=
  declaredBy_of_visitor? h c _ s hs

end Extract

end SourceAtlas
