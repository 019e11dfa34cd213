import Mathlib.Logic.Function.Iterate
import SourceAtlas.Extract
import SourceAtlas.Proofs.Nodes

/-!
# The extraction walk as a recursion

The walk keeps a stack of subtrees, each with the scope that it lies in. It
ends once each node was on top, and what it finds is what a recursion over the
tree finds: the symbols of a node, and then those of its children, under the
scope that the node opens or else under its own.
-/

namespace SourceAtlas

open Syntax (Source Cursor Tree Frame)

namespace Extract

variable {visit : Visitor} {c d : Cursor}

/-! ## Scopes -/

def scopeAlong (visit : Visitor) : List Frame → Scope
  | [] => none
  | f :: path => (visit ⟨f.parent, path⟩ (scopeAlong visit path)).scope <|> scopeAlong visit path

def scopeOf (visit : Visitor) (c : Cursor) : Scope := scopeAlong visit c.path

theorem scopeOf_of_mem_children (h : d ∈ c.children) :
    scopeOf visit d = ((visit c (scopeOf visit c)).scope <|> scopeOf visit c) := by
  obtain ⟨-, passed, hpath⟩ := Cursor.of_mem_children h
  rw [scopeOf, hpath]
  rfl

/-- A node lies in the scope that the nearest of its ancestors opens, if any does. -/
theorem scopeOf_eq_findSome? (visit : Visitor) (c : Cursor) :
    scopeOf visit c = c.ancestors.findSome? fun a => (visit a (scopeOf visit a)).scope := by
  have hgo : ∀ path : List Frame,
      scopeAlong visit path = (Cursor.ancestors.go path).findSome? fun a => (visit a (scopeOf visit a)).scope := by
    intro path
    induction path with
    | nil => rfl
    | cons f path ih =>
      rw [scopeAlong, Cursor.ancestors.go, List.findSome?_cons, ← ih, scopeOf]
      cases (visit ⟨f.parent, path⟩ (scopeAlong visit path)).scope <;> rfl
  exact hgo c.path

def declaredAt (visit : Visitor) (c : Cursor) : List Symbol := (visit c (scopeOf visit c)).symbols

/-! ## The recursion -/

/-- The symbols of a node in a scope, and then those of its children in order. -/
def declared (visit : Visitor) (c : Cursor) (scope : Scope) : List Symbol :=
  let v := visit c scope
  v.symbols ++ c.children.attach.flatMap fun d => declared visit d.1 (v.scope <|> scope)
termination_by c.tree.size
decreasing_by exact Cursor.size_lt_of_mem_children d.2

theorem declared_eq (visit : Visitor) (c : Cursor) (scope : Scope) :
    declared visit c scope = (visit c scope).symbols ++
      c.children.flatMap fun d => declared visit d ((visit c scope).scope <|> scope) := by
  rw [declared]
  exact congrArg _ ((List.flatMap_subtype fun _ _ => rfl).trans (by rw [List.unattach_attach]))

theorem walkStack_append (visit : Visitor) (s t : List (Cursor × Scope)) :
    walkStack visit (s ++ t) = walkStack visit s ++ walkStack visit t := by
  induction s using walkStack.induct visit with
  | case1 => rw [walkStack, List.nil_append, List.nil_append]
  | case2 c scope rest v inner ih =>
    rw [List.cons_append, walkStack, walkStack, ← List.append_assoc, ih]
    simp only [List.append_assoc, v, inner]

theorem walkStack_children (visit : Visitor) (scope : Scope) (cs : List Cursor) :
    walkStack visit (cs.map fun d => (d, scope)) = cs.flatMap fun d => walkStack visit [(d, scope)] := by
  induction cs with
  | nil => rw [List.map_nil, walkStack, List.flatMap_nil]
  | cons d cs ih => rw [List.map_cons, List.flatMap_cons, ← ih, ← walkStack_append, List.singleton_append]

theorem walkStack_eq_declared (visit : Visitor) (c : Cursor) (scope : Scope) :
    walkStack visit [(c, scope)] = declared visit c scope := by
  induction c using Cursor.induction generalizing scope with
  | h c ih =>
    rw [walkStack, declared_eq, List.append_nil, walkStack_children]
    exact congrArg _ (List.flatMap_congr fun d hd => ih d hd _)

/-- The symbols in pre-order of the nodes that declare them. -/
theorem declared_eq_flatMap (visit : Visitor) (c : Cursor) :
    declared visit c (scopeOf visit c) = c.walk.flatMap (declaredAt visit) := by
  induction c using Cursor.induction with
  | h c ih =>
    rw [declared_eq, Cursor.walk_eq, List.flatMap_cons, declaredAt, List.flatMap_assoc]
    refine congrArg _ (List.flatMap_congr fun d hd => ?_)
    rw [← ih d hd, scopeOf_of_mem_children hd]

theorem walk_eq_flatMap (visit : Visitor) (tree : Tree) :
    walk visit (.root tree) = (Cursor.root tree).walk.flatMap (declaredAt visit) :=
  (walkStack_eq_declared visit _ none).trans (declared_eq_flatMap visit (.root tree))

/-! ## The loop -/

/-- One turn of the walk: the node on top of the stack is visited and gives way to its children. -/
def turn (visit : Visitor) : List Symbol × List (Cursor × Scope) → List Symbol × List (Cursor × Scope)
  | (found, []) => (found, [])
  | (found, (c, scope) :: rest) =>
    let v := visit c scope
    (found ++ v.symbols, c.children.map (fun d => (d, v.scope <|> scope)) ++ rest)

def stacked (visit : Visitor) (s : List Cursor) : List (Cursor × Scope) := s.map fun c => (c, scopeOf visit c)

theorem turn_cons (visit : Visitor) (found : List Symbol) (c : Cursor) (s : List Cursor) :
    turn visit (found, stacked visit (c :: s)) =
      (found ++ declaredAt visit c, stacked visit (c.children ++ s)) := by
  have hscopes : stacked visit c.children =
      c.children.map fun d => (d, (visit c (scopeOf visit c)).scope <|> scopeOf visit c) :=
    List.map_congr_left fun d hd => by rw [scopeOf_of_mem_children hd]
  rw [stacked, List.map_cons, turn, stacked, List.map_append, ← stacked, ← stacked, hscopes]
  rfl

/-- After some turns, as many nodes were visited, and the walk goes on with those that follow. -/
theorem turns (visit : Visitor) (n : Nat) : ∀ (found : List Symbol) (s : List Cursor), ∃ rest,
    (turn visit)^[n] (found, stacked visit s) =
        (found ++ ((Cursor.walkStack s).take n).flatMap (declaredAt visit), stacked visit rest) ∧
      Cursor.walkStack rest = (Cursor.walkStack s).drop n := by
  induction n with
  | zero =>
    intro found s
    exact ⟨s, by simp, rfl⟩
  | succ n ih =>
    intro found s
    rw [Function.iterate_succ_apply]
    cases s with
    | nil =>
      -- an empty stack stays empty
      obtain ⟨rest, hturns, hrest⟩ := ih found []
      rw [Cursor.walkStack, List.take_nil] at hturns
      rw [Cursor.walkStack, List.drop_nil] at hrest
      rw [Cursor.walkStack, List.take_nil, List.drop_nil]
      exact ⟨rest, hturns, hrest⟩
    | cons c s =>
      obtain ⟨rest, hturns, hrest⟩ := ih (found ++ declaredAt visit c) (c.children ++ s)
      refine ⟨rest, ?_, ?_⟩
      · rw [turn_cons, hturns, Cursor.walkStack, List.take_succ_cons, List.flatMap_cons, List.append_assoc]
      · rw [hrest, Cursor.walkStack, List.drop_succ_cons]

theorem head?_walkStack (s : List Cursor) : (Cursor.walkStack s).head? = s.head? := by
  cases s with
  | nil => rw [Cursor.walkStack]
  | cons c s => rw [Cursor.walkStack, List.head?_cons, List.head?_cons]

/-! ## Languages -/

/-- How a language visits the nodes of a source. Documents are not visited. -/
def visitor? (language : Language) (src : Source) : Option Visitor :=
  match language with
  | .typescript | .tsx | .javascript => some (EcmaScript.visit src)
  | .python => some (Python.visit src)
  | .go => some (Go.visit src)
  | .c => some (C.visit src)
  | .cpp => some (Cpp.visit src)
  | .csharp => some (CSharp.visit src)
  | .markdown => none

/-- Whether a symbol of the walk stays: only C++ drops those whose definition stands elsewhere. -/
def stays (language : Language) (src : Source) (root : Cursor) (s : Symbol) : Bool :=
  match language with
  | .cpp =>
    let lines := (Cpp.outOfLine src root).filter (·.1 == s.qualifiedName)
    lines.isEmpty || lines.any (·.2 == s.location.first)
  | _ => true

theorem symbolsOf_eq (language : Language) (src : Source) (tree : Tree) :
    symbolsOf language src tree = match visitor? language src with
      | some visit => .ok ((walk visit (.root tree)).filter (stays language src (.root tree)))
      | none => .error (.unsupportedLanguage language.name (Language.code.map Language.name)) := by
  have hall : ∀ symbols : List Symbol,
      (pure symbols : Outcome (List Symbol)) = .ok (symbols.filter fun _ => true) :=
    fun symbols => congrArg Except.ok (List.filter_true symbols).symm
  cases language
  case cpp => rfl
  case markdown => rfl
  all_goals exact hall _

/-- The walk of a tree ends and finds what the recursion finds. It visits each node once, in pre-order
and under the scope that the nearest of its ancestors opens. -/
theorem walk_recursive (visit : Visitor) (tree : Tree) :
    let root := Cursor.root tree
    let after := fun n => (turn visit)^[n] ([], [(root, none)])
    walk visit root = declared visit root none ∧
      after tree.size = (walk visit root, []) ∧
      (∀ n, (after n).2.head? = (root.walk[n]?).map fun c => (c, scopeOf visit c)) ∧
      (root.walk.length = tree.size ∧ root.walk.Nodup ∧ ∀ c, c ∈ root.walk ↔ root.Holds c) ∧
      (∀ c, scopeOf visit c = c.ancestors.findSome? fun a => (visit a (scopeOf visit a)).scope) ∧
      walk visit root = root.walk.flatMap (declaredAt visit) ∧
      ∀ language src, symbolsOf language src tree = match visitor? language src with
        | some visit => .ok ((declared visit root none).filter (stays language src root))
        | none => .error (.unsupportedLanguage language.name (Language.code.map Language.name)) := by
  intro root after
  have hdeclared : ∀ visit, walk visit root = declared visit root none :=
    fun visit => walkStack_eq_declared visit root none
  have hflat : declared visit root none = root.walk.flatMap (declaredAt visit) := declared_eq_flatMap visit root
  have hlength : root.walk.length = tree.size := Cursor.length_walk root
  refine ⟨hdeclared visit, ?_, fun n => ?_, ⟨hlength, Cursor.nodup_walk root, fun c => Cursor.mem_walk⟩,
    scopeOf_eq_findSome? visit, walk_eq_flatMap visit tree, fun language src => ?_⟩
  · obtain ⟨rest, hturns, hrest⟩ := turns visit tree.size [] [root]
    obtain rfl : rest = [] := by
      have hnone := head?_walkStack rest
      rw [hrest, ← Cursor.walk, ← hlength, List.drop_length] at hnone
      exact List.head?_eq_none_iff.1 hnone.symm
    rw [← Cursor.walk, ← hlength, List.take_length, List.nil_append, ← hflat, ← hdeclared, hlength] at hturns
    exact hturns
  · obtain ⟨rest, hturns, hrest⟩ := turns visit n [] [root]
    have hhead : (stacked visit rest).head? = (rest.head?).map fun c => (c, scopeOf visit c) := List.head?_map
    rw [show after n = _ from hturns, hhead, ← head?_walkStack, hrest, List.head?_drop]
    rfl
  · rw [symbolsOf_eq]
    cases visitor? language src with
    | none => rfl
    | some visit =>
      dsimp only
      rw [← hdeclared]

end Extract

end SourceAtlas
