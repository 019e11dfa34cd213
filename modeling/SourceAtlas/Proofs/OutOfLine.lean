import SourceAtlas.Proofs.Examining
import SourceAtlas.Proofs.Visits

/-!
# Definitions outside of their class

A function with an owner in its name is taken to define what the namespaces around it and
its name say. All symbols of that qualified name are dropped but those that start on the
line of such a definition: prototypes, and also those of nodes that have a body.
-/

namespace SourceAtlas

open Syntax (Source Cursor Tree Frame)

namespace Extract.Cpp

variable {src : Source} {root c d : Cursor} {scope : Scope} {s : Symbol} {name : String} {names more : List String}

/-! ## Names with dots -/

theorem joinDots_ne_empty (hne : names ≠ []) (h : ∀ n ∈ names, n ≠ "") : joinDots names ≠ "" := by
  obtain ⟨n, names, rfl⟩ := List.exists_cons_of_ne_nil hne
  have hn := h n List.mem_cons_self
  cases names with
  | nil => simpa [joinDots] using hn
  | cons m more =>
    intro hempty
    rw [joinDots, String.intercalate_cons_cons] at hempty
    simp at hempty

theorem nameParts_go_ne_nil (part cs : List Char) : nameParts.go part cs ≠ [] := by
  induction part, cs using nameParts.go.induct with
  | case1 part => simp [nameParts.go]
  | case2 part rest ih => simp [nameParts.go]
  | case3 part c rest hcolons ih =>
    rw [nameParts.go]
    · exact ih
    · exact hcolons

theorem of_joinDots_go_eq_empty {part cs : List Char} (h : joinDots (nameParts.go part cs) = "") :
    part = [] ∧ cs = [] := by
  induction part, cs using nameParts.go.induct with
  | case1 part => simpa [nameParts.go, joinDots] using h
  | case2 part rest ih =>
    rw [nameParts.go, joinDots, String.intercalate_cons_of_ne_nil (nameParts_go_ne_nil [] rest)] at h
    simp at h
  | case3 part c rest hcolons ih =>
    rw [nameParts.go] at h
    · cases (ih h).1
    · exact hcolons

theorem namespaceScope_ne_empty (h : c.fieldText src "name" ≠ "") : namespaceScope src c ≠ "" := by
  intro hempty
  obtain ⟨-, hname⟩ := of_joinDots_go_eq_empty hempty
  exact h (String.toList_eq_nil_iff.1 hname)

def scopeFor (names : List String) : Scope := if names = [] then none else some (joinDots names)

theorem qualify_scopeFor (h : ∀ n ∈ names, n ≠ "") (hmore : more ≠ []) :
    qualify (scopeFor names) (joinDots more) = joinDots (names ++ more) := by
  by_cases hnames : names = []
  · subst hnames
    rfl
  · rw [scopeFor, if_neg hnames, qualify_some (joinDots_ne_empty hnames h), joinDots, joinDots, joinDots,
      String.intercalate_append_of_ne_nil hnames hmore]

theorem qualify_scopeFor_one (h : ∀ n ∈ names, n ≠ "") (name : String) :
    qualify (scopeFor names) name = joinDots (names ++ [name]) := by
  have hone : joinDots [name] = name := String.intercalate_singleton
  rw [← qualify_scopeFor h (List.cons_ne_nil name []), hone]

theorem some_qualify_scopeFor (h : ∀ n ∈ names, n ≠ "") (name : String) :
    some (qualify (scopeFor names) name) = scopeFor (names ++ [name]) := by
  rw [qualify_scopeFor_one h, scopeFor, if_neg (List.append_ne_nil_of_right_ne_nil _ (List.cons_ne_nil name []))]

/-! ## What is defined -/

def isNamedNamespace (a : Cursor) : Bool := a.kind == "namespace_definition" && (a.child? "name").isSome

def namespacesAround (src : Source) (c : Cursor) : List String :=
  ((c.ancestors.filter isNamedNamespace).map (namespaceScope src)).reverse

def writtenParts (src : Source) (c : Cursor) : List String :=
  nameParts (C.declaredName src (C.functionDeclarator c))

/-- The qualified name that a function is taken to define if its name has an owner. -/
def definedName? (src : Source) (c : Cursor) : Option String :=
  match writtenParts src c with
  | [] | [_] => none
  | parts => some (joinDots (namespacesAround src c ++ parts.filter (· != "")))

def Defines (src : Source) (d : Cursor) (name : String) : Prop :=
  d.kind = "function_definition" ∧ definedName? src d = some name

instance : Decidable (Defines src d name) := inferInstanceAs (Decidable (_ ∧ _))

theorem outOfLine_eq (src : Source) (root : Cursor) : outOfLine src root =
    (root.descendants ["function_definition"]).filterMap fun c => (definedName? src c).map fun name =>
      (name, c.firstRow src + 1) := by
  refine List.filterMap_congr fun c _ => ?_
  unfold definedName? writtenParts
  cases nameParts (C.declaredName src (C.functionDeclarator c)) with
  | nil => rfl
  | cons part parts => cases parts <;> rfl

theorem mem_outOfLine {line : Nat} :
    (name, line) ∈ outOfLine src root ↔ ∃ d ∈ root.walk, Defines src d name ∧ d.firstRow src + 1 = line := by
  rw [outOfLine_eq, List.mem_filterMap]
  simp only [Cursor.descendants, List.mem_filter, List.contains_cons, List.contains_nil, Bool.or_false, beq_iff_eq,
    Option.map_eq_some_iff, Prod.mk.injEq]
  constructor
  · rintro ⟨d, ⟨hd, hkind⟩, n, hn, rfl, hline⟩
    exact ⟨d, hd, ⟨hkind, hn⟩, hline⟩
  · rintro ⟨d, hd, ⟨hkind, hn⟩, hline⟩
    exact ⟨d, ⟨hd, hkind⟩, name, hn, rfl, hline⟩

theorem mem_symbols_iff : s ∈ symbols src root ↔ s ∈ walk (visit src) root ∧
    ((∀ d ∈ root.walk, ¬ Defines src d s.qualifiedName) ∨
      ∃ d ∈ root.walk, Defines src d s.qualifiedName ∧ d.firstRow src + 1 = s.location.first) := by
  rw [symbols, List.mem_filter]
  refine and_congr_right fun _ => ?_
  rw [Bool.or_eq_true, List.isEmpty_iff, List.filter_eq_nil_iff, List.any_filter, List.any_eq_true]
  refine or_congr ?_ ?_
  · constructor
    · intro h d hd hdefines
      exact h _ (mem_outOfLine.2 ⟨d, hd, hdefines, rfl⟩) (beq_self_eq_true _)
    · rintro h ⟨n, line⟩ hmem hname
      obtain ⟨d, hd, hdefines, -⟩ := mem_outOfLine.1 hmem
      exact h d hd (beq_iff_eq.1 hname ▸ hdefines)
  · constructor
    · rintro ⟨⟨n, line⟩, hmem, hboth⟩
      obtain ⟨hname, hline⟩ := Bool.and_eq_true_iff.1 hboth
      obtain ⟨d, hd, hdefines, hfirst⟩ := mem_outOfLine.1 hmem
      exact ⟨d, hd, beq_iff_eq.1 hname ▸ hdefines, hfirst.trans (beq_iff_eq.1 hline)⟩
    · rintro ⟨d, hd, hdefines, hfirst⟩
      exact ⟨(s.qualifiedName, s.location.first), mem_outOfLine.2 ⟨d, hd, hdefines, hfirst⟩, by simp⟩

/-! ## Plain definitions -/

structure Plain (src : Source) (c : Cursor) : Prop where
  free : ∀ a ∈ c.ancestors, declaredAt (visit src) a = []
  named : ∀ a ∈ c.ancestors, isNamedNamespace a → a.fieldText src "name" ≠ ""
  last : (writtenParts src c).getLast? ≠ some ""

instance : Decidable (Plain src c) :=
  decidable_of_iff (_ ∧ _ ∧ _) ⟨fun ⟨hfree, hnamed, hlast⟩ => ⟨hfree, hnamed, hlast⟩,
  fun h => ⟨h.free, h.named, h.last⟩⟩

theorem absurd_of_declare {P : Prop} {s : Symbol} (h : (Visit.declare s).symbols = []) : P := by
  cases h

/-- Only a namespace opens a scope without a symbol. -/
theorem scope_eq_none (hkind : c.kind ≠ "namespace_definition") (h : (visit src c scope).symbols = []) :
    (visit src c scope).scope = none := by
  have haggregate : (C.aggregate src (visibility src) c scope).symbols = [] →
      (C.aggregate src (visibility src) c scope).scope = none := by
    unfold C.aggregate
    split
    · exact fun _ => rfl
    · exact absurd_of_declare
  revert h
  unfold visit
  split
  · exact absurd_of_declare
  · unfold C.declaration
    dsimp only
    split
    · exact fun _ => rfl
    · exact absurd_of_declare
  · unfold methodDeclaration
    dsimp only
    split
    · exact fun _ => rfl
    · exact absurd_of_declare
  · exact haggregate
  · exact haggregate
  · exact haggregate
  · exact haggregate
  · contradiction
  · exact fun _ => rfl

theorem ne_empty_of_mem_namespacesAround (h : ∀ a ∈ c.ancestors, isNamedNamespace a → a.fieldText src "name" ≠ "") :
    ∀ n ∈ namespacesAround src c, n ≠ "" := by
  intro n hn
  obtain ⟨a, ha, rfl⟩ := List.mem_map.1 (List.mem_reverse.1 hn)
  obtain ⟨hancestor, hnamed⟩ := List.mem_filter.1 ha
  exact namespaceScope_ne_empty (h a hancestor hnamed)

/-- Without declarations around it, a node lies in the scope of the namespaces around it. -/
theorem scopeOf_eq_scopeFor (hfree : ∀ a ∈ c.ancestors, declaredAt (visit src) a = [])
    (hnamed : ∀ a ∈ c.ancestors, isNamedNamespace a → a.fieldText src "name" ≠ "") :
    scopeOf (visit src) c = scopeFor (namespacesAround src c) := by
  obtain ⟨tree, path⟩ := c
  induction path generalizing tree with
  | nil => rfl
  | cons f path ih =>
    let p : Cursor := ⟨f.parent, path⟩
    have hancestors : Cursor.ancestors ⟨tree, f :: path⟩ = p :: p.ancestors := rfl
    have hscope : scopeOf (visit src) ⟨tree, f :: path⟩ =
        ((visit src p (scopeOf (visit src) p)).scope <|> scopeOf (visit src) p) := rfl
    rw [hancestors, List.forall_mem_cons] at hfree hnamed
    have houter := ih f.parent hfree.2 hnamed.2
    rw [namespacesAround, hancestors, List.filter_cons, hscope]
    by_cases hp : isNamedNamespace p
    · -- the parent opens a scope in that of the namespaces around it
      have hname := hnamed.1 hp
      have hkind : p.kind = "namespace_definition" := beq_iff_eq.1 (Bool.and_eq_true_iff.1 hp).1
      have hopens : (visit src p (scopeOf (visit src) p)).scope =
          some (qualify (scopeOf (visit src) p) (namespaceScope src p)) := by
        simp only [visit, hkind]
        rw [if_neg (by simpa using hname)]
      rw [if_pos hp, List.map_cons, List.reverse_cons, hopens, houter]
      exact some_qualify_scopeFor (ne_empty_of_mem_namespacesAround hnamed.2) (namespaceScope src p)
    · -- and it opens none if it is no namespace or has no name
      have hopens : (visit src p (scopeOf (visit src) p)).scope = none := by
        by_cases hkind : p.kind = "namespace_definition"
        · have hchild : p.child? "name" = none := by simpa [isNamedNamespace, hkind] using hp
          have hname : p.fieldText src "name" = "" := by rw [Cursor.fieldText, hchild]
          simp only [visit, hkind]
          rw [if_pos (by simpa using hname)]
        · exact scope_eq_none hkind hfree.1
      rw [if_neg hp, hopens, houter]
      rfl

theorem ownerOf_scopeFor (h : ∀ n ∈ names, n ≠ "") (hkind : d.kind = "function_definition") :
    ownerOf src d (scopeFor names) = scopeFor (names ++ (definedParts src d).dropLast.filter (· != "")) := by
  rw [ownerOf, if_pos hkind, namedOwner]
  by_cases howners : (definedParts src d).dropLast.filter (· != "") = []
  · rw [howners, List.append_nil]
    rfl
  · have hne : joinDots ((definedParts src d).dropLast.filter (· != "")) ≠ "" :=
      joinDots_ne_empty howners fun n hn => by simpa using (List.mem_filter.1 hn).2
    rw [if_neg (by simpa using hne), qualify_scopeFor h howners, scopeFor,
      if_neg (List.append_ne_nil_of_right_ne_nil names howners)]

theorem definedParts_eq (h : writtenParts src d ≠ [""]) : definedParts src d = writtenParts src d := by
  have hname : C.declaredName src (C.functionDeclarator d) ≠ "" := by
    intro hempty
    rw [writtenParts, hempty] at h
    exact h rfl
  rw [definedParts, nameOr, if_neg (by simpa using hname), writtenParts]

theorem parts_of_defines (h : Defines src d name) :
    ∃ owners part, owners ≠ [] ∧ writtenParts src d = owners ++ [part] ∧
    joinDots (namespacesAround src d ++ (writtenParts src d).filter (· != "")) = name := by
  obtain ⟨-, hname⟩ := h
  rw [definedName?] at hname
  split at hname
  · cases hname
  · cases hname
  · rename_i hnil hone
    have hsplit := (List.dropLast_append_getLast hnil).symm
    refine ⟨_, _, fun howners => ?_, hsplit, Option.some.inj hname⟩
    rw [howners] at hsplit
    exact hone _ hsplit

theorem declaredAt_function (src : Source) (hkind : d.kind = "function_definition") :
    ∃ s, declaredAt (visit src) d = [s] ∧
    s.name = nameOr "anonymous" ((definedParts src d).getLast?.getD "") ∧
    s.location.first = d.firstRow src + 1 := by
  simp only [declaredAt, visit, hkind]
  exact ⟨_, rfl, rfl, rfl⟩

theorem declaredAt_of_plain (hdefines : Defines src d name) (hplain : Plain src d) :
    ∃ s, declaredAt (visit src) d = [s] ∧ s.qualifiedName = name ∧ s.location.first = d.firstRow src + 1 := by
  obtain ⟨owners, part, howners, hsplit, hjoined⟩ := parts_of_defines hdefines
  have hpart : part ≠ "" := by
    intro hempty
    apply hplain.last
    rw [hsplit, List.getLast?_concat, hempty]
  have hparts : definedParts src d = owners ++ [part] := by
    rw [definedParts_eq, hsplit]
    intro hone
    simp [hsplit, List.append_eq_singleton_iff, howners] at hone
  obtain ⟨s, hs, hname, hfirst⟩ := declaredAt_function src hdefines.1
  refine ⟨s, hs, ?_, hfirst⟩
  have hnames := ne_empty_of_mem_namespacesAround hplain.named
  have hnamed := (declaredBy (scopeOf (visit src) d) s (hs ▸ List.mem_singleton_self s)).named
  rw [scopeOf_eq_scopeFor hplain.free hplain.named, ownerOf_scopeFor hnames hdefines.1, hname, hparts,
    List.dropLast_concat, List.getLast?_concat, Option.getD_some, nameOr, if_neg (by simpa using hpart),
    qualify_scopeFor_one] at hnamed
  · rw [hnamed, ← hjoined, hsplit, List.filter_append, List.append_assoc]
    simp [hpart]
  · intro n hn
    rcases List.mem_append.1 hn with hn | hn
    · exact hnames n hn
    · simpa using (List.mem_filter.1 hn).2

/-! ## What is kept -/

/-- Symbols of C++ are kept by name and line alone. One is dropped if functions with an owner in their name define
its qualified name and none of them starts on its line, whether it has a body or not. Plain definitions
are always kept, so that what is dropped is found again under its qualified name. -/
theorem kept_by_name_and_line (src : Source) (tree : Tree) :
    let root := Cursor.root tree
    (symbols src root).Sublist (walk (visit src) root) ∧
      (∀ c ∈ root.walk, ∀ s ∈ declaredAt (visit src) c, (s ∈ symbols src root ↔
        (∀ d ∈ root.walk, ¬ Defines src d s.qualifiedName) ∨
          ∃ d ∈ root.walk, Defines src d s.qualifiedName ∧ d.firstRow src + 1 = s.location.first)) ∧
      (∀ d ∈ root.walk, ∀ name, Defines src d name → Plain src d →
        ∃ s, declaredAt (visit src) d = [s] ∧ s.qualifiedName = name ∧ s ∈ symbols src root) ∧
      ∀ s ∈ walk (visit src) root, s ∉ symbols src root →
        ∃ d ∈ root.walk, Defines src d s.qualifiedName ∧ d.firstRow src + 1 ≠ s.location.first ∧
          (Plain src d → ∃ s' ∈ symbols src root,
            s' ∈ declaredAt (visit src) d ∧ s'.qualifiedName = s.qualifiedName) := by
  intro root
  have hfound : ∀ {c s}, c ∈ root.walk → s ∈ declaredAt (visit src) c → s ∈ walk (visit src) root := by
    intro c s hc hs
    rw [walk_eq_flatMap]
    exact List.mem_flatMap.2 ⟨c, hc, hs⟩
  have hplain : ∀ d ∈ root.walk, ∀ name, Defines src d name → Plain src d →
      ∃ s, declaredAt (visit src) d = [s] ∧ s.qualifiedName = name ∧ s ∈ symbols src root := by
    intro d hd name hdefines hplain
    obtain ⟨s, hs, hname, hfirst⟩ := declaredAt_of_plain hdefines hplain
    have hwalk := hfound hd (hs ▸ List.mem_singleton_self s)
    exact ⟨s, hs, hname, mem_symbols_iff.2 ⟨hwalk, .inr ⟨d, hd, hname ▸ hdefines, hfirst.symm⟩⟩⟩
  refine ⟨List.filter_sublist, fun c hc s hs => ?_, hplain, fun s hs hdropped => ?_⟩
  · rw [mem_symbols_iff]
    exact and_iff_right (hfound hc hs)
  · rw [mem_symbols_iff, not_and] at hdropped
    obtain ⟨hdefined, hline⟩ := not_or.1 (hdropped hs)
    push Not at hdefined hline
    obtain ⟨d, hd, hdefines⟩ := hdefined
    refine ⟨d, hd, hdefines, hline d hd hdefines, fun h => ?_⟩
    obtain ⟨s', hs', hname, hkept⟩ := hplain d hd _ hdefines h
    exact ⟨s', hkept, hs' ▸ List.mem_singleton_self s', hname⟩

end Extract.Cpp

/-! Two functions of one name in a class, one with its body in it and one defined outside of it. -/

namespace Sample

def overloadText : Source :=
  ⟨Text.encode "struct A \x7b void f() \x7b\x7d void f(int); \x7d;\nvoid A::f(int) \x7b\x7d\n"⟩

def typed (first nameFirst nameStop stop : Nat) (name parameters : List Tree) : List Tree := [
  .node { kind := "primitive_type", first, stop := first + 4, field := some "type" } [],
  .node { kind := "function_declarator", first := nameFirst, stop, field := some "declarator" } (name ++ [
    .node { kind := "parameter_list", first := nameStop, stop, field := some "parameters" }
      (token "(" nameStop (nameStop + 1) :: parameters ++ [token ")" (stop - 1) stop])])]

def field (first : Nat) : List Tree :=
  [.node { kind := "field_identifier", first, stop := first + 1, field := some "declarator" } []]

def integer (first : Nat) : List Tree := [
  .node { kind := "parameter_declaration", first, stop := first + 3 } [
    .node { kind := "primitive_type", first, stop := first + 3, field := some "type" } []]]

def emptyBody (first : Nat) : Tree :=
  .node { kind := "compound_statement", first, stop := first + 2, field := some "body" } [
    token "\x7b" first (first + 1), token "\x7d" (first + 1) (first + 2)]

def overloadTree : Tree :=
  .node { kind := "translation_unit", first := 0, stop := 57 } [
    .node { kind := "struct_specifier", first := 0, stop := 37 } [
      token "struct" 0 6,
      .node { kind := "type_identifier", first := 7, stop := 8, field := some "name" } [],
      .node { kind := "field_declaration_list", first := 9, stop := 37, field := some "body" } [
        token "\x7b" 9 10,
        .node { kind := "function_definition", first := 11, stop := 22 }
          (typed 11 16 17 19 (field 16) [] ++ [emptyBody 20]),
        .node { kind := "field_declaration", first := 23, stop := 35 }
          (typed 23 28 29 34 (field 28) (integer 30) ++ [token ";" 34 35]),
        token "\x7d" 36 37]],
    token ";" 37 38,
    .node { kind := "function_definition", first := 39, stop := 56 }
      (typed 39 44 48 53 [
        .node { kind := "qualified_identifier", first := 44, stop := 48, field := some "declarator" } [
          .node { kind := "namespace_identifier", first := 44, stop := 45, field := some "scope" } [],
          token "::" 45 47,
          .node { kind := "identifier", first := 47, stop := 48, field := some "name" } []]] (integer 49) ++
          [emptyBody 54])]

end Sample

namespace Extract.Cpp

/-- The definition of another overload takes the place of a method with a body. -/
theorem overload_with_body_is_dropped : ∃ c ∈ (Cursor.root Sample.overloadTree).walk,
    c.kind = "function_definition" ∧ (c.child? "body").isSome ∧ ∃ s ∈ declaredAt (visit Sample.overloadText) c,
      s.qualifiedName = "A.f" ∧ s ∉ symbols Sample.overloadText (Cursor.root Sample.overloadTree) := by
  have hdeclared : ∃ c ∈ (Cursor.root Sample.overloadTree).walk, c.kind = "function_definition" ∧
      (c.child? "body").isSome ∧ ∃ s ∈ declaredAt (visit Sample.overloadText) c, s.qualifiedName = "A.f" ∧
        s.code = "void f() \x7b\x7d" := by
    decide +kernel
  have hkept : ∀ s ∈ symbols Sample.overloadText (Cursor.root Sample.overloadTree),
      s.code ≠ "void f() \x7b\x7d" := by
    decide +kernel
  obtain ⟨c, hc, hkind, hbody, s, hs, hname, hcode⟩ := hdeclared
  exact ⟨c, hc, hkind, hbody, s, hs, hname, fun h => hkept s h hcode⟩

example : ∃ d ∈ (Cursor.root Sample.overloadTree).walk,
    Defines Sample.overloadText d "A.f" ∧ Plain Sample.overloadText d := by
  decide +kernel

end Extract.Cpp

end SourceAtlas
