import SourceAtlas.Proofs.Ties
import SourceAtlas.Proofs.Visits

/-!
# Owners of names

A qualified name is joined with dots, and its owner is read off by its last dot. That is
the owner it was joined to if the name that was joined has no dot, and not otherwise.
-/

namespace SourceAtlas

open Syntax (Source Cursor Tree)

namespace Text

theorem splitAt_eq_splitOnP (p : Char → Bool) (cs : List Char) : splitAt p cs = cs.splitOnP p := by
  induction cs with
  | nil => rw [splitAt, List.splitOnP_nil]
  | cons c cs ih =>
    rw [splitAt, List.splitOnP_cons_eq_if_modifyHead, ih]
    split
    · rfl
    · cases hpieces : cs.splitOnP p with
      | nil => exact absurd hpieces (List.splitOnP_ne_nil p cs)
      | cons piece more => rfl

theorem splitAt_ne_nil (p : Char → Bool) (cs : List Char) : splitAt p cs ≠ [] := by
  rw [splitAt_eq_splitOnP]
  exact List.splitOnP_ne_nil p cs

theorem splitAt_dot_of_notMem {cs : List Char} (h : '.' ∉ cs) : splitAt (· == '.') cs = [cs] := by
  rw [splitAt_eq_splitOnP, List.splitOnP_eq_singleton]
  intro c hc
  simpa using fun heq : c = '.' => h (heq ▸ hc)

theorem splitAt_dot_last {front part : List Char} (h : '.' ∉ part) :
    splitAt (· == '.') (front ++ '.' :: part) = splitAt (· == '.') front ++ [part] := by
  have hdot : ('.' == '.') = true := beq_self_eq_true _
  rw [← splitAt_dot_of_notMem h, splitAt_eq_splitOnP, splitAt_eq_splitOnP, splitAt_eq_splitOnP]
  exact List.splitOnP_append_cons front part hdot

theorem exists_last_dot {cs : List Char} (h : '.' ∈ cs) : ∃ front part, cs = front ++ '.' :: part ∧ '.' ∉ part := by
  obtain ⟨part, front, hreverse, hpart⟩ := List.eq_append_cons_of_mem (List.mem_reverse.2 h)
  refine ⟨front.reverse, part.reverse, ?_, List.mem_reverse.not.2 hpart⟩
  rw [← List.reverse_reverse cs, hreverse, List.reverse_append, List.reverse_cons, List.append_assoc]
  rfl

theorem intercalate_splitAt_dot (cs : List Char) :
    String.intercalate "." ((splitAt (· == '.') cs).map String.ofList) = String.ofList cs := by
  rw [← String.toList_inj, String.toList_intercalate, List.map_map, splitAt_eq_splitOnP, String.toList_ofList]
  simp only [Function.comp_def, String.toList_ofList, List.map_id']
  exact List.intercalate_splitOn '.'

end Text

/-! ## Parents -/

namespace Symbol

variable {s : Symbol} {owner : String}

theorem parentName_of_split {front part : List Char} (h : s.qualifiedName.toList = front ++ '.' :: part)
    (hpart : '.' ∉ part) :
    s.parentName = some (String.ofList front) := by
  have hdot : (front ++ '.' :: part).contains '.' = true := by simp
  have hbefore : ((front ++ '.' :: part).reverse.dropWhile (· != '.')).tail.reverse = front := by
    rw [List.reverse_append, List.reverse_cons, List.append_assoc, List.dropWhile_append_of_pos]
    · simp
    · intro c hc
      simpa using fun heq : c = '.' => hpart (heq ▸ List.mem_reverse.1 hc)
  simp only [parentName, h, hdot, hbefore, if_true]

theorem parentName_eq_none (h : '.' ∉ s.qualifiedName.toList) : s.parentName = none := by
  simp [parentName, h]

/-- A name with a dot in it takes more than its owner to its parent. -/
theorem parentName_iff (h : s.qualifiedName = owner ++ "." ++ s.name) :
    s.parentName = some owner ↔ '.' ∉ s.name.toList := by
  have hjoined : s.qualifiedName.toList = owner.toList ++ '.' :: s.name.toList := by
    rw [h, String.toList_append, String.toList_append, List.append_assoc]
    rfl
  constructor
  · intro hparent hdot
    obtain ⟨front, part, hname, hpart⟩ := Text.exists_last_dot hdot
    rw [hname, ← List.cons_append, ← List.append_assoc] at hjoined
    rw [parentName_of_split hjoined hpart] at hparent
    have hlength := congrArg String.length (Option.some.inj hparent)
    rw [String.length_ofList, List.length_append, String.length_toList, List.length_cons] at hlength
    omega
  · intro hdot
    rw [parentName_of_split hjoined hdot, String.ofList_toList]

theorem exists_parentName (h : s.qualifiedName = owner ++ "." ++ s.name) :
    ∃ parent, s.parentName = some parent := by
  have hdot : '.' ∈ s.qualifiedName.toList := by
    rw [h]
    simp
  obtain ⟨front, part, hsplit, hpart⟩ := Text.exists_last_dot hdot
  exact ⟨_, parentName_of_split hsplit hpart⟩

end Symbol

/-! ## Receivers -/

namespace Dependency

variable {language : Language} {g : Grammar} {src : Source} {s : Symbol} {callee receiver owner member : String}
  {receivers : List String}

/-- What replaces the receiver of a call is the parent of the symbol around it. -/
theorem resolveReceiver_eq (h : receivers.find? (Text.hasStart · callee) = some receiver) :
    resolveReceiver callee s.qualifiedName receivers = match s.parentName with
      | some parent => parent ++ "." ++ String.ofList (callee.toList.drop receiver.length)
      | none => callee := by
  rw [resolveReceiver, h]
  by_cases hdot : '.' ∈ s.qualifiedName.toList
  · obtain ⟨front, part, hsplit, hpart⟩ := Text.exists_last_dot hdot
    rw [Symbol.parentName_of_split hsplit hpart, hsplit, Text.splitAt_dot_last hpart, List.dropLast_concat,
      ← Text.intercalate_splitAt_dot]
    cases hpieces : Text.splitAt (· == '.') front with
    | nil => exact absurd hpieces (Text.splitAt_ne_nil _ front)
    | cons piece more => rfl
  · rw [Symbol.parentName_eq_none hdot, Text.splitAt_dot_of_notMem hdot]
    rfl

/-- No receiver of a language starts like another one. -/
theorem find?_receiver (hg : grammar? language = some g) (h : receiver ∈ g.receivers) (member : String) :
    g.receivers.find? (Text.hasStart · (receiver ++ member)) = some receiver := by
  cases language <;> cases hg <;> simp only [List.mem_cons, List.not_mem_nil, or_false] at h
  case python =>
    rcases h with rfl | rfl
    · simp [Text.hasStart]
    · simp [Text.hasStart]
  all_goals
    subst h
    simp [Text.hasStart]

/-- A call on the object itself is one on the owner of the method around it, unless that has a dot in its name. -/
theorem resolveReceiver_iff (hg : grammar? language = some g) (h : receiver ∈ g.receivers)
    (hname : s.qualifiedName = owner ++ "." ++ s.name) :
    resolveReceiver (receiver ++ member) s.qualifiedName g.receivers = owner ++ "." ++ member ↔
    '.' ∉ s.name.toList := by
  obtain ⟨parent, hparent⟩ := Symbol.exists_parentName hname
  have hmember : String.ofList ((receiver ++ member).toList.drop receiver.length) = member := by
    rw [String.toList_append, ← String.length_toList, List.drop_left, String.ofList_toList]
  rw [resolveReceiver_eq (find?_receiver hg h member), ← Symbol.parentName_iff hname, hparent, hmember,
    Option.some.injEq, ← String.toList_inj]
  simp [String.toList_inj]

/-! ## Names of declarations -/

open Extract (Visitor visitor? declaredAt scopeOf ownerOf qualify)

variable {visit : Visitor} {tree : Tree} {symbols : List Symbol} {file : FileIdentity} {c d : Cursor}

theorem exists_declaredAt_of_mem_symbolsOf (hvisit : visitor? language src = some visit)
    (h : symbolsOf language src tree = .ok symbols) (hs : s ∈ symbols) :
    ∃ c ∈ (Cursor.root tree).walk, s ∈ declaredAt visit c := by
  rw [Extract.symbolsOf_eq, hvisit] at h
  obtain rfl := Except.ok.inj h
  rw [Extract.walk_eq_flatMap] at hs
  exact List.mem_flatMap.1 (List.mem_filter.1 hs).1

theorem target_iff {e : Edge} (hg : grammar? language = some g) (hx : receiver ∈ g.receivers)
    (hname : s.qualifiedName = owner ++ "." ++ s.name) (hcallee : calleeOf src d = receiver ++ member)
    (hshown : Tie.Shows ⟨file.ref s.qualifiedName, resolveReceiver (calleeOf src d) s.qualifiedName g.receivers,
      .calls⟩ e) :
    e.target = .str (owner ++ "." ++ member) ↔ '.' ∉ s.name.toList := by
  rw [hshown.target, hcallee, Json.Value.str.injEq]
  exact resolveReceiver_iff hg hx hname

/-- Each symbol of a file is named by its owner and its own name. If its own name has no dot, then both
ways to split the qualified name undo this, and calls on the object itself lead to members of the owner.
If it has one, then none of this is so. -/
theorem splits_at_owner_iff (language : Language) (g : Grammar) (hg : grammar? language = some g) (src : Source)
    (visit : Visitor) (hvisit : visitor? language src = some visit) (tree : Tree) (file : FileIdentity) :
    (∀ symbols, symbolsOf language src tree = .ok symbols →
      ∀ s ∈ symbols, ∃ c ∈ (Cursor.root tree).walk, s ∈ declaredAt visit c) ∧
    ∀ c ∈ (Cursor.root tree).walk, ∀ s ∈ declaredAt visit c,
      s.qualifiedName = qualify (ownerOf language src c (scopeOf visit c)) s.name ∧
      ∀ owner, ownerOf language src c (scopeOf visit c) = some owner → owner ≠ "" →
        (s.parentName = some owner ↔ '.' ∉ s.name.toList) ∧
        ∀ receiver ∈ g.receivers, ∀ member,
          (resolveReceiver (receiver ++ member) s.qualifiedName g.receivers = owner ++ "." ++ member ↔
            '.' ∉ s.name.toList) ∧
          ∀ symbols d, caller? g src symbols d = some s → calleeOf src d = receiver ++ member →
            ∃ e, edgesAt g src (scopesOf symbols) file d = .ok [e] ∧
              (e.target = .str (owner ++ "." ++ member) ↔ '.' ∉ s.name.toList) := by
  refine ⟨fun symbols hsymbols s hs => exists_declaredAt_of_mem_symbolsOf hvisit hsymbols hs, fun c hc s hs => ?_⟩
  have hnamed := (Extract.declares_of_mem_declaredAt hvisit hs).named
  refine ⟨hnamed, fun owner howner hne => ?_⟩
  rw [howner, Extract.qualify_some hne] at hnamed
  refine ⟨Symbol.parentName_iff hnamed, fun receiver hx member => ⟨resolveReceiver_iff hg hx hnamed, ?_⟩⟩
  intro symbols d hcaller hcallee
  obtain ⟨e, he, hshown⟩ := edgesAt_of_caller? hg hcaller
  exact ⟨e, he, target_iff hg hx hnamed hcallee hshown⟩

theorem splits_at_owner_of_class : ∃ s ∈ Sample.classSymbols, s.qualifiedName = "A.f" ∧ s.parentName = some "A" ∧
    ∃ d ∈ (Cursor.root Sample.classTree).walk, calleeOf Sample.classText d = "self.g" ∧
      ∃ e, edgesAt ⟨["import_statement", "import_from_statement"], ["call"], ["self.", "cls."]⟩ Sample.classText
        (scopesOf Sample.classSymbols) Sample.classFile d = .ok [e] ∧ e.target = .str "A.g" := by
  let g : Grammar := ⟨["import_statement", "import_from_statement"], ["call"], ["self.", "cls."]⟩
  let visit := Extract.Python.visit Sample.classText
  obtain ⟨hdeclared, hsplits⟩ :=
    splits_at_owner_iff .python g rfl Sample.classText visit rfl Sample.classTree Sample.classFile
  have hcall : ∃ d ∈ (Cursor.root Sample.classTree).walk, calleeOf Sample.classText d = "self.g" ∧
      (caller? g Sample.classText Sample.classSymbols d).map (·.qualifiedName) = some "A.f" := by
    decide +kernel
  have howner : ∀ c ∈ (Cursor.root Sample.classTree).walk, ∀ s ∈ declaredAt visit c, s.qualifiedName = "A.f" →
      ownerOf .python Sample.classText c (scopeOf visit c) = some "A" ∧ '.' ∉ s.name.toList := by
    decide +kernel
  have hsymbols : symbolsOf .python Sample.classText Sample.classTree = .ok Sample.classSymbols := rfl
  obtain ⟨d, hd, hcallee, hname⟩ := hcall
  obtain ⟨s, hs, hname⟩ := Option.map_eq_some_iff.1 hname
  obtain ⟨c, hc, hat⟩ := hdeclared _ hsymbols s (mem_of_caller? hs)
  obtain ⟨hA, hdot⟩ := howner c hc s hat hname
  obtain ⟨-, howned⟩ := hsplits c hc s hat
  obtain ⟨hparent, hreceivers⟩ := howned "A" hA (by decide)
  obtain ⟨-, hcalls⟩ := hreceivers "self." (by decide) "g"
  obtain ⟨e, he, htarget⟩ := hcalls Sample.classSymbols d hs hcallee
  exact ⟨s, mem_of_caller? hs, hname, hparent.2 hdot, d, hd, hcallee, e, he, htarget.2 hdot⟩

end Dependency

/-! A method whose name is an expression. -/

namespace Sample

def computedText : Source := ⟨Text.encode "class A \x7b [Symbol.iterator]() \x7b this.m(); \x7d \x7d\n"⟩

def computedTree : Tree :=
  .node { kind := "program", first := 0, stop := 46 } [
    .node { kind := "class_declaration", first := 0, stop := 45 } [
      token "class" 0 5,
      .node { kind := "identifier", first := 6, stop := 7, field := some "name" } [],
      .node { kind := "class_body", first := 8, stop := 45, field := some "body" } [
        token "\x7b" 8 9,
        .node { kind := "method_definition", first := 10, stop := 43, field := some "member" } [
          .node { kind := "computed_property_name", first := 10, stop := 27, field := some "name" } [
            token "[" 10 11,
            .node { kind := "member_expression", first := 11, stop := 26 } [
              .node { kind := "identifier", first := 11, stop := 17, field := some "object" } [],
              token "." 17 18,
              .node { kind := "property_identifier", first := 18, stop := 26, field := some "property" } []],
            token "]" 26 27],
          .node { kind := "formal_parameters", first := 27, stop := 29, field := some "parameters" } [
            token "(" 27 28, token ")" 28 29],
          .node { kind := "statement_block", first := 30, stop := 43, field := some "body" } [
            token "\x7b" 30 31,
            .node { kind := "expression_statement", first := 32, stop := 41 } [
              .node { kind := "call_expression", first := 32, stop := 40 } [
                .node { kind := "member_expression", first := 32, stop := 38, field := some "function" } [
                  .node { kind := "this", first := 32, stop := 36, field := some "object" } [],
                  token "." 36 37,
                  .node { kind := "property_identifier", first := 37, stop := 38, field := some "property" } []],
                .node { kind := "arguments", first := 38, stop := 40, field := some "arguments" } [
                  token "(" 38 39, token ")" 39 40]],
              token ";" 40 41],
            token "\x7d" 42 43]],
        token "\x7d" 44 45]]]

end Sample

namespace Dependency

open Extract (declaredAt scopeOf ownerOf)

/-- The parent of the method is no symbol, and the call on its object leads to no member of the class. -/
theorem computed_name_splits : ∃ c ∈ (Cursor.root Sample.computedTree).walk,
    ∃ s ∈ declaredAt (Extract.EcmaScript.visit Sample.computedText) c,
      ownerOf .javascript Sample.computedText c (scopeOf (Extract.EcmaScript.visit Sample.computedText) c) =
        some "A" ∧
      s.qualifiedName = "A.[Symbol.iterator]" ∧ s.parentName = some "A.[Symbol" ∧
      resolveReceiver "this.m" s.qualifiedName ["this."] = "A.[Symbol.m" := by
  decide +kernel

end Dependency

end SourceAtlas
