import SourceAtlas.Proofs.Ties
import SourceAtlas.Proofs.Visits

/-!
# Enclosing declarations

The lines of a symbol are those of the node that declares it or of the parent of
that node, so they contain the lines of all that lies below. If they contain no
other call, then the last symbol around a call is one of the innermost ancestor
that declares any.
-/

namespace SourceAtlas

open Syntax (Source Cursor Tree)

namespace Extract

variable {language : Language} {src : Source} {c : Cursor} {s : Symbol}

/-! ## Symbols of a node -/

def symbolsAt (language : Language) (src : Source) (tree : Tree) (c : Cursor) : List Symbol :=
  match visitor? language src with
  | some visit => (declaredAt visit c).filter (stays language src (.root tree))
  | none => []

theorem place_of_mem_symbolsAt {tree : Tree} (h : s ∈ symbolsAt language src tree c) :
    ∃ place, (place = c ∨ c.parent? = some place) ∧ s.location = place.lines src := by
  unfold symbolsAt at h
  split at h
  · rename_i visit hvisit
    exact (declares_of_mem_declaredAt hvisit (List.mem_filter.1 h).1).place
  · cases h

def symbolsIn (language : Language) (src : Source) (tree : Tree) : List Symbol :=
  (Cursor.root tree).walk.flatMap (symbolsAt language src tree)

theorem symbolsOf_eq_symbolsIn (hvisit : (visitor? language src).isSome) (tree : Tree) :
    symbolsOf language src tree = .ok (symbolsIn language src tree) := by
  obtain ⟨visit, hvisit⟩ := Option.isSome_iff_exists.1 hvisit
  have hat : symbolsAt language src tree = fun c =>
      (declaredAt visit c).filter (stays language src (.root tree)) := by
    funext c
    rw [symbolsAt, hvisit]
  rw [symbolsOf_eq, hvisit, symbolsIn, hat, ← List.filter_flatMap, ← walk_eq_flatMap]

/-- The last symbol of the innermost ancestor that declares any. -/
def enclosing? (language : Language) (src : Source) (tree : Tree) (c : Cursor) : Option Symbol :=
  c.ancestors.findSome? fun a => (symbolsAt language src tree a).getLast?

/-- The lines of a symbol contain those of all nodes below the one that declares it. -/
theorem contains_of_mem_ancestors {tree : Tree} (hnested : tree.Nested) {a : Cursor}
    (hc : (Cursor.root tree).Holds c)
    (ha : a ∈ c.ancestors) (hs : s ∈ symbolsAt language src tree a) :
    s.location.contains (c.lines src).first (c.lines src).last = true := by
  obtain ⟨hfirst, hstop⟩ := hnested.within hc ha
  have hrange := (hnested c (Cursor.mem_walk.2 hc)).1
  obtain ⟨place, rfl | hparent, hlines⟩ := place_of_mem_symbolsAt hs
  · rw [hlines]
    exact Cursor.lines_contains src hfirst hrange hstop
  · have hplace : place ∈ a.ancestors := by
      rw [Cursor.ancestors_of_parent? hparent]
      exact List.mem_cons_self
    obtain ⟨hfirst', hstop'⟩ := hnested.within (hc.of_mem_ancestors ha) hplace
    rw [hlines]
    exact Cursor.lines_contains src (Nat.le_trans hfirst' hfirst) hrange (Nat.le_trans hstop hstop')

end Extract

namespace Dependency

open Extract (symbolsAt symbolsIn enclosing?)

variable {language : Language} {g : Grammar} {src : Source} {tree : Tree} {file : FileIdentity} {c : Cursor}

/-! ## Symbols around a call -/

theorem find?_reverse_eq_getLast? {p : Symbol → Bool} {ss : List Symbol} (h : ∀ s ∈ ss, p s = true) :
    ss.reverse.find? p = ss.getLast? := by
  rw [← List.head?_reverse]
  cases hrev : ss.reverse with
  | nil => rfl
  | cons s rest =>
    have hs : s ∈ ss := List.mem_reverse.1 (hrev ▸ List.mem_cons_self)
    rw [List.find?_cons, h s hs, List.head?_cons]

/-- Whether symbols contain the lines of a call only if the nodes that declare them are around it. -/
def Apart (language : Language) (g : Grammar) (src : Source) (tree : Tree) : Prop :=
  ∀ c ∈ (Cursor.root tree).walk, g.calls.contains c.kind → ∀ d ∈ (Cursor.root tree).walk,
    ∀ s ∈ symbolsAt language src tree d,
    s.location.contains (c.lines src).first (c.lines src).last = true → d ∈ c.ancestors

instance (language : Language) (g : Grammar) (src : Source) (tree : Tree) : Decidable (Apart language g src tree) :=
  inferInstanceAs (Decidable (∀ c ∈ (Cursor.root tree).walk, _))

section
variable (hnested : tree.Nested) (hapart : Apart language g src tree)
include hnested hapart

theorem lastAround?_symbolsIn (hc : c ∈ (Cursor.root tree).walk) (hcall : g.calls.contains c.kind) :
    lastAround? (symbolsIn language src tree) (c.lines src).first (c.lines src).last =
      enclosing? language src tree c := by
  have hholds := Cursor.mem_walk.1 hc
  have hsub : c.ancestors.Sublist (Cursor.root tree).walk.reverse :=
    (List.sublist_cons_self ..).trans (Cursor.ancestors_sublist hholds)
  rw [lastAround?, symbolsIn, List.findRev?_eq_find?_reverse, List.reverse_flatMap, List.find?_flatMap,
    findSome?_of_sublist hsub (List.nodup_reverse.2 (Cursor.nodup_walk _))]
  · -- an ancestor has its last symbol around the call
    refine findSome?_congr fun a ha => find?_reverse_eq_getLast? fun s hs => ?_
    exact Extract.contains_of_mem_ancestors hnested hholds ha hs
  · -- and no other node has any
    intro d hd hother
    rw [List.find?_eq_none]
    intro s hs hcontains
    exact hother (hapart c hc hcall d (List.mem_reverse.1 hd) s (List.mem_reverse.1 hs) hcontains)

theorem caller?_symbolsIn (hc : c ∈ (Cursor.root tree).walk) (hcall : g.calls.contains c.kind) :
    caller? g src (symbolsIn language src tree) c =
      if calleeOf src c = "" then none else enclosing? language src tree c := by
  rw [caller?, lastAround?_symbolsIn hnested hapart hc hcall]
  by_cases hcallee : calleeOf src c = ""
  · simp [hcallee]
  · rw [if_neg hcallee, if_pos ⟨hcall, hcallee⟩]

theorem edgesAt_of_enclosed (hg : grammar? language = some g) (hc : c ∈ (Cursor.root tree).walk)
    (hcall : g.calls.contains c.kind) :
    ∃ es, edgesAt g src (scopesOf (symbolsIn language src tree)) file c = .ok es ∧
      match enclosing? language src tree c with
      | none => es = []
      | some s => (calleeOf src c ≠ "" → es ≠ []) ∧
        ∀ e ∈ es, e.type = .calls ∧ e.source = .str (file.ref s.qualifiedName) := by
  obtain ⟨es, hes, hcaller⟩ := edgesAt_of_call hg hcall
  refine ⟨es, hes, ?_⟩
  rw [caller?_symbolsIn hnested hapart hc hcall] at hcaller
  by_cases hcallee : calleeOf src c = ""
  · rw [if_pos hcallee] at hcaller
    cases enclosing? language src tree c <;> simp [hcaller, hcallee]
  · rw [if_neg hcallee] at hcaller
    cases henclosing : enclosing? language src tree c with
    | none =>
      rw [henclosing] at hcaller
      exact hcaller
    | some s =>
      rw [henclosing] at hcaller
      obtain ⟨e, rfl, hedge⟩ := hcaller
      simpa using hedge

theorem exists_call_of_mem_edgesOf {es : List Edge} {e : Edge} (hg : grammar? language = some g)
    (hes : edgesOf language src tree (symbolsIn language src tree) file = .ok es) (he : e ∈ es)
    (htype : e.type = .calls) :
    ∃ c ∈ (Cursor.root tree).walk, g.calls.contains c.kind ∧
      ∃ s, enclosing? language src tree c = some s ∧ e.source = .str (file.ref s.qualifiedName) := by
  obtain ⟨g', hg', c, hc, new, hnew, he⟩ := exists_of_mem_edgesOf hes he
  obtain rfl := Option.some.inj (hg'.symm.trans hg)
  obtain ⟨s, hs, hsource⟩ := caller_of_edgesAt hg hnew he htype
  obtain ⟨⟨hcall, hcallee⟩, -⟩ := caller?_eq_some_iff.1 hs
  rw [caller?_symbolsIn hnested hapart hc hcall, if_neg hcallee] at hs
  exact ⟨c, hc, hcall, s, hs, hsource⟩

end

/-- If the lines of symbols are apart from those of other calls, then calls start at the symbols
that enclose them. -/
theorem calls_start_at_enclosing (language : Language) (g : Grammar)
    (hg : grammar? language = some g) (src : Source)
    (tree : Tree) (hnested : tree.Nested) (hapart : Apart language g src tree) (file : FileIdentity) :
    let symbols := symbolsIn language src tree
    symbolsOf language src tree = .ok symbols ∧
      (∀ c ∈ (Cursor.root tree).walk, g.calls.contains c.kind → ∃ es,
        edgesAt g src (scopesOf symbols) file c = .ok es ∧
        match enclosing? language src tree c with
        | none => es = []
        | some s => (calleeOf src c ≠ "" → es ≠ []) ∧
          ∀ e ∈ es, e.type = .calls ∧ e.source = .str (file.ref s.qualifiedName)) ∧
      ∀ es, edgesOf language src tree symbols file = .ok es → ∀ e ∈ es, e.type = .calls →
        ∃ c ∈ (Cursor.root tree).walk, g.calls.contains c.kind ∧
          ∃ s, enclosing? language src tree c = some s ∧ e.source = .str (file.ref s.qualifiedName) := by
  have hvisit : (Extract.visitor? language src).isSome := by
    cases language
    case markdown => cases hg
    all_goals rfl
  refine ⟨Extract.symbolsOf_eq_symbolsIn hvisit tree, fun c hc hcall => ?_, fun es hes e he htype => ?_⟩
  · exact edgesAt_of_enclosed hnested hapart hg hc hcall
  · exact exists_call_of_mem_edgesOf hnested hapart hg hes he htype

theorem calls_start_at_enclosing_of_class :
    ∃ es, edgesOf .python Sample.classText Sample.classTree Sample.classSymbols Sample.classFile = .ok es ∧
      es.length = 2 ∧ ∀ e ∈ es, e.type = .calls → e.source = .str "ws/repo/a.py#A.f" := by
  obtain ⟨hsymbols, -, hedges⟩ := calls_start_at_enclosing .python _ rfl Sample.classText Sample.classTree
    (by decide +kernel) (by decide +kernel) Sample.classFile
  have hsame : Sample.classSymbols = symbolsIn .python Sample.classText Sample.classTree := by
    rw [Sample.classSymbols, hsymbols]
    rfl
  have hlength : (edgesOf .python Sample.classText Sample.classTree Sample.classSymbols
      Sample.classFile).toOption.map List.length = some 2 := by
    decide +kernel
  have hnames : ∀ c ∈ (Cursor.root Sample.classTree).walk, c.kind = "call" →
      (enclosing? .python Sample.classText Sample.classTree c).all (·.qualifiedName == "A.f") := by
    decide +kernel
  cases hes : edgesOf .python Sample.classText Sample.classTree Sample.classSymbols Sample.classFile with
  | error f =>
    rw [hes] at hlength
    cases hlength
  | ok es =>
    rw [hes] at hlength
    refine ⟨es, rfl, Option.some.inj hlength, fun e he htype => ?_⟩
    obtain ⟨c, hc, hcall, s, hs, hsource⟩ := hedges es (hsame ▸ hes) e he htype
    have hname := hnames c hc (by simpa using hcall)
    rw [hs, Option.all_some, beq_iff_eq] at hname
    have href : Sample.classFile.ref "A.f" = "ws/repo/a.py#A.f" := by decide
    rw [hsource, hname, href]

end Dependency

end SourceAtlas
