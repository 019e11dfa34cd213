import SourceAtlas.Extract
import SourceAtlas.Proofs.FileEdges
import SourceAtlas.Proofs.Lines
import SourceAtlas.Proofs.Nodes

/-!
# Ties in a source

What the nodes of a file tie together can be listed with no index and no edge:
an import ties the file to each of its targets, and a call ties the last symbol
around it to what it calls. The edges of the file show these ties, each once
and in the order in which they come first.
-/

namespace SourceAtlas

open Json (Value)
open Syntax (Source Cursor Tree)

namespace Dependency

@[ext]
structure Tie where
  source : String
  target : String
  type : EdgeType
  deriving DecidableEq

namespace Tie

/-- Imports are certain, calls are not. -/
def confidence (t : Tie) : Float := if t.type = .imports then 1.0 else 0.8

structure Shows (t : Tie) (e : Edge) : Prop where
  source : e.source = .str t.source
  target : e.target = .str t.target
  type : e.type = t.type
  confidence : e.confidence = t.confidence

theorem make_shows {t : Tie} (hsource : t.source ≠ "") (htarget : t.target ≠ "") :
    ∃ e, Edge.make t.source t.target t.type (.float t.confidence) = .ok e ∧ t.Shows e := by
  have htruthy : (Value.str t.source).truthy ∧ (Value.str t.target).truthy := by
    simp [Value.truthy, hsource, htarget]
  have hconfidence : asConfidence (.float t.confidence) = .ok t.confidence := by
    unfold confidence
    split <;> rfl
  refine ⟨⟨t.source, t.target, t.type, t.confidence, htruthy.1, htruthy.2⟩, ?_, rfl, rfl, rfl, rfl⟩
  rw [Edge.make, dif_pos htruthy, hconfidence]
  rfl

theorem Shows.parallel_iff {t u : Tie} {e f : Edge} (h : t.Shows e) (h' : u.Shows f) :
    e.parallel f = true ↔ t = u := by
  rw [Edge.parallel, h.source, h'.source, h.target, h'.target, h.type, h'.type, Tie.ext_iff]
  simp only [Bool.and_eq_true, Value.same_str, Value.str.injEq, beq_iff_eq, and_assoc]

end Tie

/-! ## Ties of a node -/

variable {language : Language} {g : Grammar} {src : Source} {symbols : List Symbol}
  {file : FileIdentity} {c : Cursor}

def importsAt (g : Grammar) (src : Source) (c : Cursor) : List Tie :=
  if g.imports.contains c.kind then (importTargets src c).map fun target => ⟨fileNode, target, .imports⟩ else []

def calleeOf (src : Source) (c : Cursor) : String := Text.squeeze (c.fieldText src "function")

def caller? (g : Grammar) (src : Source) (symbols : List Symbol) (c : Cursor) : Option Symbol :=
  if g.calls.contains c.kind ∧ calleeOf src c ≠ "" then
    lastAround? symbols (c.lines src).first (c.lines src).last
  else none

theorem caller?_eq_some_iff {s : Symbol} : caller? g src symbols c = some s ↔
    (g.calls.contains c.kind ∧ calleeOf src c ≠ "") ∧ lastAround? symbols (c.lines src).first
    (c.lines src).last = some s :=
  Option.ite_none_right_eq_some

def callsAt (g : Grammar) (src : Source) (symbols : List Symbol) (file : FileIdentity) (c : Cursor) : List Tie :=
  ((caller? g src symbols c).map fun s =>
    ⟨file.ref s.qualifiedName, resolveReceiver (calleeOf src c) s.qualifiedName g.receivers, .calls⟩).toList

def tiesAt (g : Grammar) (src : Source) (symbols : List Symbol) (file : FileIdentity) (c : Cursor) : List Tie :=
  importsAt g src c ++ callsAt g src symbols file c

theorem mem_tiesAt {t : Tie} : t ∈ tiesAt g src symbols file c ↔
    (g.imports.contains c.kind ∧ ∃ target ∈ importTargets src c, ⟨fileNode, target, .imports⟩ = t) ∨
      ∃ s, caller? g src symbols c = some s ∧
        ⟨file.ref s.qualifiedName, resolveReceiver (calleeOf src c) s.qualifiedName g.receivers, .calls⟩ = t := by
  rw [tiesAt, List.mem_append, importsAt, callsAt, Option.mem_toList, Option.map_eq_some_iff]
  refine or_congr_left ?_
  by_cases himports : g.imports.contains c.kind
  · rw [if_pos himports, List.mem_map]
    simp only [himports, true_and]
  · rw [if_neg himports]
    exact iff_of_false List.not_mem_nil fun h => himports h.1

def NamesImports (g : Grammar) (src : Source) (c : Cursor) : Prop :=
  g.imports.contains c.kind → "" ∉ importTargets src c

instance : Decidable (NamesImports g src c) := inferInstanceAs (Decidable (_ → _))

/-- No node is an import and a call. -/
theorem not_calls_of_imports {kind : String} (hg : grammar? language = some g) (h : g.imports.contains kind) :
    ¬ g.calls.contains kind := by
  cases language <;> cases hg <;> simp at h ⊢ <;> grind

theorem resolveReceiver_ne_empty {callee : String} (h : callee ≠ "") (enclosing : String)
    (receivers : List String) :
    resolveReceiver callee enclosing receivers ≠ "" := by
  unfold resolveReceiver
  split
  · exact h
  · split
    · exact h
    · intro hempty
      have htext := congrArg String.toList hempty
      simp at htext

theorem ref_ne_empty (file : FileIdentity) (name : String) : file.ref name ≠ "" := by
  intro hempty
  have htext := congrArg String.toList hempty
  simp [FileIdentity.ref, symbolRef] at htext

/-- The index finds the last symbol that has the lines of a node. -/
theorem innermost_lines (symbols : List Symbol) (src : Source) (c : Cursor) :
    (scopesOf symbols).innermost (c.firstRow src + 1) (c.lastRow src + 1) =
      (lastAround? symbols (c.lines src).first (c.lines src).last).map (·.qualifiedName) := by
  have hlast : max ((c.firstRow src : Int) + 1) (c.lastRow src + 1) = (c.lines src).last := by
    simp only [Cursor.lines, Location.ofRows]
    omega
  rw [innermost_scopesOf, hlast]
  rfl

/-- The edges of a node are made of its ties. -/
theorem edgesAt_eq (hg : grammar? language = some g) : edgesAt g src (scopesOf symbols) file c =
    (tiesAt g src symbols file c).mapM fun t => Edge.make t.source t.target t.type (.float t.confidence) := by
  by_cases himports : g.imports.contains c.kind
  · have hnone : callsAt g src symbols file c = [] := by
      rw [callsAt, caller?, if_neg fun h => not_calls_of_imports hg himports h.1]
      rfl
    rw [edgesAt, if_pos himports, tiesAt, hnone, importsAt, if_pos himports, List.append_nil, List.mapM_map]
    rfl
  rw [edgesAt, if_neg himports, tiesAt, importsAt, if_neg himports, List.nil_append, callsAt,
    caller?, innermost_lines]
  by_cases hcalls : g.calls.contains c.kind
  · by_cases hcallee : calleeOf src c = ""
    · have hempty : (Text.squeeze (c.fieldText src "function") == "") = true := beq_iff_eq.2 hcallee
      rw [if_pos hcalls, if_neg fun h => h.2 hcallee]
      simp only [hempty, if_true]
      rfl
    · have hempty : ¬ (Text.squeeze (c.fieldText src "function") == "") = true := by
        rwa [beq_iff_eq]
      rw [if_pos hcalls, if_pos ⟨hcalls, hcallee⟩]
      simp only [hempty]
      cases lastAround? symbols (c.lines src).first (c.lines src).last with
      | none => rfl
      | some s =>
        rw [Option.map_some, Option.map_some, Option.toList_some, List.mapM_cons, List.mapM_nil]
        rfl
  · rw [if_neg hcalls, if_neg fun h => hcalls h.1]
    rfl

theorem forall_tiesAt (hnames : NamesImports g src c) :
    ∀ t ∈ tiesAt g src symbols file c, t.source ≠ "" ∧ t.target ≠ "" := by
  intro t ht
  obtain ⟨himports, target, htarget, rfl⟩ | ⟨s, hs, rfl⟩ := mem_tiesAt.1 ht
  · have hfile : fileNode ≠ "" := by decide
    exact ⟨hfile, fun hempty => hnames himports (hempty ▸ htarget)⟩
  · obtain ⟨⟨-, hcallee⟩, -⟩ := caller?_eq_some_iff.1 hs
    exact ⟨ref_ne_empty _ _, resolveReceiver_ne_empty hcallee _ _⟩

theorem edgesAt_shows (hg : grammar? language = some g) (hnames : NamesImports g src c) :
    ∃ es, edgesAt g src (scopesOf symbols) file c = .ok es ∧
    List.Forall₂ Tie.Shows (tiesAt g src symbols file c) es := by
  rw [edgesAt_eq hg]
  refine mapM_ok_of_forall₂ (List.forall₂_same.2 fun _ _ => rfl) fun t ht u _ htu => ?_
  obtain ⟨hsource, htarget⟩ := forall_tiesAt hnames t ht
  exact htu ▸ Tie.make_shows hsource htarget

theorem edgesAt_shows_calls (hg : grammar? language = some g) (hcall : g.calls.contains c.kind) :
    ∃ es, edgesAt g src (scopesOf symbols) file c = .ok es ∧
    List.Forall₂ Tie.Shows (callsAt g src symbols file c) es := by
  have himports : ¬ g.imports.contains c.kind := fun h => not_calls_of_imports hg h hcall
  obtain ⟨es, hes, hshows⟩ := edgesAt_shows hg fun h => absurd h himports
  rw [tiesAt, importsAt, if_neg himports, List.nil_append] at hshows
  exact ⟨es, hes, hshows⟩

theorem edgesAt_of_caller? {s : Symbol} (hg : grammar? language = some g) (h : caller? g src symbols c = some s) :
    ∃ e, edgesAt g src (scopesOf symbols) file c = .ok [e] ∧
      Tie.Shows ⟨file.ref s.qualifiedName, resolveReceiver (calleeOf src c) s.qualifiedName g.receivers,
        .calls⟩ e := by
  obtain ⟨⟨hcall, -⟩, -⟩ := caller?_eq_some_iff.1 h
  obtain ⟨es, hes, hshows⟩ := edgesAt_shows_calls hg hcall
  rw [callsAt, h] at hshows
  obtain ⟨e, rest, hshown, hrest, rfl⟩ := List.forall₂_cons_left_iff.1 hshows
  obtain rfl := List.forall₂_nil_left_iff.1 hrest
  exact ⟨e, hes, hshown⟩

/-- A call yields one edge if it has a caller, and none otherwise. -/
theorem edgesAt_of_call (hg : grammar? language = some g) (hcall : g.calls.contains c.kind) :
    ∃ es, edgesAt g src (scopesOf symbols) file c = .ok es ∧
      match caller? g src symbols c with
      | none => es = []
      | some s => ∃ e, es = [e] ∧ e.type = .calls ∧ e.source = .str (file.ref s.qualifiedName) := by
  cases hcaller : caller? g src symbols c with
  | none =>
    obtain ⟨es, hes, hshows⟩ := edgesAt_shows_calls hg hcall
    rw [callsAt, hcaller] at hshows
    exact ⟨es, hes, List.forall₂_nil_left_iff.1 hshows⟩
  | some s =>
    obtain ⟨e, he, hshown⟩ := edgesAt_of_caller? hg hcaller
    exact ⟨[e], he, e, rfl, hshown.type, hshown.source⟩

theorem mem_of_caller? {s : Symbol} (h : caller? g src symbols c = some s) : s ∈ symbols := by
  obtain ⟨-, hlast⟩ := caller?_eq_some_iff.1 h
  rw [lastAround?, List.findRev?_eq_find?_reverse] at hlast
  exact List.mem_reverse.1 (List.mem_of_find?_eq_some hlast)

theorem caller_of_edgesAt {es : List Edge} {e : Edge} (hg : grammar? language = some g)
    (h : edgesAt g src (scopesOf symbols) file c = .ok es) (he : e ∈ es) (htype : e.type = .calls) :
    ∃ s, caller? g src symbols c = some s ∧ e.source = .str (file.ref s.qualifiedName) := by
  rw [edgesAt_eq hg] at h
  obtain ⟨t, ht, hmake⟩ := exists_of_mem_right (mapM_ok_iff.1 h) he
  obtain ⟨hsource, -, hsame⟩ := of_make hmake
  obtain ⟨-, target, -, rfl⟩ | ⟨s, hs, rfl⟩ := mem_tiesAt.1 ht
  · cases htype.symm.trans hsame
  · exact ⟨s, hs, hsource⟩

/-! ## Ties without repetition -/

def addTie (known : List Tie) (t : Tie) : List Tie := if t ∈ known then known else known ++ [t]

theorem foldl_addTie (ts known : List Tie) :
    ts.foldl addTie known = known ++ (ts.filter (· ∉ known)).eraseDups := by
  induction ts generalizing known with
  | nil => simp
  | cons t ts ih =>
    rw [List.foldl_cons, ih, addTie]
    by_cases ht : t ∈ known
    · simp [ht]
    · have hrest : ts.filter (· ∉ known ++ [t]) = (ts.filter (· ∉ known)).filter (!· == t) := by
        rw [List.filter_filter]
        refine List.filter_congr fun u _ => Bool.eq_iff_iff.2 ?_
        simp [and_comm]
      rw [if_neg ht, hrest, List.filter_cons_of_pos (by simpa using ht), List.eraseDups_cons, List.append_assoc]
      rfl

theorem nodup_foldl_addTie (ts : List Tie) : ∀ {known : List Tie}, known.Nodup → (ts.foldl addTie known).Nodup := by
  induction ts with
  | nil => exact id
  | cons t ts ih =>
    intro known hknown
    refine ih ?_
    unfold addTie
    split
    · exact hknown
    · rename_i ht
      rw [List.nodup_append_comm]
      exact List.nodup_cons.2 ⟨ht, hknown⟩

theorem foldl_addTie_nil (ts : List Tie) : ts.foldl addTie [] = ts.eraseDups := by
  rw [foldl_addTie]
  simp

theorem nodup_eraseDups (ts : List Tie) : ts.eraseDups.Nodup := by
  rw [← foldl_addTie_nil]
  exact nodup_foldl_addTie ts List.nodup_nil

theorem any_parallel_iff {known : List Tie} {es : List Edge} {t : Tie} {e : Edge}
    (hknown : List.Forall₂ Tie.Shows known es)
    (h : t.Shows e) : es.any e.parallel = true ↔ t ∈ known := by
  rw [List.any_eq_true]
  constructor
  · rintro ⟨f, hf, hparallel⟩
    obtain ⟨u, hu, hshows⟩ := exists_of_mem_right hknown hf
    exact (h.parallel_iff hshows).1 hparallel ▸ hu
  · intro ht
    obtain ⟨f, hf, hshows⟩ := exists_of_mem_left hknown ht
    exact ⟨f, hf, (h.parallel_iff hshows).2 rfl⟩

theorem shows_addNew {known : List Tie} {es : List Edge} {t : Tie} {e : Edge}
    (hknown : List.Forall₂ Tie.Shows known es)
    (h : t.Shows e) : List.Forall₂ Tie.Shows (addTie known t) (addNew es e) := by
  unfold addTie addNew
  by_cases ht : t ∈ known
  · rwa [if_pos ht, if_pos ((any_parallel_iff hknown h).2 ht)]
  · rw [if_neg ht, if_neg fun hany => ht ((any_parallel_iff hknown h).1 hany)]
    exact List.rel_append hknown (.cons h .nil)

/-- Adding edges that show ties adds the ties. -/
theorem shows_foldl_addNew {new : List Tie} {ns : List Edge} (hnew : List.Forall₂ Tie.Shows new ns) :
    ∀ {known : List Tie} {es : List Edge}, List.Forall₂ Tie.Shows known es →
      List.Forall₂ Tie.Shows (new.foldl addTie known) (ns.foldl addNew es) := by
  induction hnew with
  | nil => exact id
  | cons h _ ih => exact fun hknown => ih (shows_addNew hknown h)

/-! ## Ties of a file -/

def tiesOf (g : Grammar) (src : Source) (tree : Tree) (symbols : List Symbol) (file : FileIdentity) : List Tie :=
  (Cursor.root tree).walk.flatMap (tiesAt g src symbols file)

theorem shows_foldlM (hg : grammar? language = some g) {cs : List Cursor}
    (hnames : ∀ c ∈ cs, NamesImports g src c) :
    ∀ {known : List Tie} {es : List Edge}, List.Forall₂ Tie.Shows known es → ∃ out,
      cs.foldlM (fun edges c => do return (← edgesAt g src (scopesOf symbols) file c).foldl addNew edges)
        es = .ok out ∧
        List.Forall₂ Tie.Shows ((cs.flatMap (tiesAt g src symbols file)).foldl addTie known) out := by
  induction cs with
  | nil =>
    intro known es hknown
    exact ⟨es, rfl, hknown⟩
  | cons c cs ih =>
    intro known es hknown
    obtain ⟨hc, hcs⟩ := List.forall_mem_cons.1 hnames
    obtain ⟨ns, hns, hshows⟩ := edgesAt_shows hg hc
    obtain ⟨out, hout, hall⟩ := ih hcs (shows_foldl_addNew hshows hknown)
    refine ⟨out, ?_, ?_⟩
    · rw [List.foldlM_cons, hns]
      exact hout
    · rwa [List.flatMap_cons, List.foldl_append]

/-- The edges of a file are those that show its ties, each once and in the order in which they come first. -/
theorem edgesOf_shows_ties (language : Language) (g : Grammar) (hg : grammar? language = some g) (src : Source)
    (tree : Tree) (hnames : ∀ c ∈ (Cursor.root tree).walk, NamesImports g src c) (symbols : List Symbol)
    (file : FileIdentity) : ∃ es, edgesOf language src tree symbols file = .ok es ∧
      List.Forall₂ Tie.Shows (tiesOf g src tree symbols file).eraseDups es ∧
      (es.map fun e => (e.source, e.target, e.type)).Nodup := by
  obtain ⟨es, hes, hshows⟩ := @shows_foldlM language g src symbols file hg _ hnames [] [] .nil
  rw [foldl_addTie_nil] at hshows
  have hends : es.map (fun e => (e.source, e.target, e.type)) =
      (tiesOf g src tree symbols file).eraseDups.map fun t => (.str t.source, .str t.target, t.type) :=
    map_eq_map_iff.2 (hshows.flip.imp fun e t h => by rw [h.source, h.target, h.type])
  refine ⟨es, ?_, hshows, ?_⟩
  · rw [edgesOf, hg]
    exact hes
  · rw [hends]
    refine List.Nodup.map (fun t u h => ?_) (nodup_eraseDups _)
    simp only [Prod.mk.injEq, Value.str.injEq] at h
    exact Tie.ext h.1 h.2.1 h.2.2

end Dependency

/-! A method that calls another one of its class twice, and a call outside of all symbols. -/

namespace Sample

def classText : Source := ⟨Text.encode "import os\nclass A:\n def f(self):\n  self.g()\n  self.g()\nh()\n"⟩

def memberCall (first : Nat) : Tree :=
  .node { kind := "expression_statement", first, stop := first + 8 } [
    .node { kind := "call", first, stop := first + 8 } [
      .node { kind := "attribute", first, stop := first + 6, field := some "function" } [
        .node { kind := "identifier", first, stop := first + 4, field := some "object" } [],
        token "." (first + 4) (first + 5),
        .node { kind := "identifier", first := first + 5, stop := first + 6, field := some "attribute" } []],
      .node { kind := "argument_list", first := first + 6, stop := first + 8, field := some "arguments" } [
        token "(" (first + 6) (first + 7), token ")" (first + 7) (first + 8)]]]

def classTree : Tree :=
  .node { kind := "module", first := 0, stop := 59 } [
    .node { kind := "import_statement", first := 0, stop := 9 } [
      token "import" 0 6,
      .node { kind := "dotted_name", first := 7, stop := 9, field := some "name" } [
        .node { kind := "identifier", first := 7, stop := 9 } []]],
    .node { kind := "class_definition", first := 10, stop := 54 } [
      token "class" 10 15,
      .node { kind := "identifier", first := 16, stop := 17, field := some "name" } [],
      token ":" 17 18,
      .node { kind := "block", first := 20, stop := 54, field := some "body" } [
        .node { kind := "function_definition", first := 20, stop := 54 } [
          token "def" 20 23,
          .node { kind := "identifier", first := 24, stop := 25, field := some "name" } [],
          .node { kind := "parameters", first := 25, stop := 31, field := some "parameters" } [
            token "(" 25 26, .node { kind := "identifier", first := 26, stop := 30 } [], token ")" 30 31],
          token ":" 31 32,
          .node { kind := "block", first := 35, stop := 54, field := some "body" }
          [memberCall 35, memberCall 46]]]],
    .node { kind := "expression_statement", first := 55, stop := 58 } [
      .node { kind := "call", first := 55, stop := 58 } [
        .node { kind := "identifier", first := 55, stop := 56, field := some "function" } [],
        .node { kind := "argument_list", first := 56, stop := 58, field := some "arguments" } [
          token "(" 56 57, token ")" 57 58]]]]

def classSymbols : List Symbol := (symbolsOf .python classText classTree).toOption.getD []

def classFile : FileIdentity := ⟨"ws", "repo", "a.py"⟩

end Sample

namespace Dependency

theorem edgesOf_shows_ties_of_class :
    ∃ es, edgesOf .python Sample.classText Sample.classTree Sample.classSymbols Sample.classFile = .ok es ∧
      List.Forall₂ Tie.Shows [⟨"file", "os", .imports⟩, ⟨"ws/repo/a.py#A.f", "A.g", .calls⟩] es := by
  obtain ⟨es, hes, hshows, -⟩ :=
    edgesOf_shows_ties .python _ rfl Sample.classText Sample.classTree (by decide +kernel)
    Sample.classSymbols Sample.classFile
  refine ⟨es, hes, ?_⟩
  convert hshows
  decide +kernel

end Dependency

end SourceAtlas
