import SourceAtlas.Proofs.Chunks
import SourceAtlas.Search.Filters

/-!
# What filter expressions say

A filter expression names fields and puts a value between quotes after each.
As long as no value has a quote in it, fields and values can be read back from
the expression, so two filters with the same expression pass the same
documents. A quote within a value ends the value for a reader, who takes what
follows for further parts of the filter.
-/

namespace SourceAtlas.Search

open Json (Value)

/-! ## Reading expressions -/

/-- How far an expression was read, between values or within one. What was found so far comes with
the letters of the field that is next. -/
inductive Reading where
  | between (found : List (String × String)) (field : List Char)
  | within (found : List (String × String)) (field value : List Char)

namespace Reading

/-- The words between the parts of an expression have none of the letters of fields. -/
def isFieldLetter (c : Char) : Bool := c.isLower || c == '_'

def step : Reading → Char → Reading
  | between found field, c =>
    if c = '"' then within found field []
    else if isFieldLetter c then between found (field ++ [c])
    else between found field
  | within found field value, c =>
    if c = '"' then between (found ++ [(String.ofList field, String.ofList value)]) []
    else within found field (value ++ [c])

theorem foldl_letters {cs : List Char} (h : ∀ c ∈ cs, c ≠ '"' ∧ isFieldLetter c = true)
    (found : List (String × String))
    (field : List Char) : cs.foldl step (between found field) = between found (field ++ cs) := by
  induction cs generalizing field with
  | nil => simp
  | cons c cs ih =>
    obtain ⟨⟨hc, hletter⟩, hcs⟩ := List.forall_mem_cons.1 h
    rw [List.foldl_cons, step, if_neg hc, if_pos hletter, ih hcs]
    simp

theorem foldl_marks {cs : List Char} (h : ∀ c ∈ cs, c ≠ '"' ∧ isFieldLetter c = false)
    (found : List (String × String))
    (field : List Char) : cs.foldl step (between found field) = between found field := by
  induction cs with
  | nil => rfl
  | cons c cs ih =>
    obtain ⟨⟨hc, hletter⟩, hcs⟩ := List.forall_mem_cons.1 h
    rw [List.foldl_cons, step, if_neg hc, if_neg (by simp [hletter]), ih hcs]

theorem foldl_value {cs : List Char} (h : '"' ∉ cs) (found : List (String × String)) (field value : List Char) :
    cs.foldl step (within found field value) = within found field (value ++ cs) := by
  induction cs generalizing value with
  | nil => simp
  | cons c cs ih =>
    obtain ⟨hc, hcs⟩ := not_or.1 (mt List.mem_cons.2 h)
    rw [List.foldl_cons, step, if_neg (Ne.symm hc), ih hcs]
    simp

end Reading

open Reading (isFieldLetter)

def Says (s : String) (ps : List (String × String)) : Prop :=
  ∀ found, s.toList.foldl Reading.step (.between found []) = .between (found ++ ps) []

section
variable {s t : String} {ps qs : List (String × String)}

theorem Says.unique (hp : Says s ps) (hq : Says s qs) : ps = qs := by
  have h := (hp []).symm.trans (hq [])
  simpa using h

theorem Says.append (hs : Says s ps) (ht : Says t qs) : Says (s ++ t) (ps ++ qs) := fun found => by
  rw [String.toList_append, List.foldl_append, hs, ht, List.append_assoc]

theorem says_nothing (h : ∀ c ∈ s.toList, c ≠ '"' ∧ isFieldLetter c = false) : Says s [] := fun found => by
  rw [Reading.foldl_marks h, List.append_nil]

theorem Says.joined (sep : String) (hsep : Says sep []) {ts : List String} {pss : List (List (String × String))}
    (h : List.Forall₂ Says ts pss) : Says (String.intercalate sep ts) pss.flatten := by
  induction h with
  | nil => exact says_nothing (by simp)
  | @cons t ps ts pss ht h ih =>
    cases h with
    | nil => simpa using ht
    | @cons u qs us qss hu h =>
      rw [String.intercalate_cons_cons]
      have hall := (ht.append hsep).append ih
      rwa [List.append_nil] at hall

theorem says_equals {field v : String} (hfield : ∀ c ∈ field.toList, c ≠ '"' ∧ isFieldLetter c = true)
    (hv : '"' ∉ v.toList) : Says (Filters.equals field (.str v)) [(field, v)] := fun found => by
  have hmarks : ∀ c ∈ [' ', '=', ' '], c ≠ '"' ∧ isFieldLetter c = false := by simp [isFieldLetter]
  have hchars : (Filters.equals field (.str v)).toList = field.toList ++ [' ', '=', ' '] ++ ['"'] ++
      v.toList ++ ['"'] := by
    simp [Filters.equals, Json.plain, String.toList_append]
  rw [hchars]
  simp only [List.foldl_append, Reading.foldl_letters hfield, Reading.foldl_marks hmarks, List.foldl_cons,
    List.foldl_nil, Reading.step, if_true, Reading.foldl_value hv, List.nil_append, String.ofList_toList]

end

/-! ## Scopes -/

structure Scope where
  workspace : Option String := none
  repos : List String := []
  language : Option String := none
  kinds : List String := []

namespace Scope

def filters (s : Scope) : Filters :=
  { repos := .texts s.repos, language := .ofText? s.language, kinds := .texts s.kinds }

def expression (s : Scope) : Outcome (Option String) := s.filters.expression (.ofText? s.workspace)

def accepts (s : Scope) (d : Document) : Outcome Bool := s.filters.accepts (.ofText? s.workspace) d

/-- The fields that have to have a value, each with the values that it may have. A language without
content is none. -/
def demands (s : Scope) : List (String × String) :=
  s.workspace.toList.map (Prod.mk "workspace_id") ++ s.repos.map (Prod.mk "repo_id") ++
    (s.language.filter (· != "")).toList.map (Prod.mk "language") ++ s.kinds.map (Prod.mk "symbol_kind")

def Quoteless (s : Scope) : Prop := ∀ p ∈ s.demands, '"' ∉ p.2.toList

/-! ## What the expression of a scope says -/

theorem says_given (field : String) {o : Option String}
    (hfield : ∀ c ∈ field.toList, c ≠ '"' ∧ isFieldLetter c = true) (ho : ∀ v, o = some v → '"' ∉ v.toList) :
    ∃ pss, List.Forall₂ Says (o.toList.map fun v => Filters.equals field (.str v)) pss ∧
      pss.flatten = o.toList.map (Prod.mk field) := by
  cases o with
  | none => exact ⟨[], .nil, rfl⟩
  | some v => exact ⟨[[(field, v)]], .cons (says_equals hfield (ho v rfl)) .nil, rfl⟩

theorem says_anyOf (field : String) {vs : List String}
    (hfield : ∀ c ∈ field.toList, c ≠ '"' ∧ isFieldLetter c = true) (hvs : ∀ v ∈ vs, '"' ∉ v.toList) :
    ∃ ts pss, Filters.anyOf field (.texts vs) = .ok ts ∧ List.Forall₂ Says ts pss ∧
      pss.flatten = vs.map (Prod.mk field) := by
  cases vs with
  | nil => exact ⟨[], [], rfl, .nil, rfl⟩
  | cons v vs =>
    have hall : List.Forall₂ Says (((v :: vs).map Value.str).map (Filters.equals field))
        ((v :: vs).map fun v => [(field, v)]) := by
      rw [List.map_map, List.forall₂_map_left_iff, List.forall₂_map_right_iff, List.forall₂_same]
      exact fun u hu => says_equals hfield (hvs u hu)
    have hinner := Says.joined " OR " (says_nothing (by simp [isFieldLetter])) hall
    have hopen : Says "(" [] := says_nothing (by simp [isFieldLetter])
    have hclose : Says ")" [] := says_nothing (by simp [isFieldLetter])
    refine ⟨_, [_], rfl, .cons ((hopen.append hinner).append hclose) .nil, ?_⟩
    simp [← List.flatMap_def, ← List.map_eq_flatMap]

theorem expression_eq (s : Scope) : s.expression = (do
    let repos ← Filters.anyOf "repo_id" (.texts s.repos)
    let kinds ← Filters.anyOf "symbol_kind" (.texts s.kinds)
    let ts := s.workspace.toList.map (fun v => Filters.equals "workspace_id" (.str v)) ++ repos ++
      (s.language.filter (· != "")).toList.map (fun v => Filters.equals "language" (.str v)) ++ kinds
    Pure.pure (if ts.isEmpty then none else some (String.intercalate " AND " ts))) := by
  obtain ⟨workspace, repos, language, kinds⟩ := s
  cases language with
  | none => cases workspace <;> rfl
  | some l =>
    by_cases hl : l = ""
    · subst hl
      cases workspace <;> rfl
    · have htruthy : (Value.ofText? (some l)).truthy = true := bne_iff_ne.2 hl
      have hfilter : (some l).filter (· != "") = some l := by simp [hl]
      simp only [expression, filters, Filters.expression, htruthy, hfilter]
      cases workspace <;> rfl

/-- The expression of a scope joins its parts, and says what the scope demands. -/
theorem says_expression {s : Scope} (h : s.Quoteless) :
    ∃ ts pss, s.expression = .ok (if ts.isEmpty then none else some (String.intercalate " AND " ts)) ∧
      List.Forall₂ Says ts pss ∧ pss.flatten = s.demands := by
  obtain ⟨ws, hws, hworkspace⟩ := says_given "workspace_id" (o := s.workspace) (by simp [isFieldLetter]) fun v hv =>
    h ("workspace_id", v) (by simp [demands, hv])
  obtain ⟨ts, rs, hts, hrs, hrepos⟩ := says_anyOf "repo_id" (by simp [isFieldLetter]) fun v (hv : v ∈ s.repos) =>
    h ("repo_id", v) (by simp [demands, hv])
  obtain ⟨ls, hls, hlanguage⟩ := says_given "language" (o := s.language.filter (· != ""))
    (by simp [isFieldLetter]) fun v hv => h ("language", v) (by simp [demands, hv])
  obtain ⟨us, ks, hus, hks, hkinds⟩ :=
    says_anyOf "symbol_kind" (by simp [isFieldLetter]) fun v (hv : v ∈ s.kinds) =>
    h ("symbol_kind", v) (by simp [demands, hv])
  refine ⟨_, ws ++ rs ++ ls ++ ks, ?_, List.rel_append (List.rel_append (List.rel_append hws hrs) hls) hks, ?_⟩
  · rw [expression_eq, hts, hus]
    rfl
  · simp only [List.flatten_append, hworkspace, hrepos, hlanguage, hkinds, demands]

/-- Scopes without quotes that have one expression demand the same. -/
theorem demands_eq_of_expression_eq {s t : Scope} (hs : s.Quoteless) (ht : t.Quoteless)
    (h : s.expression = t.expression) : s.demands = t.demands := by
  obtain ⟨ts, pss, hexpression, hsays, hdemands⟩ := says_expression hs
  obtain ⟨us, qss, hexpression', hsays', hdemands'⟩ := says_expression ht
  have hand : Says " AND " [] := says_nothing (by simp [isFieldLetter])
  rw [hexpression, hexpression'] at h
  rw [← hdemands, ← hdemands']
  cases hsays with
  | nil =>
    cases hsays' with
    | nil => rfl
    | cons _ _ => cases h
  | cons hp hps =>
    cases hsays' with
    | nil => cases h
    | cons hq hqs =>
      have hsame := Option.some.inj (Except.ok.inj h)
      exact (Says.joined _ hand (.cons hp hps)).unique (hsame ▸ Says.joined _ hand (.cons hq hqs))

/-! ## What scopes accept -/

theorem values_of_demands (s : Scope) (field : String) :
    (s.demands.filter (·.1 == field)).map Prod.snd =
      (if "workspace_id" == field then s.workspace.toList else []) ++
        (if "repo_id" == field then s.repos else []) ++
        (if "language" == field then (s.language.filter (· != "")).toList else []) ++
        (if "symbol_kind" == field then s.kinds else []) := by
  have hpart : ∀ (name : String) (vs : List String),
      ((vs.map (Prod.mk name)).filter (·.1 == field)).map Prod.snd = if name == field then vs else [] := by
    intro name vs
    rw [List.filter_map, List.map_map]
    by_cases h : name = field <;> simp [Function.comp_def, h]
  simp only [demands, List.filter_append, List.map_append, hpart]

theorem accepts_eq_of_demands_eq {s t : Scope} (h : s.demands = t.demands) (d : Document) :
    s.accepts d = t.accepts d := by
  have hvalues : ∀ field, (s.demands.filter (·.1 == field)).map Prod.snd =
      (t.demands.filter (·.1 == field)).map Prod.snd := fun field => by rw [h]
  simp only [values_of_demands] at hvalues
  have hinj : ∀ {o p : Option String}, o.toList = p.toList → o = p := by
    rintro (_ | o) (_ | p) h <;> simp_all
  have hworkspace : s.workspace = t.workspace := hinj (by simpa using hvalues "workspace_id")
  have hrepos : s.repos = t.repos := by simpa using hvalues "repo_id"
  have hlanguage : s.language.filter (· != "") = t.language.filter (· != "") :=
    hinj (by simpa using hvalues "language")
  have hkinds : s.kinds = t.kinds := by simpa using hvalues "symbol_kind"
  -- a language without content demands nothing
  have hlanguages : ∀ l : Option String,
      ((Value.ofText? l).truthy && !Document.has "language" (.ofText? l) d) =
        (l.filter (· != "")).any fun l => !Document.has "language" (.str l) d := by
    intro l
    cases l with
    | none => rfl
    | some l => by_cases hl : l = "" <;> simp [Value.ofText?, Value.ofOption, Value.truthy, Option.filter, hl]
  simp only [accepts, filters, Filters.accepts, hlanguages, hworkspace, hrepos, hlanguage, hkinds]
  rfl

/-- As long as no value has a quote in it, two scopes with one expression accept the same documents. -/
theorem accepts_eq_of_expression_eq {s t : Scope} (hs : s.Quoteless) (ht : t.Quoteless)
    (h : s.expression = t.expression) (d : Document) : s.accepts d = t.accepts d :=
  accepts_eq_of_demands_eq (demands_eq_of_expression_eq hs ht h) d

theorem accepts_eq_beside_empty_language :
    let s : Scope := { workspace := "ws", repos := ["r1", "r2"], language := "", kinds := ["method"] }
    let t : Scope := { workspace := "ws", repos := ["r1", "r2"], kinds := ["method"] }
    s.expression = .ok (some
      "workspace_id = \"ws\" AND (repo_id = \"r1\" OR repo_id = \"r2\") AND (symbol_kind = \"method\")") ∧
    ∀ d, s.accepts d = t.accepts d := by
  intro s t
  exact ⟨rfl, accepts_eq_of_expression_eq (by unfold Quoteless; decide) (by unfold Quoteless; decide) rfl⟩

/-! ## Quotes -/

/-- A workspace whose name goes on after a quote as an expression does has the expression of another
workspace and a language, but not their documents. -/
theorem forged (workspace : String) {language : String} (h : language ≠ "") :
    let s : Scope := { workspace := workspace ++ "\" AND language = \"" ++ language }
    let t : Scope := { workspace, language }
    s.expression = t.expression ∧
    ∀ d, Document.ofWorkspace workspace d = true → Document.has "language" language d = true →
      s.accepts d = .ok false ∧ t.accepts d = .ok true := by
  intro s t
  refine ⟨?_, fun d hworkspace hlanguage => ⟨?_, ?_⟩⟩
  · have hgiven : (some language).filter (· != "") = some language := by simp [h]
    have hquote : "\" AND language = \"" = "\"" ++ (" AND " ++ ("language" ++ " = \"")) := rfl
    rw [expression_eq, expression_eq, hgiven]
    simp [-String.reduceAppend, s, t, hquote, Filters.anyOf, Value.texts, Value.truthy, Filters.equals, Json.plain,
      String.append_assoc]
  · have hother : Document.ofWorkspace (workspace ++ "\" AND language = \"" ++ language : String) d = false := by
      rw [Document.ofWorkspace, Document.has, (Json.Value.same_str _ _).1 hworkspace, Bool.eq_false_iff, Ne,
        Json.Value.same_str, Value.str.injEq, ← String.toList_inj]
      intro hsame
      simpa [String.toList_append] using congrArg List.length hsame
    simp only [s, accepts, filters, Filters.accepts, Value.ofText?, Value.ofOption, Value.same,
      Value.number?, hother]
    rfl
  · simp only [t, accepts, filters, Filters.accepts, Value.ofText?, Value.ofOption, hworkspace, hlanguage]
    simp [Value.texts, Value.truthy, pure_eq_ok]

theorem scopes_confused :
    let s : Scope := { workspace := "ws\" AND language = \"python" }
    let t : Scope := { workspace := "ws", language := "python" }
    let d : Document := [("workspace_id", "ws"), ("language", "python")]
    s.expression = t.expression ∧ s.accepts d = .ok false ∧ t.accepts d = .ok true := by
  intro s t d
  exact ⟨rfl, rfl, rfl⟩

end Scope

end SourceAtlas.Search
