import SourceAtlas.Proofs.Lookups
import SourceAtlas.Proofs.Relevance
import SourceAtlas.Proofs.RoundTrips
import SourceAtlas.Proofs.Signals

/-!
# Terms that are counted anew

An index is written as its documents alone. Whatever was done to it, its terms
are those of its documents, so that an index which is read back has the same
terms and every search in it finds the same.
-/

namespace SourceAtlas

open Json (Value Record Key)
open Act (Keeps)

/-! ## Values that are computed from others -/

namespace OrderedMap

variable {κ α β : Type} [BEq κ]

theorem keys_mapValues (m : OrderedMap κ α) (f : α → β) : (m.mapValues f).keys = m.keys := by
  simp [keys, mapValues]

theorem entries_mapValues (m : OrderedMap κ α) (f : α → β) :
    (m.mapValues f).entries = m.entries.map fun e => (e.1, f e.2) := rfl

theorem entries_insert (m : OrderedMap κ α) (k : κ) (v : α) :
    (m.insert k v).entries = if m.entries.any (·.1 == k) then replace m.entries k v else m.entries ++ [(k, v)] := by
  unfold insert
  split <;> rfl

theorem mapValues_insert (m : OrderedMap κ α) (f : α → β) (k : κ) (v : α) :
    (m.insert k v).mapValues f = (m.mapValues f).insert k (f v) := by
  have hany : (m.mapValues f).entries.any (·.1 == k) = m.entries.any (·.1 == k) := by
    simp [entries_mapValues, Function.comp_def]
  apply ext_entries
  rw [entries_mapValues, entries_insert, entries_insert, hany]
  split <;> simp [entries_mapValues, replace, apply_ite f]

/-- To drop the keys of the values that pass is to drop those values. -/
theorem filter_doomed [EquivBEq κ] (m : OrderedMap κ α) (f : α → β) (p : α → Bool) :
    (m.mapValues f).filter (fun k _ => !(m.filter fun _ v => p v).keys.contains k) =
      (m.filter fun _ v => !p v).mapValues f := by
  have hdoomed : ∀ e ∈ m.entries, (m.filter fun _ v => p v).keys.contains e.1 = p e.2 := by
    intro e he
    show (m.keep p).keys.contains e.1 = p e.2
    rw [contains_keys, get?_keep, get?_of_mem he, Option.filter_some]
    cases p e.2 <;> rfl
  apply ext_entries
  simp only [filter, mapValues, List.filter_map, Function.comp_def]
  congr 1
  apply List.filter_congr
  intro e he
  rw [← hdoomed e he]
  rfl

end OrderedMap

/-! ## Sorting under other keys -/

theorem sortChecked_map {α β : Type} {f : α → β} {le comparable : α → α → Bool}
    {le' comparable' : β → β → Bool} {xs : List α}
    (hle : ∀ a ∈ xs, ∀ b ∈ xs, le a b = le' (f a) (f b))
    (hcomparable : ∀ a ∈ xs, ∀ b ∈ xs, comparable a b = comparable' (f a) (f b)) :
    sortChecked le' comparable' (xs.map f) = (sortChecked le comparable xs).map (List.map f) := by
  have hneighbours : ((xs.mergeSort le).zip (xs.mergeSort le).tail).all (fun p => comparable' (f p.1) (f p.2)) =
      ((xs.mergeSort le).zip (xs.mergeSort le).tail).all fun p => comparable p.1 p.2 := by
    apply Bool.eq_iff_iff.2
    rw [List.all_eq_true, List.all_eq_true]
    refine forall₂_congr fun p hp => ?_
    obtain ⟨h, h'⟩ := List.of_mem_zip hp
    rw [hcomparable p.1 (List.mem_mergeSort.1 h) p.2 (List.mem_mergeSort.1 (List.mem_of_mem_tail h'))]
  unfold sortChecked
  simp only [← List.map_mergeSort hle, ← List.map_tail, List.zip_map, List.all_map]
  rw [show ((fun p : β × β => comparable' p.1 p.2) ∘ Prod.map f f) = fun p => comparable' (f p.1) (f p.2) from rfl,
    hneighbours]
  split <;> rfl

theorem filterM_map {α β : Type} (f : α → β) (p : β → Outcome Bool) (as : List α) :
    (as.map f).filterM p = (as.filterM fun a => p (f a)).map (List.map f) := by
  have haux : ∀ acc, List.filterAuxM p (as.map f) (acc.map f) =
      (List.filterAuxM (fun a => p (f a)) as acc).map (List.map f) := by
    induction as with
    | nil => exact fun acc => rfl
    | cons a as ih =>
      intro acc
      rw [List.map_cons, List.filterAuxM, List.filterAuxM]
      cases p (f a) with
      | error g => rfl
      | ok keep => cases keep with
        | false => exact ih acc
        | true => exact ih (a :: acc)
  have hstart := haux []
  rw [List.map_nil] at hstart
  rw [List.filterM, List.filterM, hstart]
  cases List.filterAuxM (fun a => p (f a)) as [] with
  | error g => rfl
  | ok bs =>
    show Except.ok _ = Except.ok _
    simp

theorem mapM_of_map {α β γ δ : Type} {f : α → Outcome β} {g : γ → Outcome δ} {u : α → γ} {v : β → δ} {as : List α}
    (h : ∀ a ∈ as, g (u a) = (f a).map v) : (as.map u).mapM g = (as.mapM f).map (List.map v) := by
  induction as with
  | nil => rfl
  | cons a as ih =>
    obtain ⟨ha, has⟩ := List.forall_mem_cons.1 h
    rw [List.map_cons, List.mapM_cons, List.mapM_cons, ha, ih has]
    cases f a with
    | error e => rfl
    | ok b => cases as.mapM f <;> rfl

namespace Json.Key

variable {j j' k k' : Key}

theorem le_congr (h : (j == j') = true) (h' : (k == k') = true) : j.le k = j'.le k' := by
  rw [beq_iff] at h h'
  rw [le, le, h, h']

theorem comparable_congr (h : (j == j') = true) (h' : (k == k') = true) : j.comparable k = j'.comparable k' := by
  rw [beq_iff] at h h'
  rw [comparable, comparable, h, h']

end Json.Key

namespace Search

/-! ## Hits under the ids of their documents -/

def TextHit.refiled (hit : TextHit Float) : TextHit Float := { hit with id := Document.id hit.fields }

theorem ranked_refiled {hits : List (TextHit Float)} (h : ∀ hit ∈ hits, (hit.id == hit.refiled.id) = true) :
    ranked (fun h => (h.score, h.id)) (hits.map TextHit.refiled) =
      (ranked (fun h => (h.score, h.id)) hits).map (List.map TextHit.refiled) := by
  apply sortChecked_map
  · intro a ha b hb
    unfold ranksBefore
    rw [Key.le_congr (h a ha) (h b hb)]
    rfl
  · intro a ha b hb
    unfold rankable
    rw [Key.comparable_congr (h a ha) (h b hb)]
    rfl

namespace TextIndex

namespace Scope

variable {s t : Scope}

/-- Scores are told by the terms of the members, not by their ids. -/
theorem score_of_terms (h : s.members.map Prod.snd = t.members.map Prod.snd) (k1 b : Float) (query : List String)
    (d : DocumentTerms) : s.score k1 b query d = t.score k1 b query d := by
  have hsize : s.size = t.size := by
    simpa [size] using congrArg List.length h
  have hfrequency : ∀ term, s.frequency term = t.frequency term := by
    intro term
    have hfilter := congrArg (List.countP fun d : DocumentTerms => d.any fun f => f.2.contains term) h
    rw [List.countP_map, List.countP_map] at hfilter
    rw [frequency, frequency, ← List.countP_eq_length_filter, ← List.countP_eq_length_filter]
    exact hfilter
  have haverage : ∀ name, (s.averageLength name : Float) = t.averageLength name := by
    intro name
    have htotal := congrArg (List.foldl (fun n (d : DocumentTerms) => n + (d.field name).total) 0) h
    rw [List.foldl_map, List.foldl_map] at htotal
    rw [averageLength, averageLength, htotal, hsize]
  unfold score termScore
  simp only [hsize, hfrequency, haverage]

end Scope

def scoredAmong (k1 b : Float) (terms : List String) (es : List (Key × Document)) :
    Outcome (List (TextHit Float)) :=
  es.mapM (hitAmong k1 b terms (.of es))

def best (limit : Value) (scored : List (TextHit Float)) : Outcome (List (TextHit Float)) := do
  let hits ← ranked (fun h => (h.score, h.id)) (scored.filter fun h => isPositive h.score)
  pure (hits.take (← asInt limit).toNat)

def searchPassed (k1 b : Float) (query : String) (limit : Value) (passed : Outcome (List (Key × Document))) :
    Outcome (List (TextHit Float)) := do
  let terms := (tokenize query).eraseDups
  if terms.isEmpty then return []
  if !(← isAbove limit 0) then return []
  let es ← passed
  if es.isEmpty then return []
  best limit (← scoredAmong k1 b terms es)

variable {x y : TextIndex Float}

theorem search_eq_searchPassed (hx : x.Counted) (query : String) (workspace : Value)
    (filters : Filters) (limit : Value) :
    x.search query workspace filters limit =
      searchPassed x.k1 x.b query limit (x.documents.entries.filterM fun e => filters.accepts workspace e.2) := by
  unfold search searchPassed
  refine if_congr Iff.rfl rfl ?_
  refine congrArg (isAbove limit 0 >>= ·) (funext fun above => if_congr Iff.rfl rfl ?_)
  cases hpassed : x.documents.entries.filterM fun e => filters.accepts workspace e.2 with
  | error g =>
    rw [scope, hpassed]
    rfl
  | ok es =>
    have hget : ∀ e ∈ es, x.documents.get? e.1 = some e.2 := by
      intro e he
      exact OrderedMap.get?_of_mem ((of_filterM hpassed e).1 he).1
    have hmembers : es.map (fun e => (e.1, (x.terms.get? e.1).getD [])) = (Scope.of es).members := by
      apply List.map_congr_left
      intro e he
      rw [hx e.1, hget e he]
      rfl
    have hscope : x.scope filters workspace = .ok (.of es) := by
      rw [scope, hpassed]
      exact congrArg (fun ms => Except.ok (Scope.mk ms)) hmembers
    have hscored : ((Scope.of es).members.mapM fun m => (do
        let score ← (Scope.of es).score x.k1 x.b (tokenize query).eraseDups m.2
        pure ({ id := m.1, score, fields := (x.documents.get? m.1).getD [] } : TextHit Float) :
          Outcome (TextHit Float))) =
        scoredAmong x.k1 x.b (tokenize query).eraseDups es := by
      rw [← hmembers, List.mapM_map]
      apply mapM_congr
      intro e he
      unfold hitAmong Function.comp
      dsimp only
      rw [hx e.1, hget e he]
      rfl
    rw [hscope]
    refine if_congr (by rw [Scope.of, List.isEmpty_map]) rfl ?_
    exact congrArg (· >>= _) hscored

/-! ## Documents under the ids that they have -/

def refile (es : List (Key × Document)) : List (Key × Document) := es.map fun e => (Document.id e.2, e.2)

theorem scoredAmong_refile (k1 b : Float) (terms : List String) (es : List (Key × Document)) :
    scoredAmong k1 b terms (refile es) = (scoredAmong k1 b terms es).map (List.map TextHit.refiled) := by
  have hterms : (Scope.of (refile es)).members.map Prod.snd = (Scope.of es).members.map Prod.snd := by
    simp [Scope.of, refile]
  apply mapM_of_map
  intro e _
  unfold hitAmong
  rw [Scope.score_of_terms hterms]
  cases (Scope.of es).score k1 b terms (termsOf e.2) <;> rfl

theorem same_id_of_scoredAmong {k1 b : Float} {terms : List String} {es : List (Key × Document)}
    {hits : List (TextHit Float)}
    (hes : ∀ e ∈ es, (e.1 == Document.id e.2) = true) (h : scoredAmong k1 b terms es = .ok hits) :
    ∀ hit ∈ hits, (hit.id == hit.refiled.id) = true := by
  intro hit hhit
  obtain ⟨e, he, hhit⟩ := exists_of_mem_right (mapM_ok_iff.1 h) hhit
  obtain ⟨score, -, hhit⟩ := bind_eq_ok.1 hhit
  rw [← pure_eq_ok.1 hhit]
  exact hes e he

theorem best_refiled (limit : Value) {hits : List (TextHit Float)}
    (h : ∀ hit ∈ hits, (hit.id == hit.refiled.id) = true) :
    best limit (hits.map TextHit.refiled) = (best limit hits).map (List.map TextHit.refiled) := by
  have hpositive : (hits.map TextHit.refiled).filter (fun h => isPositive h.score) =
      (hits.filter fun h => isPositive h.score).map TextHit.refiled := List.filter_map
  unfold best
  rw [hpositive, ranked_refiled fun hit hhit => h hit (List.mem_filter.1 hhit).1]
  cases ranked (fun h => (h.score, h.id)) (hits.filter fun h => isPositive h.score) with
  | error g => rfl
  | ok sorted =>
    cases asInt limit with
    | error g => rfl
    | ok n => exact congrArg Except.ok List.map_take.symm

/-- The ids of the documents show in the hits alone. -/
theorem searchPassed_refile (k1 b : Float) (query : String) (limit : Value)
    (passed : Outcome (List (Key × Document)))
    (h : ∀ es, passed = .ok es → ∀ e ∈ es, (e.1 == Document.id e.2) = true) :
    searchPassed k1 b query limit (passed.map refile) =
      (searchPassed k1 b query limit passed).map (List.map TextHit.refiled) := by
  unfold searchPassed
  dsimp only
  generalize (tokenize query).eraseDups = terms
  split
  · rfl
  cases isAbove limit 0 with
  | error g => rfl
  | ok above =>
    cases above with
    | false => rfl
    | true =>
      cases passed with
      | error g => rfl
      | ok es =>
        have hempty : (refile es).isEmpty = es.isEmpty := List.isEmpty_map
        show (if (refile es).isEmpty = true then _ else _) = Except.map _ (if es.isEmpty = true then _ else _)
        rw [hempty, scoredAmong_refile]
        split
        · rfl
        cases hhits : scoredAmong k1 b terms es with
        | error g => rfl
        | ok hits => exact best_refiled limit (same_id_of_scoredAmong (h es rfl) hhits)

/-! ## What every operation keeps -/

structure InStep (x : TextIndex Float) : Prop where
  filed : Filed x.documents
  terms : x.terms = x.documents.mapValues termsOf

theorem InStep.counted (h : x.InStep) : x.Counted := by
  intro k
  rw [h.terms, OrderedMap.get?_mapValues]

theorem InStep.cleared (x : TextIndex Float) : InStep { x with documents := .empty, terms := .empty } :=
  ⟨.empty, rfl⟩

theorem of_add {v : Value} (h : x.add v = .ok y) : ∃ d : Document, v = .obj d ∧ Document.idOf v = .ok d.id ∧
    y = { x with documents := x.documents.insert d.id d, terms := x.terms.insert d.id (termsOf d) } := by
  obtain ⟨id, hid, h⟩ := bind_eq_ok.1 h
  obtain ⟨d, rfl⟩ := obj_of_idOf hid
  obtain rfl := Document.id_eq hid
  exact ⟨d, rfl, hid, (pure_eq_ok.1 h).symm⟩

theorem InStep.add {v : Value} (h : x.InStep) (hy : x.add v = .ok y) : y.InStep := by
  obtain ⟨d, rfl, hid, rfl⟩ := of_add hy
  refine ⟨h.filed.insert hid, ?_⟩
  rw [OrderedMap.mapValues_insert, ← h.terms]

theorem InStep.delete (h : x.InStep) (p : Document → Bool) : (x.delete p).InStep := by
  constructor
  · refine ⟨h.filed.1.filter _, fun e he => ?_⟩
    exact h.filed.2 e (List.mem_filter.1 he).1
  · unfold TextIndex.delete
    rw [h.terms]
    exact OrderedMap.filter_doomed x.documents termsOf p

theorem inStep_addAll (documents : List Value) : Keeps InStep (addAll documents) := by
  refine .forM (fun v x hx => ?_) documents
  simp only [Act.on_bind, Act.on_get, Act.on_ofOutcome]
  cases hv : x.add v with
  | error g => exact hx
  | ok y => exact hx.add hv

theorem Operation.inStep (o : Operation) : Keeps InStep o.act := by
  cases o with
  | add documents => exact inStep_addAll documents
  | delete p => exact .modify fun x hx => hx.delete p
  | load data =>
    refine .bind (.modify fun x _ => .cleared x) fun _ => .bind (.ofOutcome _) fun v =>
      .bind (.ofOutcome _) fun documents => ?_
    exact inStep_addAll documents

theorem InStep.after (k1 b : Float) (operations : List Operation) : (after k1 b operations).InStep := by
  unfold TextIndex.after
  have hstart : InStep { k1, b } := ⟨.empty, rfl⟩
  generalize ({ k1, b } : TextIndex Float) = x at hstart
  induction operations generalizing x with
  | nil => exact hstart
  | cons o operations ih => exact ih _ (o.inStep x hstart)

/-! ## Reading back -/

theorem on_addAll (ds : List Document) (hid : ∀ d ∈ ds, Document.idOf (.obj d) = .ok d.id) (x : TextIndex Float) :
    ∃ terms, (addAll (ds.map .obj)).on x =
      (.ok (), { x with documents := x.documents.insertAll (ds.map fun d => (d.id, d)), terms }) := by
  induction ds generalizing x with
  | nil => exact ⟨x.terms, rfl⟩
  | cons d ds ih =>
    obtain ⟨hd, hds⟩ := List.forall_mem_cons.1 hid
    have hadd : x.add (.obj d) =
        .ok { x with documents := x.documents.insert d.id d, terms := x.terms.insert d.id (termsOf d) } := by
      rw [add, hd]
      rfl
    obtain ⟨terms, hrest⟩ :=
      ih hds { x with documents := x.documents.insert d.id d, terms := x.terms.insert d.id (termsOf d) }
    unfold addAll at hrest ⊢
    rw [List.map_cons, Act.on_forM_cons]
    simp only [Act.on_bind, Act.on_get, Act.on_ofOutcome, hadd, Act.on_set]
    exact ⟨terms, hrest⟩

theorem load_toRecord (hx : x.InStep) (y : TextIndex Float) :
    ∃ z, (load (.obj x.toRecord)).on y = (.ok (), z) ∧ z.InStep ∧ z.documents.entries = refile x.documents.entries ∧
      z.k1 = y.k1 ∧ z.b = y.b := by
  have hdocuments : fieldOr (.obj x.toRecord) "documents" (.list []) = .ok (.list (x.documents.values.map .obj)) :=
    rfl
  have hmembers : members (.list (x.documents.values.map Value.obj)) = .ok (x.documents.values.map .obj) := rfl
  have hid : ∀ d ∈ x.documents.values, Document.idOf (.obj d) = .ok d.id := by
    intro d hd
    obtain ⟨e, he, rfl⟩ := List.mem_map.1 hd
    exact hx.filed.2 e he
  obtain ⟨terms, hread⟩ := on_addAll x.documents.values hid { y with documents := .empty, terms := .empty }
  have hload : (load (.obj x.toRecord)).on y =
      (addAll (x.documents.values.map .obj)).on { y with documents := .empty, terms := .empty } := by
    simp only [load, Act.on_bind, Act.on_modify, Act.on_ofOutcome, hdocuments, hmembers]
    rfl
  refine ⟨_, hload.trans hread, ?_, ?_, rfl, rfl⟩
  · have hkeeps := inStep_addAll (x.documents.values.map .obj) _ (.cleared y)
    rwa [hread] at hkeeps
  · have hrefile : (x.documents.values.map fun d => (d.id, d)) = refile x.documents.entries := by
      simp [OrderedMap.values, refile]
    show (OrderedMap.empty.insertAll _).entries = _
    rw [hrefile]
    exact OrderedMap.entries_insertAll .empty _ hx.filed.1.distinct

/-- The index of terms has the ids of the documents, and under each of them the searched fields with
the tokens that the document has there now, each as often as it does. -/
structure Current (x : TextIndex Float) : Prop where
  ids : x.terms.keys = x.documents.keys
  counts : ∀ e ∈ x.documents.entries, ∃ t, x.terms.get? e.1 = some t ∧ t.map Prod.fst = fieldWeights.map Prod.fst ∧
    ∀ name ∈ fieldWeights.map Prod.fst, ∀ token, (t.field name).get? token =
      if token ∈ tokenize (fieldText e.2 name) then some ((tokenize (fieldText e.2 name)).count token) else none

theorem InStep.current (h : x.InStep) : x.Current := by
  constructor
  · rw [h.terms, OrderedMap.keys_mapValues]
  · intro e he
    refine ⟨termsOf e.2, ?_, rfl, fun name hname token => ?_⟩
    · rw [h.counted e.1, OrderedMap.get?_of_mem he]
      rfl
    · rw [field_termsOf e.2 hname, get?_countTerms]

/-- However an index came about, its terms are those of its documents, and reading what was written
of it gives an index in which every search finds the same. A hit may come under another form of its
id, that in the document, if the document replaced one with an equal id. -/
theorem search_of_reread (k1 b : Float) (operations : List Operation) (y : TextIndex Float) :
    let x := after k1 b operations
    x.Current ∧ ∃ z, (load (.obj x.toRecord)).on { y with k1, b } = (.ok (), z) ∧ z.Current ∧
      z.toRecord = x.toRecord ∧
      ∀ query workspace filters limit,
        z.search query workspace filters limit =
        (x.search query workspace filters limit).map (List.map TextHit.refiled) ∧
        ∀ hits, x.search query workspace filters limit = .ok hits →
          ∀ hit ∈ hits, (hit.id == hit.refiled.id) = true ∧ (hit.id.IsText → hit.refiled = hit) := by
  intro x
  have hx : x.InStep := .after k1 b operations
  obtain ⟨hk1, hb⟩ : x.k1 = k1 ∧ x.b = b := parameters_after k1 b operations
  obtain ⟨z, hload, hz, hentries, hk1', hb'⟩ := load_toRecord hx { y with k1, b }
  refine ⟨hx.current, z, hload, hz.current, ?_, fun query workspace filters limit => ⟨?_, ?_⟩⟩
  · simp [toRecord, OrderedMap.values, hentries, refile]
  · rw [search_eq_searchPassed hz.counted, search_eq_searchPassed hx.counted, hentries, hk1, hb, hk1', hb',
      refile, filterM_map]
    apply searchPassed_refile
    intro es hes e he
    exact hx.filed.1 e ((of_filterM hes e).1 he).1
  · intro hits hhits hit hhit
    have hsame : (hit.id == hit.refiled.id) = true := hx.filed.1.of_get? (of_search hhits hhit).1
    refine ⟨hsame, fun htext => ?_⟩
    have hid : Document.id hit.fields = hit.id := htext.eq_of_beq (BEq.symm hsame)
    rw [TextHit.refiled, hid]

end TextIndex

end Search

end SourceAtlas
