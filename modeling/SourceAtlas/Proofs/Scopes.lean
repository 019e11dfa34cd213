import Mathlib.Data.List.Perm.Basic
import SourceAtlas.Proofs.Orders
import SourceAtlas.Proofs.Reloading

/-!
# What a full-text search depends on

A search counts over the documents in its scope, and nothing that it counts
tells their order. So two indexes with the same documents in scope answer
alike, whatever else they hold and however they came to hold it.
-/

namespace SourceAtlas

open Json (Value Record Key)

/-! ## Outcomes over lists in another order -/

section
variable {α β : Type}

theorem filterM_ok {p : α → Outcome Bool} {q : α → Bool} {as : List α} (h : ∀ a ∈ as, p a = .ok (q a)) :
    as.filterM p = .ok (as.filter q) := by
  have haux : ∀ acc, List.filterAuxM p as acc = .ok ((as.filter q).reverse ++ acc) := by
    induction as with
    | nil => exact fun acc => rfl
    | cons a as ih =>
      intro acc
      obtain ⟨ha, has⟩ := List.forall_mem_cons.1 h
      rw [List.filterAuxM, ha, List.filter_cons]
      cases q a with
      | false => exact ih has acc
      | true =>
        refine (ih has (a :: acc)).trans ?_
        simp
  rw [List.filterM, haux]
  simp [bind, Except.bind, pure, Except.pure]

theorem mapM_congr {f g : α → Outcome β} {as : List α} (h : ∀ a ∈ as, f a = g a) : as.mapM f = as.mapM g := by
  have hid : ∀ f : α → Outcome β, as.mapM f = (as.map f).mapM id := by
    intro f
    rw [List.mapM_map]
    rfl
  rw [hid f, hid g, List.map_congr_left h]

theorem mapM_ok_of_perm {f : α → Outcome β} {as bs : List α} (hperm : as.Perm bs) {xs : List β}
    (h : as.mapM f = .ok xs) : ∃ ys, bs.mapM f = .ok ys ∧ xs.Perm ys := by
  obtain ⟨ys, hys, hback⟩ := List.perm_comp_forall₂ hperm.symm (mapM_ok_iff.1 h)
  exact ⟨ys, mapM_ok_iff.2 hys, hback.symm⟩

theorem mapM_error_of_perm {f : α → Outcome β} {e g : Failure} (hf : ∀ a g, f a = .error g → g = e) {as bs : List α}
    (hperm : as.Perm bs) (h : as.mapM f = .error g) : bs.mapM f = .error g := by
  cases hbs : bs.mapM f with
  | error g' => rw [mapM_error hf h, mapM_error hf hbs]
  | ok ys =>
    obtain ⟨xs, hxs, -⟩ := mapM_ok_of_perm hperm.symm hbs
    rw [h] at hxs
    cases hxs

end

namespace Search

/-! ## Counts -/

namespace TextIndex

variable {s t : Scope}

namespace Scope

theorem size_perm (h : s.members.Perm t.members) : s.size = t.size := h.length_eq

theorem frequency_perm (h : s.members.Perm t.members) (term : String) : s.frequency term = t.frequency term :=
  (h.filter _).length_eq

theorem averageLength_perm (h : s.members.Perm t.members) (name : String) :
    (s.averageLength name : Float) = t.averageLength name := by
  have hright : RightCommutative fun (n : Nat) (m : Key × DocumentTerms) => n + (m.2.field name).total :=
    ⟨fun n a b => Nat.add_right_comm ..⟩
  unfold averageLength
  rw [h.foldl_eq, size_perm h]

theorem termScore_perm (h : s.members.Perm t.members) (k1 b : Float) (name : String) (weight : Int)
    (counts : TermCounts) (term : String) :
    s.termScore k1 b name weight counts term = t.termScore k1 b name weight counts term := by
  unfold termScore
  rw [size_perm h, frequency_perm h, averageLength_perm h]

theorem score_perm (h : s.members.Perm t.members) (k1 b : Float) (query : List String) (d : DocumentTerms) :
    s.score k1 b query d = t.score k1 b query d := by
  unfold score
  simp only [termScore_perm h]

theorem termScore_error {k1 b : Float} {name : String} {weight : Int} {counts : TermCounts}
    {term : String} {g : Failure}
    (h : s.termScore k1 b name weight counts term = .error g) : g = .mishap .divisionByZero := by
  unfold termScore at h
  dsimp only at h
  split at h
  · cases h
    rfl
  · cases h

theorem score_error {k1 b : Float} {query : List String} {d : DocumentTerms} {g : Failure}
    (h : s.score k1 b query d = .error g) : g = .mishap .divisionByZero := by
  refine foldlM_error (fun sum field g h => ?_) h
  refine foldlM_error (fun sum term g h => ?_) h
  rcases bind_eq_error.1 h with h | ⟨x, -, h⟩
  · exact termScore_error h
  · cases h

/-- The scope of a query that these documents pass. -/
def of (es : List (Key × Document)) : Scope := ⟨es.map fun e => (e.1, termsOf e.2)⟩

theorem of_perm {es fs : List (Key × Document)} (h : es.Perm fs) : (of es).members.Perm (of fs).members := h.map _

end Scope

/-! ## Searches -/

def hitAmong (k1 b : Float) (terms : List String) (s : Scope) (e : Key × Document) : Outcome (TextHit Float) := do
  let score ← s.score k1 b terms (termsOf e.2)
  pure { id := e.1, score, fields := e.2 }

def searchAmong (k1 b : Float) (query : String) (limit : Value) (es : List (Key × Document)) :
    Outcome (List (TextHit Float)) := do
  let terms := (tokenize query).eraseDups
  if terms.isEmpty then return []
  if !(← isAbove limit 0) then return []
  if es.isEmpty then return []
  let scored ← es.mapM (hitAmong k1 b terms (.of es))
  let hits ← ranked (fun h => (h.score, h.id)) (scored.filter fun h => isPositive h.score)
  pure (hits.take (← asInt limit).toNat)

end TextIndex

namespace Filters

/-- Whether a document passes; one that the filter cannot tell does not. -/
def passes (f : Filters) (workspace : Value) (d : Document) : Bool :=
  match f.accepts workspace d with
  | .ok b => b
  | .error _ => false

def Decides (f : Filters) (workspace : Value) (m : OrderedMap Key Document) : Prop :=
  ∀ e ∈ m.entries, (f.accepts workspace e.2).toBool = true

variable {f : Filters} {workspace : Value} {d : Document}

theorem passes_iff : f.passes workspace d = true ↔ f.accepts workspace d = .ok true := by
  unfold passes
  cases f.accepts workspace d <;> simp

theorem accepts_eq (h : (f.accepts workspace d).toBool = true) :
    f.accepts workspace d = .ok (f.passes workspace d) := by
  unfold passes
  cases hd : f.accepts workspace d with
  | error g =>
    rw [hd] at h
    cases h
  | ok b => rfl

theorem accepts_of_lists {rs ks : List Value} (hrepos : f.repos = .list rs)
    (hkinds : f.kinds = .list ks) (workspace : Value)
    (d : Document) : (f.accepts workspace d).toBool = true := by
  unfold accepts
  rw [hrepos, hkinds]
  simp only [oneOf, pure_bind]
  split_ifs <;> rfl

theorem decides_of_lists {rs ks : List Value} (hrepos : f.repos = .list rs)
    (hkinds : f.kinds = .list ks) (workspace : Value)
    (m : OrderedMap Key Document) : f.Decides workspace m :=
  fun e _ => accepts_of_lists hrepos hkinds workspace e.2

end Filters

namespace TextIndex

def passing (x : TextIndex Float) (filters : Filters) (workspace : Value) : List (Key × Document) :=
  x.documents.entries.filter fun e => filters.passes workspace e.2

variable {x y : TextIndex Float} {filters : Filters} {workspace : Value}

theorem mem_passing {e : Key × Document} :
    e ∈ x.passing filters workspace ↔ e ∈ x.documents.entries ∧ filters.accepts workspace e.2 = .ok true := by
  unfold passing
  rw [List.mem_filter, Filters.passes_iff]

theorem passing_distinct (x : TextIndex Float) (filters : Filters) (workspace : Value) :
    (x.passing filters workspace).Pairwise fun a b => (a.1 == b.1) = false :=
  x.documents.distinct.filter _

theorem nodup_passing (x : TextIndex Float) (filters : Filters) (workspace : Value) :
    (x.passing filters workspace).Nodup := by
  refine (passing_distinct x filters workspace).imp fun {a b} hab => ?_
  rintro rfl
  exact Bool.false_ne_true (hab.symm.trans BEq.rfl)

theorem scope_eq (hx : x.Counted) (hf : filters.Decides workspace x.documents) :
    x.scope filters workspace = .ok (.of (x.passing filters workspace)) := by
  have hpassed : (x.documents.entries.filterM fun e => filters.accepts workspace e.2) =
      .ok (x.passing filters workspace) :=
    filterM_ok fun e he => Filters.accepts_eq (hf e he)
  have hterms : ∀ e ∈ x.passing filters workspace, (e.1, (x.terms.get? e.1).getD []) = (e.1, termsOf e.2) := by
    intro e he
    rw [hx e.1, OrderedMap.get?_of_mem (mem_passing.1 he).1]
    rfl
  unfold scope Scope.of
  rw [hpassed, ← List.map_congr_left hterms]
  rfl

theorem search_eq (hx : x.Counted) (hf : filters.Decides workspace x.documents) (query : String) (limit : Value) :
    x.search query workspace filters limit = searchAmong x.k1 x.b query limit (x.passing filters workspace) := by
  have hhits : ∀ s : Scope, ((Scope.of (x.passing filters workspace)).members.mapM fun m => (do
      let score ← s.score x.k1 x.b (tokenize query).eraseDups m.2
      pure ({ id := m.1, score, fields := (x.documents.get? m.1).getD [] } : TextHit Float) :
        Outcome (TextHit Float))) =
      (x.passing filters workspace).mapM (hitAmong x.k1 x.b (tokenize query).eraseDups s) := by
    intro s
    unfold Scope.of
    rw [List.mapM_map]
    refine mapM_congr fun e he => ?_
    unfold hitAmong Function.comp
    dsimp only
    rw [OrderedMap.get?_of_mem (mem_passing.1 he).1]
    rfl
  have hnone : (Scope.of (x.passing filters workspace)).members.isEmpty = (x.passing filters workspace).isEmpty :=
    List.isEmpty_map
  unfold search searchAmong
  refine if_congr Iff.rfl rfl ?_
  refine congrArg (isAbove limit 0 >>= ·) (funext fun above => if_congr Iff.rfl rfl ?_)
  rw [scope_eq hx hf]
  refine if_congr (by rw [hnone]) rfl ?_
  exact congrArg (· >>= _) (hhits _)

theorem hitAmong_error {k1 b : Float} {terms : List String} {s : Scope} (e : Key × Document) (g : Failure)
    (h : hitAmong k1 b terms s e = .error g) : g = .mishap .divisionByZero := by
  rcases bind_eq_error.1 h with h | ⟨score, -, h⟩
  · exact Scope.score_error h
  · cases h

theorem id_of_hitAmong {k1 b : Float} {terms : List String} {s : Scope} {e : Key × Document} {hit : TextHit Float}
    (h : hitAmong k1 b terms s e = .ok hit) : hit.id = e.1 := by
  obtain ⟨score, -, h⟩ := bind_eq_ok.1 h
  rw [← pure_eq_ok.1 h]

theorem searchAmong_perm (k1 b : Float) (query : String) (limit : Value) {es fs : List (Key × Document)}
    (hdistinct : es.Pairwise fun a b => (a.1 == b.1) = false) (hids : ∀ e ∈ es, e.1.Defined) (hperm : es.Perm fs) :
    searchAmong k1 b query limit es = searchAmong k1 b query limit fs := by
  have hempty : es.isEmpty = fs.isEmpty := by
    rw [Bool.eq_iff_iff, List.isEmpty_iff_length_eq_zero, List.isEmpty_iff_length_eq_zero, hperm.length_eq]
  unfold searchAmong
  refine if_congr Iff.rfl rfl ?_
  refine congrArg (isAbove limit 0 >>= ·) (funext fun above => if_congr Iff.rfl rfl ?_)
  refine if_congr (by rw [hempty]) rfl ?_
  generalize (tokenize query).eraseDups = terms
  have hhit : hitAmong k1 b terms (.of es) = hitAmong k1 b terms (.of fs) := by
    funext e
    unfold hitAmong
    rw [Scope.score_perm (Scope.of_perm hperm)]
  rw [hhit]
  cases hscored : es.mapM (hitAmong k1 b terms (.of fs)) with
  | error g => rw [mapM_error_of_perm hitAmong_error hperm hscored]
  | ok xs =>
    obtain ⟨ys, hys, hxys⟩ := mapM_ok_of_perm hperm hscored
    have hfrom : ∀ h ∈ xs, ∃ e ∈ es, hitAmong k1 b terms (.of fs) e = .ok h := by
      intro h hh
      exact exists_of_mem_right (mapM_ok_iff.1 hscored) hh
    have hdefined : ∀ h ∈ xs.filter fun h => isPositive h.score, isPositive h.score = true ∧ h.id.Defined := by
      intro h hh
      obtain ⟨hh, hpositive⟩ := List.mem_filter.1 hh
      obtain ⟨e, he, heh⟩ := hfrom h hh
      rw [id_of_hitAmong heh]
      exact ⟨hpositive, hids e he⟩
    -- hits of one id are of one document, so they are one hit
    have hapart : ∀ h ∈ xs.filter fun h => isPositive h.score, ∀ h' ∈ xs.filter fun h => isPositive h.score,
        (h.score == h'.score && h.id == h'.id) = true → h = h' := by
      intro h hh h' hh' hsame
      obtain ⟨e, he, heh⟩ := hfrom h (List.mem_filter.1 hh).1
      obtain ⟨e', he', heh'⟩ := hfrom h' (List.mem_filter.1 hh').1
      have hkeys := (Bool.and_eq_true_iff.1 hsame).2
      rw [id_of_hitAmong heh, id_of_hitAmong heh'] at hkeys
      obtain rfl : e = e' := OrderedMap.eq_of_keys hdistinct he he' hkeys
      exact Except.ok.inj (heh.symm.trans heh')
    have hranked := (ranksBefore_orders.comap fun h : TextHit Float =>
      (h.score, h.id)).sortChecked_eq_of_perm hdefined
      hapart (hxys.filter _) fun h h' => rankable (h.score, h.id) (h'.score, h'.id)
    rw [hys]
    exact congrArg (fun hits : Outcome (List (TextHit Float)) => hits >>= fun hits => do
      pure (hits.take (← asInt limit).toNat)) hranked

/-! ## Indexes in use -/

inductive Operation where
  | add (documents : List Value)
  | delete (p : Document → Bool)
  | load (data : Value)

def Operation.act : Operation → Act (TextIndex Float) Unit
  | add documents => addAll documents
  | delete p => modify (·.delete p)
  | load data => TextIndex.load data

def after (k1 b : Float) (operations : List Operation) : TextIndex Float :=
  operations.foldl (fun x o => (o.act.on x).2) { k1, b }

theorem Operation.keeps {P : TextIndex Float → Prop}
    (hempty : ∀ x, P x → P { x with documents := .empty, terms := .empty })
    (hadd : ∀ (x : TextIndex Float) id d, P x →
      P { x with documents := x.documents.insert id d, terms := x.terms.insert id (termsOf d) })
    (hdelete : ∀ (x : TextIndex Float) p, P x → P (x.delete p)) (o : Operation) : Act.Keeps P o.act := by
  cases o with
  | add documents => exact keeps_addAll hadd documents
  | delete p => exact .modify fun x hx => hdelete x p hx
  | load data =>
    refine .bind (.modify hempty) fun _ => .bind (.ofOutcome _) fun v => .bind (.ofOutcome _) fun documents => ?_
    exact keeps_addAll hadd documents

theorem keeps_after {P : TextIndex Float → Prop}
    (hempty : ∀ x, P x → P { x with documents := .empty, terms := .empty })
    (hadd : ∀ (x : TextIndex Float) id d, P x →
      P { x with documents := x.documents.insert id d, terms := x.terms.insert id (termsOf d) })
    (hdelete : ∀ (x : TextIndex Float) p, P x → P (x.delete p)) {k1 b : Float} (hstart : P { k1, b })
    (operations : List Operation) : P (after k1 b operations) := by
  unfold after
  generalize ({ k1, b } : TextIndex Float) = x at hstart
  induction operations generalizing x with
  | nil => exact hstart
  | cons o operations ih => exact ih _ (o.keeps hempty hadd hdelete x hstart)

theorem counted_after (k1 b : Float) (operations : List Operation) : (after k1 b operations).Counted := by
  apply keeps_after
  · exact fun x _ k => rfl
  · exact fun x id d hx => hx.add id d
  · exact fun x p hx => hx.delete p
  · exact fun k => rfl

theorem parameters_after (k1 b : Float) (operations : List Operation) :
    (after k1 b operations).k1 = k1 ∧ (after k1 b operations).b = b := by
  apply keeps_after (P := fun x => x.k1 = k1 ∧ x.b = b)
  · exact fun x hx => hx
  · exact fun x id d hx => hx
  · exact fun x p hx => hx
  · exact ⟨rfl, rfl⟩

/-- Whatever was done to two indexes, a search tells nothing of them but the documents in scope. -/
theorem search_noninterference (k1 b : Float) (cs ds : List Operation) (query : String) (workspace : Value)
    (filters : Filters) (limit : Value) (hcs : filters.Decides workspace (after k1 b cs).documents)
    (hds : filters.Decides workspace (after k1 b ds).documents)
    (hids : ∀ e ∈ (after k1 b cs).documents.entries, filters.accepts workspace e.2 = .ok true → e.1.Defined)
    (hsame : ∀ e, filters.accepts workspace e.2 = .ok true →
      (e ∈ (after k1 b cs).documents.entries ↔ e ∈ (after k1 b ds).documents.entries)) :
    (after k1 b cs).search query workspace filters limit =
      (after k1 b ds).search query workspace filters limit := by
  obtain ⟨hk1, hb⟩ := parameters_after k1 b cs
  obtain ⟨hk1', hb'⟩ := parameters_after k1 b ds
  have hperm : ((after k1 b cs).passing filters workspace).Perm ((after k1 b ds).passing filters workspace) := by
    refine (List.perm_ext_iff_of_nodup (nodup_passing _ _ _) (nodup_passing _ _ _)).2 fun e => ?_
    rw [mem_passing, mem_passing]
    exact and_congr_left (hsame e)
  have hdefined : ∀ e ∈ (after k1 b cs).passing filters workspace, e.1.Defined := by
    intro e he
    obtain ⟨he, hpasses⟩ := mem_passing.1 he
    exact hids e he hpasses
  rw [search_eq (counted_after k1 b cs) hcs, search_eq (counted_after k1 b ds) hds, hk1, hb, hk1', hb']
  exact searchAmong_perm k1 b query limit (passing_distinct _ _ _) hdefined hperm

/-! Two indexes with the same documents of one workspace, added in different orders. -/

def functionIn (workspace id code : String) : Document :=
  [("id", .str id), ("workspace_id", .str workspace), ("symbol_kind", .str "function"), ("code", .str code)]

def sharing : List Operation :=
  [.add [.obj (functionIn "a" "1" "def f"), .obj (functionIn "b" "2" "def f"), .obj (functionIn "a" "3" "def g")]]

def alone : List Operation :=
  [.add [.obj (functionIn "a" "3" "def g"), .obj (functionIn "a" "4" "def f")],
  .delete (Document.has "id" (.str "4")),
    .add [.obj (functionIn "a" "1" "def f")]]

theorem search_beside_other_workspace :
    (after 1.2 0.75 sharing).search "f" "a" {} (.int 10) = (after 1.2 0.75 alone).search "f" "a" {} (.int 10) := by
  have hsharing : (after 1.2 0.75 sharing).documents.entries = [(.str "1", functionIn "a" "1" "def f"),
      (.str "2", functionIn "b" "2" "def f"), (.str "3", functionIn "a" "3" "def g")] := rfl
  have halone : (after 1.2 0.75 alone).documents.entries = [(.str "3", functionIn "a" "3" "def g"),
      (.str "1", functionIn "a" "1" "def f")] := rfl
  have hother : Filters.accepts {} "a" (functionIn "b" "2" "def f") = .ok false := rfl
  apply search_noninterference
  · exact Filters.decides_of_lists rfl rfl _ _
  · exact Filters.decides_of_lists rfl rfl _ _
  · intro e he _
    have hdefined : ∀ e ∈ (after 1.2 0.75 sharing).documents.entries, e.1.Defined := by
      rw [hsharing]
      decide
    exact hdefined e he
  · intro e hpasses
    rw [hsharing, halone]
    simp only [List.mem_cons, List.not_mem_nil, or_false]
    constructor
    · rintro (rfl | rfl | rfl)
      · exact .inr rfl
      · rw [hother] at hpasses
        cases hpasses
      · exact .inl rfl
    · rintro (rfl | rfl)
      · exact .inr (.inr rfl)
      · exact .inl rfl

end TextIndex

end Search

end SourceAtlas
