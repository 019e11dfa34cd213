import SourceAtlas.Proofs.Parts
import SourceAtlas.Proofs.RoundTrips
import SourceAtlas.Proofs.Scopes
import SourceAtlas.Proofs.Uses
import SourceAtlas.Atlas.Hybrid

/-!
# What the signals of a search find

A hybrid search ranks the ids that its signals find: points, texts, and what
the dependencies of texts stand for. It changes nothing but the table of the
vectors.
-/

namespace SourceAtlas

open Json (Value Key)

/-! ## Loops that only read -/

theorem of_filterM {α : Type} {p : α → Outcome Bool} {as bs : List α} (h : as.filterM p = .ok bs) (b : α) :
    b ∈ bs ↔ b ∈ as ∧ p b = .ok true := by
  have haux : ∀ (as acc : List α) {bs : List α}, List.filterAuxM p as acc = .ok bs →
      (b ∈ bs ↔ b ∈ acc ∨ b ∈ as ∧ p b = .ok true) := by
    intro as
    induction as with
    | nil =>
      intro acc bs h
      obtain rfl := pure_eq_ok.1 h
      simp
    | cons a as ih =>
      intro acc bs h
      rw [List.filterAuxM] at h
      obtain ⟨keep, ha, h⟩ := bind_eq_ok.1 h
      rw [ih _ h]
      cases keep with
      | false =>
        have hne : b = a → p b ≠ .ok true := by
          rintro rfl hb
          rw [ha] at hb
          cases hb
        simp only [cond_false, List.mem_cons]
        grind
      | true =>
        simp only [cond_true, List.mem_cons]
        grind
  rw [List.filterM] at h
  obtain ⟨cs, hcs, h⟩ := bind_eq_ok.1 h
  obtain rfl := pure_eq_ok.1 h
  rw [List.mem_reverse, haux as [] hcs]
  simp

namespace Act

variable {σ α β : Type}

def Reads (x : Act σ α) : Prop := ∀ s, (x.on s).2 = s

theorem Reads.on_eq {x : Act σ α} (hx : Reads x) (s : σ) : x.on s = ((x.on s).1, s) := Prod.ext rfl (hx s)

theorem Reads.bind {x : Act σ α} {f : α → Act σ β} (hx : Reads x) (hf : ∀ a, Reads (f a)) : Reads (x >>= f) := by
  intro s
  rw [on_bind, hx.on_eq]
  cases (x.on s).1 with
  | error e => rfl
  | ok a => exact hf a s

theorem Reads.mapM {f : α → Act σ β} (hf : ∀ a, Reads (f a)) : ∀ as : List α, Reads (as.mapM f)
  | [] => fun _ => rfl
  | a :: as => by
    rw [List.mapM_cons]
    exact .bind (hf a) fun b => .bind (.mapM hf as) fun bs _ => rfl

theorem of_mapM {f : α → Act σ β} (hf : ∀ a, Reads (f a)) : ∀ {as : List α} {bs : List β} {s t : σ},
    (as.mapM f).on s = (.ok bs, t) → t = s ∧ List.Forall₂ (fun a b => (f a).on s = (.ok b, s)) as bs
  | [], bs, s, t, h => by
    obtain ⟨hbs, rfl⟩ := Prod.mk.inj h
    obtain rfl := Except.ok.inj hbs
    exact ⟨rfl, .nil⟩
  | a :: as, bs, s, t, h => by
    rw [List.mapM_cons] at h
    obtain ⟨b, m, hb, hrest⟩ := bind_ok h
    have hm : m = s := by
      rw [← hf a s, hb]
    rw [hm] at hb hrest
    obtain ⟨cs, n, hcs, hlast⟩ := bind_ok hrest
    obtain ⟨hn, hall⟩ := of_mapM hf hcs
    rw [on_pure] at hlast
    obtain ⟨hbs, rfl⟩ := Prod.mk.inj hlast
    obtain rfl := Except.ok.inj hbs
    exact ⟨hn, .cons hb hall⟩

theorem on_filterM (p : α → Outcome Bool) (as : List α) (s : σ) :
    (as.filterM fun a => (ofOutcome (p a) : Act σ Bool)).on s = (as.filterM p, s) := by
  have haux : ∀ acc, (List.filterAuxM (fun a => (ofOutcome (p a) : Act σ Bool)) as acc).on s =
      (List.filterAuxM p as acc, s) := by
    induction as with
    | nil => exact fun acc => rfl
    | cons a as ih =>
      intro acc
      rw [List.filterAuxM, List.filterAuxM, on_bind, on_ofOutcome]
      cases p a with
      | error f => rfl
      | ok keep => exact ih _
  rw [List.filterM, List.filterM, on_bind, haux]
  cases List.filterAuxM p as [] <;> rfl

end Act

/-! ## Fusing -/

namespace Search

section
variable {α : Type} [Scalar α]

theorem isSome_merge (m : Merged α) (id : Key) (payload : Value) (f : Signals α → Signals α) (k : Key) :
    ((merge m id payload f).get? k).isSome = ((id == k) || (m.get? k).isSome) := by
  rw [merge, OrderedMap.get?_update]
  cases id == k <;> simp

omit [Scalar α] in
theorem isSome_foldl_merge {β : Type} {g : Merged α → β → Merged α} {id : β → Key} (k : Key)
    (hg : ∀ m b, ((g m b).get? k).isSome = ((id b == k) || (m.get? k).isSome)) (bs : List β) (m : Merged α) :
    ((bs.foldl g m).get? k).isSome = true ↔ (∃ b ∈ bs, (id b == k) = true) ∨ (m.get? k).isSome = true := by
  induction bs generalizing m with
  | nil => simp
  | cons b bs ih => rw [List.foldl_cons, ih, hg, Bool.or_eq_true, List.exists_mem_cons_iff, or_left_comm, or_assoc]

theorem isSome_foldlM_merge {rs : List (Related α)} {m n : Merged α} (k : Key)
    (h : rs.foldlM (fun (m : Merged α) r => do
      let c ← closeness r.distance
      pure (merge m r.id .null fun s => { s with graph := larger s.graph c })) m = (.ok n : Outcome (Merged α))) :
    (n.get? k).isSome = true ↔ (∃ r ∈ rs, (r.id == k) = true) ∨ (m.get? k).isSome = true := by
  induction rs generalizing m with
  | nil =>
    obtain rfl := pure_eq_ok.1 h
    simp
  | cons r rs ih =>
    rw [List.foldlM_cons] at h
    obtain ⟨m', hm', h⟩ := bind_eq_ok.1 h
    obtain ⟨c, -, hm'⟩ := bind_eq_ok.1 hm'
    obtain rfl := pure_eq_ok.1 hm'
    rw [ih h, isSome_merge, Bool.or_eq_true, List.exists_mem_cons_iff, or_left_comm, or_assoc]

theorem ranked_of_sorted {β : Type} {place : β → α × Key} {xs : List β}
    (hsorted : xs.Pairwise fun a b => ranksBefore (place a) (place b) = true)
    (hrankable : ((xs.zip xs.tail).all fun p => rankable (place p.1) (place p.2)) = true) :
    ranked place xs = .ok xs := by
  rw [ranked, sortChecked, List.mergeSort_of_pairwise hsorted]
  exact if_pos hrankable

def merged (vector fulltext : List (Hit α)) (related : List (Related α)) : Outcome (Merged α) :=
  related.foldlM (fun m r => do
    let c ← closeness r.distance
    pure (merge m r.id .null fun s => { s with graph := larger s.graph c }))
    (fulltext.foldl (fun m h => merge m h.id h.payload fun s => { s with fulltext := h.score / ceiling fulltext })
      (vector.foldl (fun m h => merge m h.id h.payload fun s => { s with vector := h.score }) .empty))

theorem fuse_eq (vector fulltext : List (Hit α)) (related : List (Related α)) (w : Signals α) :
    fuse vector fulltext related w =
      merged vector fulltext related >>= fun m => ranked (fun f => (f.score, f.id)) (m.entries.map (weigh w)) := rfl

/-- What is fused has the ids of the signals, and no others. -/
theorem id_of_fuse {vector fulltext : List (Hit α)} {related : List (Related α)} {w : Signals α}
    {rs : List (Fused α)} (h : fuse vector fulltext related w = .ok rs) (k : Key) :
    (∃ r ∈ rs, (r.id == k) = true) ↔ (∃ hit ∈ vector, (hit.id == k) = true) ∨
      (∃ hit ∈ fulltext, (hit.id == k) = true) ∨ ∃ r ∈ related, (r.id == k) = true := by
  rw [fuse_eq] at h
  obtain ⟨m, hm, h⟩ := bind_eq_ok.1 h
  have hids : (∃ r ∈ rs, (r.id == k) = true) ↔ (m.get? k).isSome = true := by
    simp only [(sortChecked_perm h).mem_iff, List.mem_map]
    rw [← OrderedMap.contains_keys, List.contains_iff_exists_mem_beq]
    constructor
    · rintro ⟨r, ⟨e, he, rfl⟩, hk⟩
      exact ⟨e.1, List.mem_map_of_mem he, BEq.symm hk⟩
    · rintro ⟨j, hj, hk⟩
      obtain ⟨e, he, rfl⟩ := List.mem_map.1 hj
      exact ⟨_, ⟨e, he, rfl⟩, BEq.symm hk⟩
  rw [hids, isSome_foldlM_merge k hm, isSome_foldl_merge k fun m b => isSome_merge m b.id b.payload _ k,
    isSome_foldl_merge k fun m b => isSome_merge m b.id b.payload _ k]
  have hnone : ((OrderedMap.empty : Merged α).get? k).isSome = false := rfl
  simp only [hnone, Bool.false_eq_true, or_false]
  exact ⟨fun h => h.elim (fun h => .inr (.inr h)) fun h => h.elim (fun h => .inr (.inl h)) .inl,
    fun h => h.elim (fun h => .inr (.inr h)) fun h => h.elim (fun h => .inr (.inl h)) .inl⟩

end

/-! ## Points and texts -/

namespace VectorIndex

theorem of_nearest {x : VectorIndex} {ranked : List (Key × Float)} {workspace : Value} {filters : Filters} {n : Nat}
    {hits : List VectorHit} (h : x.nearest ranked workspace filters n = .ok hits) {hit : VectorHit}
    (hhit : hit ∈ hits) :
    ∃ k p, x.points.get? k = some p ∧ hit.id = p.id ∧ hit.payload = p.payload ∧
      filters.accepts workspace p.payload = .ok true := by
  induction ranked generalizing n hits with
  | nil =>
    unfold nearest at h
    obtain rfl := pure_eq_ok.1 h
    cases hhit
  | cons e ranked ih =>
    obtain ⟨id, score⟩ := e
    cases n with
    | zero =>
      unfold nearest at h
      obtain rfl := pure_eq_ok.1 h
      cases hhit
    | succ n =>
      unfold nearest at h
      cases hp : x.points.get? id with
      | none =>
        rw [hp] at h
        cases h
      | some p =>
        rw [hp] at h
        obtain ⟨passes, hpasses, h⟩ := bind_eq_ok.1 h
        cases passes with
        | false => exact ih h hhit
        | true =>
          obtain ⟨rest, hrest, h⟩ := bind_eq_ok.1 h
          obtain rfl := pure_eq_ok.1 h
          rcases List.mem_cons.1 hhit with rfl | hhit
          · exact ⟨id, p, hp, rfl, rfl, hpasses⟩
          · exact ih hrest hhit

/-- A search finds points that pass, and lays out a table at most. -/
theorem of_search {x y : VectorIndex} {vector workspace : Value} {filters : Filters} {limit : Value}
    {o : Outcome (List VectorHit)} (h : (search vector workspace filters limit).on x = (o, y)) :
    (∃ table, y = { x with table }) ∧ ∀ hits, o = .ok hits → ∀ hit ∈ hits, ∃ k p, x.points.get? k = some p ∧
      hit.id = p.id ∧ hit.payload = p.payload ∧ filters.accepts workspace p.payload = .ok true := by
  rw [on_search] at h
  split at h
  · obtain ⟨rfl, rfl⟩ := Prod.mk.inj h
    refine ⟨⟨x.table, rfl⟩, fun hits hhits hit hhit => ?_⟩
    obtain rfl := Except.ok.inj hhits
    cases hhit
  · split at h
    · obtain ⟨rfl, rfl⟩ := Prod.mk.inj h
      exact ⟨⟨x.table, rfl⟩, fun hits hhits => (by cases hhits)⟩
    · obtain ⟨rfl, rfl⟩ := Prod.mk.inj h
      refine ⟨⟨x.table, rfl⟩, fun hits hhits hit hhit => ?_⟩
      obtain rfl := Except.ok.inj hhits
      cases hhit
    · split at h
      · obtain ⟨rfl, rfl⟩ := Prod.mk.inj h
        exact ⟨⟨x.table, rfl⟩, fun hits hhits => (by cases hhits)⟩
      · rename_i t _
        obtain ⟨ho, rfl⟩ := Prod.mk.inj h
        refine ⟨⟨some t, rfl⟩, fun hits hhits hit hhit => ?_⟩
        obtain ⟨numbers, -, hnearest⟩ := bind_eq_ok.1 (ho.trans hhits)
        exact of_nearest hnearest hhit

end VectorIndex

namespace TextIndex

theorem of_search {x : TextIndex Float} {query : String} {workspace : Value} {filters : Filters} {limit : Value}
    {hits : List (TextHit Float)} (h : x.search query workspace filters limit = .ok hits) {hit : TextHit Float}
    (hhit : hit ∈ hits) : x.documents.get? hit.id = some hit.fields ∧
    filters.accepts workspace hit.fields = .ok true := by
  have hnone : (pure [] : Outcome (List (TextHit Float))) ≠ .ok hits := by
    intro h
    obtain rfl := pure_eq_ok.1 h
    cases hhit
  unfold search at h
  dsimp only at h
  split at h
  · exact absurd h hnone
  obtain ⟨above, -, h⟩ := bind_eq_ok.1 h
  split at h
  · exact absurd h hnone
  obtain ⟨s, hs, h⟩ := bind_eq_ok.1 h
  split at h
  · exact absurd h hnone
  obtain ⟨scored, hscored, h⟩ := bind_eq_ok.1 h
  obtain ⟨sorted, hsorted, h⟩ := bind_eq_ok.1 h
  obtain ⟨n, -, h⟩ := bind_eq_ok.1 h
  obtain rfl := pure_eq_ok.1 h
  have hhit := (sortChecked_perm hsorted).mem_iff.1 (List.mem_of_mem_take hhit)
  obtain ⟨m, hm, hscore⟩ := exists_of_mem_right (mapM_ok_iff.1 hscored) (List.mem_filter.1 hhit).1
  obtain ⟨score, -, hscore⟩ := bind_eq_ok.1 hscore
  obtain rfl := pure_eq_ok.1 hscore
  obtain ⟨passed, hpassed, hs⟩ := bind_eq_ok.1 hs
  obtain rfl := pure_eq_ok.1 hs
  obtain ⟨e, he, rfl⟩ := List.mem_map.1 hm
  obtain ⟨he, hpasses⟩ := (of_filterM hpassed e).1 he
  have hget : x.documents.get? e.1 = some e.2 := OrderedMap.get?_of_mem he
  dsimp only
  rw [hget]
  exact ⟨rfl, hpasses⟩

end TextIndex

end Search

/-! ## What targets stand for -/

/-- What a target of an edge stands for, with the symbol if there is one. -/
inductive Graph.Symbols.Means (x : Graph.Symbols) (target : Key) (workspace : Value) : Key × Option Document → Prop
  | reference {id d} (hget : x.get? target = some d) (hid : Document.idOf (.obj d) = .ok id) :
    Means x target workspace (id, some d)
  | name {id d} (hget : x.get? target = none) (hd : d ∈ x.called workspace target.toValue)
      (hid : Document.idOf (.obj d) = .ok id) : Means x target workspace (id, some d)
  | itself (hget : x.get? target = none) (hnone : x.called workspace target.toValue = []) :
    Means x target workspace (target, none)

namespace Atlas

open Act (Reads)

variable {a b : Atlas} {query workspace limit : Value} {filters : Search.Filters}

theorem on_searchTexts (query workspace : Value) (filters : Search.Filters) (limit : Value) (a : Atlas) :
    (searchTexts query workspace filters limit).on a =
      ((do a.check .searchTexts; a.texts.search (← asText query) workspace filters limit), a) := by
  simp only [searchTexts, Act.on_bind, on_serving, Act.on_get, Act.on_liftOutcome]
  cases a.check .searchTexts with
  | error f => rfl
  | ok u =>
    cases asText query with
    | error f => rfl
    | ok text => rfl

theorem on_getSymbol (name : Key) (a : Atlas) :
    (getSymbol name.toValue).on a = ((do a.check .getSymbol; pure (a.store.symbols.get? name)), a) := by
  simp only [getSymbol, Act.on_bind, on_serving, Act.on_liftOutcome, asKey_toValue, Act.on_get, Act.on_pure]
  cases a.check .getSymbol <;> rfl

theorem on_findSymbols (workspace name : Value) (a : Atlas) :
    (findSymbols workspace name).on a =
      ((do a.check .findSymbols; pure (a.store.symbols.called workspace name)), a) := by
  simp only [findSymbols, Act.on_bind, on_serving, Act.on_get, Act.on_pure]
  cases a.check .findSymbols <;> rfl

def targetsOf (a : Atlas) (hit : Search.TextHit Float) : Outcome (List Key) := do
  pure ((← a.engine.dependencies (← asKey ((Document.ref? hit.fields).getD hit.id.toValue)) none).map Prod.fst)

theorem on_dependenciesOf (hit : Search.TextHit Float) (a : Atlas) :
    (dependenciesOf hit).on a = (a.targetsOf hit, a) := by
  simp only [dependenciesOf, targetsOf, Act.on_bind, Act.on_get, Act.on_liftOutcome, Act.on_pure]
  cases asKey ((Document.ref? hit.fields).getD hit.id.toValue) with
  | error f => rfl
  | ok ref =>
    show _ = ((a.engine.dependencies ref none >>= fun found => pure (found.map Prod.fst)), a)
    dsimp only
    generalize a.engine.dependencies ref none = found
    cases found <;> rfl

def knownAs (d : Document) : Outcome (Key × Option Document) := do
  pure (← asKey (← require d "id"), some d)

theorem knownAs_ok_iff (d : Document) (e : Key × Option Document) :
    knownAs d = .ok e ↔ ∃ id, Document.idOf (.obj d) = .ok id ∧ e = (id, some d) := by
  have hid : Document.idOf (.obj d) = require d "id" >>= asKey := rfl
  have hknown : knownAs d = Document.idOf (.obj d) >>= fun id => pure (id, some d) := by
    rw [hid, knownAs, bind_assoc]
  rw [hknown, bind_eq_ok]
  simp only [pure_eq_ok, eq_comm (b := e)]

theorem on_resolve (target : Key) (workspace : Value) (a : Atlas) :
    (resolve target workspace).on a = ((do
      a.check .getSymbol
      match a.store.symbols.get? target with
      | some d => do pure [← knownAs d]
      | none => do
        a.check .findSymbols
        match a.store.symbols.called workspace target.toValue with
        | [] => pure [(target, none)]
        | ds => ds.mapM knownAs), a) := by
  unfold resolve
  rw [Act.on_bind, on_getSymbol]
  cases a.check .getSymbol with
  | error f => rfl
  | ok u =>
    cases hget : a.store.symbols.get? target with
    | some d =>
      show (liftM (knownAs d) >>= fun e => pure [e] : Act Atlas _).on a = (knownAs d >>= fun e => pure [e], a)
      rw [Act.on_bind, Act.on_liftOutcome]
      cases knownAs d <;> rfl
    | none =>
      show (findSymbols workspace target.toValue >>= _ : Act Atlas _).on a = _
      rw [Act.on_bind, on_findSymbols]
      cases a.check .findSymbols with
      | error f => rfl
      | ok u =>
        cases hcalled : a.store.symbols.called workspace target.toValue with
        | nil => rfl
        | cons d ds => exact Act.on_mapM_lift knownAs (d :: ds) a

theorem reads_resolve (target : Key) (workspace : Value) : Reads (resolve target workspace) := fun a => by
  rw [on_resolve]

theorem of_resolve {target : Key} {found : List (Key × Option Document)}
    (h : (resolve target workspace).on a = (.ok found, b)) (e : Key × Option Document) :
    e ∈ found ↔ a.store.symbols.Means target workspace e := by
  rw [on_resolve] at h
  obtain ⟨-, -, h⟩ := bind_eq_ok.1 (Prod.mk.inj h).1
  cases hget : a.store.symbols.get? target with
  | some d =>
    rw [hget] at h
    obtain ⟨e', he, h⟩ := bind_eq_ok.1 h
    obtain rfl := pure_eq_ok.1 h
    obtain ⟨id, hid, rfl⟩ := (knownAs_ok_iff d e').1 he
    rw [List.mem_singleton]
    constructor
    · rintro rfl
      exact .reference hget hid
    · intro h
      cases h <;> grind
  | none =>
    rw [hget] at h
    obtain ⟨-, -, h⟩ := bind_eq_ok.1 h
    cases hcalled : a.store.symbols.called workspace target.toValue with
    | nil =>
      rw [hcalled] at h
      obtain rfl := pure_eq_ok.1 h
      rw [List.mem_singleton]
      constructor
      · rintro rfl
        exact .itself hget hcalled
      · intro h
        cases h <;> grind
    | cons d ds =>
      rw [hcalled] at h
      have hall := mapM_ok_iff.1 h
      constructor
      · intro he
        obtain ⟨c, hc, he⟩ := exists_of_mem_right hall he
        obtain ⟨id, hid, rfl⟩ := (knownAs_ok_iff c e).1 he
        exact .name hget (hcalled ▸ hc) hid
      · intro he
        cases he with
        | reference hget' _ =>
          rw [hget] at hget'
          cases hget'
        | name _ hc hid =>
          rw [hcalled] at hc
          obtain ⟨e', he', h'⟩ := exists_of_mem_left hall hc
          have hsame := (knownAs_ok_iff _ _).2 ⟨_, hid, rfl⟩
          obtain rfl := Except.ok.inj (h'.symm.trans hsame)
          exact he'
        | itself _ hnone =>
          rw [hcalled] at hnone
          cases hnone

/-! ## What depends on texts -/

def around (workspace : Value) (filters : Search.Filters) (hit : Search.TextHit Float) :
    Act Atlas (List (Search.Related Float)) := do
  let resolved ← (← dependenciesOf hit).mapM fun target => resolve target workspace
  let kept ← resolved.flatten.filterM fun s => Act.ofOutcome (keeps filters workspace s.2)
  pure (⟨hit.id, 0.0⟩ :: kept.map fun s => (⟨s.1, 1.0⟩ : Search.Related Float))

/-- Whether the dependencies of a hit lead to a symbol, or to a target that stands for itself. -/
def Leads (a : Atlas) (workspace : Value) (hit : Search.TextHit Float) (e : Key × Option Document) : Prop :=
  ∃ targets, a.targetsOf hit = .ok targets ∧ ∃ target ∈ targets, a.store.symbols.Means target workspace e

theorem reads_around (workspace : Value) (filters : Search.Filters) (hit : Search.TextHit Float) :
    Reads (around workspace filters hit) := by
  have hdependencies : Reads (dependenciesOf hit) := fun a => by rw [on_dependenciesOf]
  refine .bind hdependencies fun targets => ?_
  refine .bind (.mapM (fun target => reads_resolve target workspace) targets) fun resolved => ?_
  refine .bind (fun a => ?_) fun kept a => rfl
  rw [Act.on_filterM fun s : Key × Option Document => keeps filters workspace s.2]

theorem of_around {hit : Search.TextHit Float} {group : List (Search.Related Float)}
    (h : (around workspace filters hit).on a = (.ok group, b)) (k : Key) :
    (∃ r ∈ group, (r.id == k) = true) ↔ (hit.id == k) = true ∨
      ∃ e, a.Leads workspace hit e ∧ keeps filters workspace e.2 = .ok true ∧ (e.1 == k) = true := by
  unfold around at h
  obtain ⟨targets, m, hdependencies, hresolve⟩ := Act.bind_ok h
  rw [on_dependenciesOf] at hdependencies
  obtain ⟨htargets, rfl⟩ := Prod.mk.inj hdependencies
  obtain ⟨resolved, m, hmap, hkeep⟩ := Act.bind_ok hresolve
  obtain ⟨rfl, hall⟩ := Act.of_mapM (fun target => reads_resolve target workspace) hmap
  obtain ⟨kept, n, hfilter, hgroup⟩ := Act.bind_ok hkeep
  rw [Act.on_filterM fun s : Key × Option Document => keeps filters workspace s.2] at hfilter
  have hmem := of_filterM (Prod.mk.inj hfilter).1
  rw [Act.on_pure] at hgroup
  obtain rfl := Except.ok.inj (Prod.mk.inj hgroup).1
  have hleads : ∀ e, e ∈ resolved.flatten ↔ m.Leads workspace hit e := by
    intro e
    rw [List.mem_flatten]
    constructor
    · rintro ⟨found, hfound, he⟩
      obtain ⟨target, htarget, hon⟩ := exists_of_mem_right hall hfound
      exact ⟨targets, htargets, target, htarget, (of_resolve hon e).1 he⟩
    · rintro ⟨targets', htargets', target, htarget, he⟩
      obtain rfl := Except.ok.inj (htargets.symm.trans htargets')
      obtain ⟨found, hfound, hon⟩ := exists_of_mem_left hall htarget
      exact ⟨found, hfound, (of_resolve hon e).2 he⟩
  rw [List.exists_mem_cons_iff]
  refine or_congr_right ⟨?_, ?_⟩
  · rintro ⟨r, hr, hk⟩
    obtain ⟨e, he, rfl⟩ := List.mem_map.1 hr
    exact ⟨e, (hleads e).1 ((hmem e).1 he).1, ((hmem e).1 he).2, hk⟩
  · rintro ⟨e, he, hkeeps, hk⟩
    exact ⟨_, List.mem_map_of_mem ((hmem e).2 ⟨(hleads e).2 he, hkeeps⟩), hk⟩

def seeds (a : Atlas) (query workspace limit : Value) (filters : Search.Filters) :
    Outcome (List (Search.TextHit Float)) := do
  a.check .searchTexts
  a.texts.search (← asText query) workspace filters (if limit.truthy then limit else a.plan.relatedLimit)

theorem on_searchRelated (query workspace limit : Value) (filters : Search.Filters) (a : Atlas) :
    (searchRelated query workspace limit filters).on a = ((do
      a.check .searchRelated
      if !a.plan.relates then return []
      let hits ← a.seeds query workspace limit filters
      pure (← ((hits.mapM (around workspace filters)).on a).1).flatten), a) := by
  unfold searchRelated
  rw [Act.on_bind, on_serving]
  cases a.check .searchRelated with
  | error f => rfl
  | ok u =>
    dsimp only
    rw [Act.on_bind, Act.on_get]
    dsimp only
    cases a.plan.relates with
    | false => rfl
    | true =>
      have hseeds : (searchTexts query workspace filters
          (if limit.truthy then limit else a.plan.relatedLimit)).on a =
            (a.seeds query workspace limit filters, a) := on_searchTexts ..
      show (searchTexts query workspace filters
        (if limit.truthy then limit else a.plan.relatedLimit) >>= fun hits =>
        hits.mapM (around workspace filters) >>= fun groups => pure groups.flatten : Act Atlas _).on a = _
      rw [Act.on_bind, hseeds]
      show _ = (a.seeds query workspace limit filters >>= fun hits =>
        ((hits.mapM (around workspace filters)).on a).1 >>= fun groups => pure groups.flatten, a)
      cases a.seeds query workspace limit filters with
      | error f => rfl
      | ok hits =>
        dsimp only
        rw [Act.on_bind, (Reads.mapM (fun hit => reads_around workspace filters hit) hits).on_eq]
        show _ = (((hits.mapM (around workspace filters)).on a).1 >>= fun groups => pure groups.flatten, a)
        cases ((hits.mapM (around workspace filters)).on a).1 <;> rfl

theorem of_searchRelated {related : List (Search.Related Float)}
    (h : (searchRelated query workspace limit filters).on a = (.ok related, b)) (k : Key) :
    (∃ r ∈ related, (r.id == k) = true) ↔ a.plan.relates = true ∧
      ∃ hits, a.seeds query workspace limit filters = .ok hits ∧ ∃ hit ∈ hits, (hit.id == k) = true ∨
        ∃ e, a.Leads workspace hit e ∧ keeps filters workspace e.2 = .ok true ∧ (e.1 == k) = true := by
  rw [on_searchRelated] at h
  obtain ⟨-, -, h⟩ := bind_eq_ok.1 (Prod.mk.inj h).1
  cases hrelates : a.plan.relates with
  | false =>
    rw [hrelates] at h
    obtain rfl := pure_eq_ok.1 h
    simp
  | true =>
    rw [hrelates] at h
    obtain ⟨hits, hseeds, h⟩ := bind_eq_ok.1 h
    obtain ⟨groups, hgroups, h⟩ := bind_eq_ok.1 h
    obtain rfl := pure_eq_ok.1 h
    obtain ⟨-, hall⟩ := Act.of_mapM (fun hit => reads_around workspace filters hit) (eq_of_fst hgroups)
    constructor
    · rintro ⟨r, hr, hk⟩
      obtain ⟨group, hgroup, hr⟩ := List.mem_flatten.1 hr
      obtain ⟨hit, hhit, hon⟩ := exists_of_mem_right hall hgroup
      exact ⟨rfl, hits, hseeds, hit, hhit, (of_around hon k).1 ⟨r, hr, hk⟩⟩
    · rintro ⟨-, hits', hhits', hit, hhit, hfound⟩
      obtain rfl := Except.ok.inj (hseeds.symm.trans hhits')
      obtain ⟨group, hgroup, hon⟩ := exists_of_mem_left hall hhit
      obtain ⟨r, hr, hk⟩ := (of_around hon k).2 hfound
      exact ⟨r, List.mem_flatten.2 ⟨group, hgroup, hr⟩, hk⟩

/-! ## The three signals -/

def heard {α : Type} (weight : Float) (answer : Outcome (List α)) : List α :=
  if weight ≤ 0 then [] else answer.toOption.getD []

theorem on_signal {α : Type} (weight : Float) (ask : Act Atlas (List α)) (a : Atlas) :
    (signal weight ask).on a = (.ok (heard weight (ask.on a).1), if weight ≤ 0 then a else (ask.on a).2) := by
  unfold signal heard
  split
  · rfl
  · rw [Act.on_bind, Act.on_attempt]
    cases (ask.on a).1 <;> rfl

theorem of_heard {α : Type} {weight : Float} {answer : Outcome (List α)} {x : α} (h : x ∈ heard weight answer) :
    ∃ xs, answer = .ok xs ∧ x ∈ xs := by
  unfold heard at h
  split at h
  · cases h
  · cases answer with
    | error f => cases h
    | ok xs => exact ⟨xs, rfl, h⟩

theorem heard_ok {α : Type} {weight : Float} (hweight : ¬ weight ≤ 0) (xs : List α) : heard weight (.ok xs) = xs :=
  if_neg hweight

/-- Whether an atlas is another one with other vectors at most. -/
def VectorsApart (a b : Atlas) : Prop := ∃ vectors, b = { a with vectors }

theorem reads_matching (query workspace : Value) (filters : Search.Filters) (limit : Value) :
    Reads (matching query workspace filters limit) :=
  .bind (fun a => by rw [on_searchTexts]) fun _ _ => rfl

theorem respects_matching_apart (query workspace : Value) (filters : Search.Filters) (limit : Value) :
    Act.Respects VectorsApart (matching query workspace filters limit) := by
  refine .bind ?_ fun hits => .pure _
  rintro a _ ⟨v, rfl⟩
  rw [on_searchTexts, on_searchTexts]
  exact ⟨rfl, v, rfl⟩

theorem respects_searchRelated_apart (query workspace limit : Value) (filters : Search.Filters) :
    Act.Respects VectorsApart (searchRelated query workspace limit filters) := by
  have hserving : Act.Respects VectorsApart (serving .searchRelated) := by
    rintro a _ ⟨v, rfl⟩
    rw [on_serving, on_serving]
    exact ⟨rfl, v, rfl⟩
  have htexts : ∀ limit, Act.Respects VectorsApart (searchTexts query workspace filters limit) := by
    rintro limit a _ ⟨v, rfl⟩
    rw [on_searchTexts, on_searchTexts]
    exact ⟨rfl, v, rfl⟩
  have hdependencies : ∀ hit, Act.Respects VectorsApart (dependenciesOf hit) := by
    rintro hit a _ ⟨v, rfl⟩
    rw [on_dependenciesOf, on_dependenciesOf]
    exact ⟨rfl, v, rfl⟩
  have hresolve : ∀ target, Act.Respects VectorsApart (resolve target workspace) := by
    rintro target a _ ⟨v, rfl⟩
    rw [on_resolve, on_resolve]
    exact ⟨rfl, v, rfl⟩
  refine .bind hserving fun _ => .get (by rintro a _ ⟨v, rfl⟩; rfl) fun a => ?_
  dsimp only
  split
  · exact .pure _
  · refine .bind (htexts _) fun hits => .bind (.mapM fun hit _ => ?_) fun groups => .pure _
    refine .bind (hdependencies hit) fun targets => .bind (.mapM fun target _ => hresolve target) fun resolved => ?_
    exact .bind (.filterM (fun s => .ofOutcome _) _) fun kept => .pure _

theorem reads_identified (h : Search.VectorHit) :
    Reads (do pure ⟨← asKey h.id, h.score, .obj h.payload⟩ : Act Atlas (Search.Hit Float)) :=
  .bind (fun s => by rw [Act.on_liftOutcome]) fun _ _ => rfl

theorem similar_apart (query workspace : Value) (filters : Search.Filters) (limit : Value) (a : Atlas) :
    VectorsApart a ((similar query workspace filters limit).on a).2 := by
  have hkeeps : Act.Keeps (VectorsApart a) (similar query workspace filters limit) := by
    refine .bind .get fun c => .bind (.ofOutcome _) fun e => .bind (.bind ?_ fun _ => .within _ ?_) fun hits => ?_
    · intro c hc
      rw [on_serving]
      exact hc
    · rintro _ s ⟨v, rfl⟩
      exact ⟨s, rfl⟩
    · intro c hc
      have hreads := Reads.mapM reads_identified hits
      rw [hreads]
      exact hc
  exact hkeeps a ⟨a.vectors, rfl⟩

theorem of_similar {hits : List (Search.Hit Float)}
    (h : (similar query workspace filters limit).on a = (.ok hits, b))
    {hit : Search.Hit Float} (hhit : hit ∈ hits) :
    ∃ k p, a.vectors.points.get? k = some p ∧ asKey p.id = .ok hit.id ∧ hit.payload = .obj p.payload ∧
      filters.accepts workspace p.payload = .ok true := by
  unfold similar at h
  obtain ⟨c, _, hget, hembed⟩ := Act.bind_ok h
  cases hget
  obtain ⟨e, m, hvector, hsearch⟩ := Act.bind_ok hembed
  obtain ⟨-, rfl⟩ := Act.of_ofOutcome hvector
  obtain ⟨found, n, hfound, hids⟩ := Act.bind_ok hsearch
  obtain ⟨_, m, hserving, hin⟩ := Act.bind_ok hfound
  rw [on_serving] at hserving
  obtain ⟨-, rfl⟩ := Prod.mk.inj hserving
  rw [inVectors, Act.on_within] at hin
  obtain ⟨hin, -⟩ := Prod.mk.inj hin
  obtain ⟨-, hall⟩ := Act.of_mapM reads_identified hids
  obtain ⟨v, hv, hon⟩ := exists_of_mem_right hall hhit
  obtain ⟨id, _, hid, hhit⟩ := Act.bind_ok hon
  rw [Act.on_liftOutcome] at hid
  obtain rfl := Except.ok.inj (Prod.mk.inj hhit).1
  obtain ⟨k, p, hp, hpid, hpayload, hpasses⟩ := (Search.VectorIndex.of_search (eq_of_fst hin)).2 found rfl v hv
  exact ⟨k, p, hp, hpid ▸ (Prod.mk.inj hid).1, by rw [hpayload], hpasses⟩

theorem of_matching {hits : List (Search.Hit Float)}
    (h : (matching query workspace filters limit).on a = (.ok hits, b))
    {hit : Search.Hit Float} (hhit : hit ∈ hits) :
    ∃ d, a.texts.documents.get? hit.id = some d ∧ hit.payload = .obj d ∧
    filters.accepts workspace d = .ok true := by
  unfold matching at h
  obtain ⟨found, m, hfound, hhits⟩ := Act.bind_ok h
  rw [on_searchTexts] at hfound
  obtain ⟨hfound, -⟩ := Prod.mk.inj hfound
  obtain ⟨-, -, hfound⟩ := bind_eq_ok.1 hfound
  obtain ⟨text, -, hfound⟩ := bind_eq_ok.1 hfound
  obtain rfl := Except.ok.inj (Prod.mk.inj hhits).1
  obtain ⟨t, ht, rfl⟩ := List.mem_map.1 hhit
  exact ⟨t.fields, (Search.TextIndex.of_search hfound ht).1, rfl, (Search.TextIndex.of_search hfound ht).2⟩

/-! ## The search -/

def limitOf (a : Atlas) (topK : Value) : Value := if topK.truthy then topK else a.plan.topK

/-- A search fuses what the signals say and gives the first of it. -/
theorem on_searchHybrid (query workspace topK : Value) (filters : Search.Filters)
    (weights : Option (Search.Signals Float)) (a : Atlas) :
    ((searchHybrid query workspace topK filters weights).on a).1 = (do
      let w ← (weights.getD a.plan.weights).normalized.checked
      let all ← Search.fuse (heard w.vector ((similar query workspace filters (a.limitOf topK)).on a).1)
        (heard w.fulltext ((matching query workspace filters (a.limitOf topK)).on a).1)
        (heard w.graph ((searchRelated query workspace .null filters).on a).1) w
      pure (firstOf (← asInt (a.limitOf topK)) all)) := by
  unfold searchHybrid
  rw [Act.on_bind, Act.on_get]
  dsimp only
  rw [Act.on_bind, Act.on_ofOutcome]
  cases (weights.getD a.plan.weights).normalized.checked with
  | error f => rfl
  | ok w =>
    -- the search by vectors may lay out a table, which the other two do not look at
    have hsimilar : VectorsApart a
        (if w.vector ≤ 0 then a else ((similar query workspace filters (a.limitOf topK)).on a).2) := by
      split
      · exact ⟨a.vectors, rfl⟩
      · exact similar_apart query workspace filters _ a
    obtain ⟨hmatching, -⟩ := respects_matching_apart query workspace filters (a.limitOf topK) a _ hsimilar
    obtain ⟨hrelated, -⟩ := respects_searchRelated_apart query workspace .null filters a _ hsimilar
    dsimp only
    rw [Act.on_bind, on_signal]
    dsimp only
    rw [Act.on_bind, on_signal]
    dsimp only
    rw [reads_matching, ite_self, Act.on_bind, on_signal]
    dsimp only
    unfold limitOf at hmatching hrelated ⊢
    rw [← hmatching, ← hrelated, Act.on_bind, Act.on_ofOutcome]
    show _ = (Search.fuse _ _ _ w >>= fun all => asInt _ >>= fun n => pure (firstOf n all))
    generalize Search.fuse _ _ _ w = fused
    cases fused with
    | error f => rfl
    | ok all =>
      dsimp only
      rw [Act.on_bind, Act.on_liftOutcome]
      cases asInt (if topK.truthy then topK else a.plan.topK) <;> rfl

theorem of_searchHybrid {topK : Value} {weights : Option (Search.Signals Float)} {rs : List (Search.Fused Float)}
    (h : (searchHybrid query workspace topK filters weights).on a = (.ok rs, b)) :
    ∃ w all n, (weights.getD a.plan.weights).normalized.checked = .ok w ∧ asInt (a.limitOf topK) = .ok n ∧
      rs = firstOf n all ∧ Search.fuse (heard w.vector ((similar query workspace filters (a.limitOf topK)).on a).1)
        (heard w.fulltext ((matching query workspace filters (a.limitOf topK)).on a).1)
        (heard w.graph ((searchRelated query workspace .null filters).on a).1) w = .ok all := by
  have hon := on_searchHybrid query workspace topK filters weights a
  rw [h] at hon
  obtain ⟨w, hw, hon⟩ := bind_eq_ok.1 hon.symm
  obtain ⟨all, hall, hon⟩ := bind_eq_ok.1 hon
  obtain ⟨n, hn, hon⟩ := bind_eq_ok.1 hon
  exact ⟨w, all, n, hw, hn, (pure_eq_ok.1 hon).symm, hall⟩

theorem mem_of_mem_firstOf {α : Type} {n : Int} {xs : List α} {x : α} (h : x ∈ firstOf n xs) : x ∈ xs := by
  unfold firstOf at h
  split at h
  · exact List.mem_of_mem_take h
  · exact List.mem_of_mem_take h

theorem firstOf_of_short {α : Type} {n : Int} {xs : List α} (h : ((firstOf n xs).length : Int) < n) :
    firstOf n xs = xs := by
  have hn : 0 ≤ n := by omega
  unfold firstOf at h ⊢
  rw [if_pos hn, List.length_take] at h
  rw [if_pos hn]
  exact List.take_of_length_le (by omega)

/-- What a search finds is a point, a text, or what a dependency of a text leads to. -/
theorem of_mem_searchHybrid {topK : Value} {weights : Option (Search.Signals Float)}
    {rs : List (Search.Fused Float)}
    (h : (searchHybrid query workspace topK filters weights).on a = (.ok rs, b))
    {r : Search.Fused Float} (hr : r ∈ rs) :
    (∃ k p id, a.vectors.points.get? k = some p ∧ asKey p.id = .ok id ∧ (id == r.id) = true ∧
      filters.accepts workspace p.payload = .ok true) ∨
    (∃ d, a.texts.documents.get? r.id = some d ∧ filters.accepts workspace d = .ok true) ∨
    (a.plan.relates = true ∧ ∃ hits, a.seeds query workspace .null filters = .ok hits ∧ ∃ hit ∈ hits, ∃ e,
      a.Leads workspace hit e ∧ keeps filters workspace e.2 = .ok true ∧ (e.1 == r.id) = true) := by
  obtain ⟨w, all, n, -, -, rfl, hfuse⟩ := of_searchHybrid h
  rcases (Search.id_of_fuse hfuse r.id).1 ⟨r, mem_of_mem_firstOf hr, BEq.rfl⟩ with
    ⟨hit, hhit, hid⟩ | ⟨hit, hhit, hid⟩ | hrelated
  · obtain ⟨hits, hon, hhit⟩ := of_heard hhit
    obtain ⟨k, p, hp, hpid, -, hpasses⟩ := of_similar (eq_of_fst hon) hhit
    exact .inl ⟨k, p, hit.id, hp, hpid, hid, hpasses⟩
  · obtain ⟨hits, hon, hhit⟩ := of_heard hhit
    obtain ⟨d, hd, -, hpasses⟩ := of_matching (eq_of_fst hon) hhit
    exact .inr (.inl ⟨d, OrderedMap.get?_congr _ hid ▸ hd, hpasses⟩)
  · obtain ⟨s, hs, hid⟩ := hrelated
    obtain ⟨related, hon, hs⟩ := of_heard hs
    obtain ⟨hrelates, hits, hhits, hit, hhit, hfound⟩ := (of_searchRelated (eq_of_fst hon) r.id).1 ⟨s, hs, hid⟩
    rcases hfound with hid | hfound
    · obtain ⟨-, -, hsearch⟩ := bind_eq_ok.1 hhits
      obtain ⟨text, -, hsearch⟩ := bind_eq_ok.1 hsearch
      obtain ⟨hd, hpasses⟩ := Search.TextIndex.of_search hsearch hhit
      exact .inr (.inl ⟨hit.fields, OrderedMap.get?_congr _ hid ▸ hd, hpasses⟩)
    · exact .inr (.inr ⟨hrelates, hits, hhits, hit, hhit, hfound⟩)

end Atlas

end SourceAtlas
