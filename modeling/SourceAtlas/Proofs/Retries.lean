import SourceAtlas.Proofs.Interruptions

/-!
# Calls that are repeated

A call that failed is repeated once what failed is in order. Documents, points,
texts and the row end up as if it had not failed. Edges do as well, unless the
row was recorded before the edges were written: then they are never written.
-/

namespace SourceAtlas

open Json (Value Key)
open Search (Components)

/-! ## The time of a call -/

def Chunk.at (t : Int) (c : Chunk) : Chunk := { c with payload := { c.payload with indexedAt := t } }

def Index.Yield.at (t : Int) (y : Index.Yield) : Index.Yield :=
  { y with chunks := y.chunks.map (Chunk.at t), rows := y.rows.map fun r => { r with indexedAt := .int t } }

def Index.FileResult.at (t : Int) : Index.FileResult → Index.FileResult
  | .indexed l y => .indexed l (y.at t)
  | x => x

namespace Atlas

open Search.VectorIndex (accepted lengthAfter)

variable {a a₁ b m : Atlas} {parse : Parser} {o : Origin} {text hash : String} {language : Language}
  {y : Index.Yield} {vs : List Components} {row : Graph.LedgerRow} {t now : Int}

theorem analyse_at {plan : Plan} {parsed : Parsed} (h : analyse plan now o language text hash parsed = .ok y) :
    analyse plan t o language text hash parsed = .ok (y.at t) := by
  have hsections : ∀ {reader : Markdown.Reader} {tree : Syntax.Tree} {p : Provenance} {cs : List Chunk},
      reader.chunks tree p now = .ok cs → reader.chunks tree p t = .ok (cs.map (Chunk.at t)) := by
    intro reader tree p cs h
    unfold Markdown.Reader.chunks at h ⊢
    split at h
    · rename_i hempty
      rw [if_pos hempty, ← pure_eq_ok.1 h]
      rfl
    · rename_i hsome
      simp only [bind_eq_ok, pure_eq_ok] at h
      obtain ⟨x, hx, rfl⟩ := h
      rw [if_neg hsome, hx, List.map_map]
      rfl
  have hsymbols : ∀ {symbols : List Symbol} {p : Provenance} {cs : List Chunk},
      chunksOf symbols p now = .ok cs → chunksOf symbols p t = .ok (cs.map (Chunk.at t)) := by
    intro symbols p cs h
    unfold SourceAtlas.chunksOf at h ⊢
    split at h
    · rename_i hempty
      rw [if_pos hempty, ← pure_eq_ok.1 h]
      rfl
    · rename_i hsome
      simp only [bind_eq_ok, pure_eq_ok] at h
      obtain ⟨x, hx, rfl⟩ := h
      rw [if_neg hsome, hx, List.map_map]
      rfl
  unfold analyse at h ⊢
  split at h
  · rename_i hmd
    simp only [bind_eq_ok, pure_eq_ok, Prod.exists, Prod.mk.injEq] at h
    obtain ⟨cs, hcs, cs', es, ⟨rfl, rfl⟩, repo, hrepo, rfl⟩ := h
    simp only [if_pos hmd, hsections hcs, hrepo, bind, Except.bind, pure, Except.pure]
    simp [Index.Yield.at]
  · rename_i hmd
    simp only [bind_eq_ok, pure_eq_ok, Prod.exists, Prod.mk.injEq] at h
    obtain ⟨symbols, hs, cs, hcs, es, hes, cs', es', ⟨rfl, rfl⟩, repo, hrepo, rfl⟩ := h
    simp only [if_neg hmd, hs, hsymbols hcs, hes, hrepo, bind, Except.bind, pure, Except.pure]
    simp [Index.Yield.at]

/-- Examining a text finds the same at any time and whatever is out of order, unless it fails. -/
theorem examine_at {x z : Index.FileResult} (hplan : b.plan = a.plan) (hledger : b.store.ledger = a.store.ledger)
    (ha : a.examine parse o text = .ok x) (hb : b.examine parse o text = .ok z) : z = x.at b.disk.now := by
  unfold examine at ha hb
  cases hl : Language.ofPath? o.path with
  | none =>
    simp only [hl, pure_eq_ok] at ha hb
    rw [← ha, ← hb]
    rfl
  | some l =>
    simp only [hl, hplan, bind_eq_ok, findRow_ok_iff, hledger] at ha hb
    obtain ⟨row, ⟨-, k, p, hk, hp, hrow⟩, ha⟩ := ha
    obtain ⟨row', ⟨-, k', p', hk', hp', hrow'⟩, hb⟩ := hb
    obtain rfl : k = k' := Except.ok.inj (hk.symm.trans hk')
    obtain rfl : p = p' := Except.ok.inj (hp.symm.trans hp')
    obtain rfl : row = row' := hrow.symm.trans hrow'
    by_cases hsome : row.isSome = true
    · rw [if_pos hsome, pure_eq_ok] at ha hb
      rw [← ha, ← hb]
      rfl
    · rw [if_neg hsome] at ha hb
      simp only [bind_eq_ok, pure_eq_ok] at ha hb
      obtain ⟨-, -, y, hy, rfl⟩ := ha
      obtain ⟨-, -, y', hy', rfl⟩ := hb
      obtain rfl : y.at b.disk.now = y' := Except.ok.inj ((analyse_at hy).symm.trans hy')
      rfl

theorem examine_of_row {l : Language} (hlanguage : Language.ofPath? o.path = some l)
    (hserves : a.serves .findRow = true)
    {repo : Key} (hrepo : asKey o.repo = .ok repo) {r : Graph.LedgerRow}
    (hrow : a.store.ledger.get? (repo, .str o.path) = some r)
    (hhash : r.hash = .str (Index.hashBytes a.plan.hash (Text.encode text))) :
    a.examine parse o text = .ok (.unchanged l) := by
  have hfound : a.findRow o.repo o.path (Index.hashBytes a.plan.hash (Text.encode text)) = .ok (some r) := by
    rw [findRow_ok_iff]
    refine ⟨hserves, repo, .str o.path, hrepo, rfl, ?_⟩
    rw [Graph.Ledger.unchanged?, hrow, Option.filter_some, hhash, (Value.str_same _ _).2 rfl]
    rfl
  unfold examine
  simp only [hlanguage, hfound, bind, Except.bind, Option.isSome_some, reduceIte]
  rfl

/-- An embedding does not depend on what is out of order, unless it fails. -/
theorem embedChunks_unique (hplan : b.plan = a.plan) {cs : List Chunk} {us : List Components}
    (ha : a.embedChunks cs = .ok vs) (hb : b.embedChunks cs = .ok us) : vs = us := by
  have hvs := ((embedChunks_ok_iff cs vs a).1 ha).2
  have hus := ((embedChunks_ok_iff cs us b).1 hb).2
  have hembeds : ∀ {c v u}, Embeds a c v → Embeds b c u → v = u := by
    rintro c v u ⟨e, he, hv⟩ ⟨e', he', hu⟩
    simp only [embed, bind_eq_ok] at he he'
    obtain ⟨-, -, w, hw, he⟩ := he
    obtain ⟨-, -, w', hw', he'⟩ := he'
    obtain rfl : w = w' := Except.ok.inj (hw.symm.trans hw')
    rw [hplan] at he'
    obtain rfl : e = e' := Except.ok.inj (he.symm.trans he')
    exact Except.ok.inj (hv.symm.trans hu)
  clear ha hb
  induction hvs generalizing us with
  | nil =>
    cases hus
    rfl
  | cons hv _ ih =>
    cases hus with
    | cons hu hus => rw [hembeds hv hu, ih hus]

theorem embedChunks_at (t : Int) (a : Atlas) (cs : List Chunk) :
    a.embedChunks (cs.map (Chunk.at t)) = a.embedChunks cs := by
  have htexts : (cs.map (Chunk.at t)).map (·.embeddingText) = cs.map (·.embeddingText) := by
    simp [Chunk.at, Function.comp_def]
  have hempty : (cs.map (Chunk.at t)).isEmpty = cs.isEmpty := by simp
  unfold embedChunks
  rw [htexts, hempty]

theorem staleDocument_at (t : Int) (l : Graph.Ledger) (d : Document) :
    staleDocument l (y.at t).rows d = staleDocument l y.rows d := by
  simp only [staleDocument, Index.Yield.at, List.any_map]
  rfl

theorem lengthAfter_at (t : Int) (dimensions : Value) (cs : List Chunk) (vs : List Components) :
    lengthAfter dimensions (pointEntries (cs.map (Chunk.at t)) vs) =
      lengthAfter dimensions (pointEntries cs vs) := by
  cases cs with
  | nil => rfl
  | cons c cs => cases vs <;> rfl

/-! ## Edges that are stored already -/

/-- Writing edges changes nothing exactly if all of them are stored already. -/
theorem edgesWith_eq_self_iff {es : List Edge} {x : Graph.Edges} :
    edgesWith es x = x ↔ ∀ e ∈ es, ∀ k, e.key = .ok k → x.keys.contains k = true := by
  rw [edgesWith_eq]
  constructor
  · intro h e he k hk
    rw [← h, Graph.Edges.contains_foldl_put, contains_of_mem (mem_keysOf he hk), Bool.true_or]
  · intro h
    have hstored : ∀ k ∈ keysOf es, x.keys.contains k = true := fun k hk => by
      obtain ⟨e, he, hek⟩ := List.mem_filterMap.1 hk
      cases hkey : e.key with
      | error f =>
        rw [hkey] at hek
        cases hek
      | ok j =>
        rw [hkey] at hek
        cases hek
        exact h e he k hkey
    generalize keysOf es = ks at hstored
    induction ks with
    | nil => rfl
    | cons k ks ih =>
      obtain ⟨hk, hks⟩ := List.forall_mem_cons.1 hstored
      rw [List.foldl_cons, Graph.Edges.put, if_pos hk]
      exact ih hks

/-! ## What a failed call leaves -/

/-- Equal under all ids that no chunk has, once some entries are dropped. -/
def Between {α : Type} (p : α → Bool) (cs : List Chunk) (x z : OrderedMap Key α) : Prop :=
  ∀ k, (∀ c ∈ cs, k ≠ c.key) → (z.keep p).get? k = (x.keep p).get? k

namespace Between

variable {α : Type} {p : α → Bool} {cs : List Chunk} {x z : OrderedMap Key α} {es : List (Key × α)}

theorem refl (p : α → Bool) (cs : List Chunk) (x : OrderedMap Key α) : Between p cs x x := fun _ _ => rfl

theorem of_keep (p : α → Bool) (cs : List Chunk) (x : OrderedMap Key α) : Between p cs x (x.keep p) := fun k _ => by
  rw [OrderedMap.keep_keep]
  simp only [Bool.and_self]

theorem of_insertAll (hes : ∀ e ∈ es, ∃ c ∈ cs, e.1 = c.key) :
    Between p cs x ((x.keep p).insertAll es) := fun k hk => by
  have hother : ∀ e ∈ es, ¬ (e.1 == k) = true := fun e he heq => by
    obtain ⟨c, hc, hkey⟩ := hes e he
    rw [hkey] at heq
    exact hk c hc ((c.key_beq k).1 heq)
  rw [OrderedMap.get?_keep, OrderedMap.get?_insertAll_of_not_mem _ hother, ← OrderedMap.get?_keep,
    OrderedMap.keep_keep]
  simp only [Bool.and_self]

theorem insertAll (h : Between p cs x z) (hes : ∀ c ∈ cs, ∃ e ∈ es, e.1 = c.key) :
    ((z.keep p).insertAll es).Agrees ((x.keep p).insertAll es) := fun k => by
  rw [OrderedMap.get?_insertAll, OrderedMap.get?_insertAll]
  cases hfound : es.reverse.find? (·.1 == k) with
  | some e => rfl
  | none =>
    refine h k fun c hc hk => ?_
    obtain ⟨e, he, hkey⟩ := hes c hc
    refine List.find?_eq_none.1 hfound e (List.mem_reverse.2 he) ?_
    rw [hkey, hk]
    exact BEq.rfl

end Between

/-- What a call left that did not get as far as the row. -/
structure Partway (a : Atlas) (y : Index.Yield) (vs : List Components) (m : Atlas) : Prop where
  plan : m.plan = a.plan
  edges : m.store.edges = a.store.edges
  ledger : m.store.ledger = a.store.ledger
  symbols : Between (!staleDocument a.store.ledger y.rows ·) y.chunks a.store.symbols.documents
    m.store.symbols.documents
  referable : ∀ k d, m.store.symbols.documents.get? k = some d →
    a.store.symbols.documents.get? k = some d ∨ Document.Referable d
  points : Between (!staleDocument a.store.ledger y.rows ·.payload) y.chunks a.vectors.points m.vectors.points
  texts : Between (!staleDocument a.store.ledger y.rows ·) y.chunks a.texts.documents m.texts.documents
  dimensions : m.vectors.dimensions = a.vectors.dimensions ∨
    m.vectors.dimensions = lengthAfter a.vectors.dimensions (pointEntries y.chunks vs)

theorem Partway.refl (a : Atlas) (y : Index.Yield) (vs : List Components) : Partway a y vs a :=
  ⟨rfl, rfl, rfl, .refl _ _ _, fun _ _ h => .inl h, .refl _ _ _, .refl _ _ _, .inl rfl⟩

theorem Partway.at (h : Partway a y vs m) (t : Int) : Partway a (y.at t) vs m := by
  have hbetween : ∀ {α : Type} {p : α → Bool} {x z : OrderedMap Key α}, Between p y.chunks x z →
      Between p (y.at t).chunks x z := fun h k hk => h k fun c hc =>
    hk (c.at t) (List.mem_map_of_mem hc)
  refine ⟨h.plan, h.edges, h.ledger, ?_, h.referable, ?_, ?_, ?_⟩
  · simp only [staleDocument_at]
    exact hbetween h.symbols
  · simp only [staleDocument_at]
    exact hbetween h.points
  · simp only [staleDocument_at]
    exact hbetween h.texts
  · have hlength := lengthAfter_at t a.vectors.dimensions y.chunks vs
    exact hlength ▸ h.dimensions

/-- A failure while chunks and their row are stored. -/
theorem Interrupted.partway (h : Interrupted a row y.chunks vs m) (hrows : y.rows = [row]) : Partway a y vs m := by
  have hframe := h.frame
  have hreplaced : ∀ d, replaced a row d = staleDocument a.store.ledger y.rows d := fun d => by
    rw [staleDocument, hrows, List.any_cons, List.any_nil, Bool.or_false, replaced]
  have hdocuments : ∀ e ∈ documentEntries y.chunks, ∃ c ∈ y.chunks, e.1 = c.key := fun e he => by
    obtain ⟨c, hc, rfl⟩ := List.mem_map.1 he
    exact ⟨c, hc, rfl⟩
  have hpoints : ∀ e ∈ accepted a.vectors.dimensions (pointEntries y.chunks vs), ∃ c ∈ y.chunks, e.1 = c.key :=
    fun e he => by
      obtain ⟨⟨c, v⟩, hcv, rfl⟩ := List.mem_map.1 ((List.takeWhile_sublist _).subset he)
      exact ⟨c, (List.of_mem_zip hcv).1, rfl⟩
  cases h with
  | early => exact .refl a y vs
  | halfway _ _ _ hdropped =>
    obtain ⟨-, -, symbols, points, texts, dimensions⟩ := hdropped
    simp only [hreplaced] at symbols points
    refine ⟨hframe.plan, hframe.edges, hframe.ledger, ?_, fun k d hd => .inl ?_, ?_, ?_, .inl dimensions⟩
    · rw [symbols]
      exact .of_keep _ _ _
    · rw [symbols] at hd
      exact (OrderedMap.of_get?_keep hd).1
    · rw [points]
      split
      · exact .of_keep _ _ _
      · exact .refl _ _ _
    · rw [texts]
      exact .refl _ _ _
  | late _ _ _ symbols points texts dimensions =>
    simp only [hreplaced] at symbols points texts
    refine ⟨hframe.plan, hframe.edges, hframe.ledger, ?_, fun k d hd => ?_, ?_, ?_, ?_⟩
    · rw [symbols]
      split
      · exact .of_insertAll hdocuments
      · exact .of_keep _ _ _
    · rw [symbols] at hd
      split at hd
      · rcases OrderedMap.mem_of_get?_insertAll hd with ⟨j, hj, -⟩ | hd
        · exact .inr (referable_of_mem_documentEntries hj)
        · exact .inl (OrderedMap.of_get?_keep hd).1
      · exact .inl (OrderedMap.of_get?_keep hd).1
    · rw [points]
      split
      · exact .of_insertAll hpoints
      · exact .of_keep _ _ _
    · rw [texts]
      split
      · exact .of_insertAll hdocuments
      · exact .of_keep _ _ _
    · rw [dimensions]
      split
      · exact .inr rfl
      · exact .inl rfl

/-! ## Repeating -/

theorem accepted_lengthAfter (dimensions : Value) (es : List (Key × Search.VectorPoint)) :
    accepted (lengthAfter dimensions es) es = accepted dimensions es := by
  cases es with
  | nil => rfl
  | cons e es => rw [accepted, accepted, Search.VectorIndex.lengthAfter_lengthAfter]

structure SameEntries (a b : Atlas) : Prop where
  symbols : a.store.symbols.documents.Agrees b.store.symbols.documents
  points : a.vectors.points.Agrees b.vectors.points
  texts : a.texts.documents.Agrees b.texts.documents
  ledger : a.store.ledger = b.store.ledger

theorem Partway.persistable {disk d : Disk} {engine engine' : Graph.Engine} {faults : List (Operation × Failure)}
    (h : Partway a y vs m) (hready : engine.ready = true)
    (hpersistable : Persistable { a with disk := d, engine := engine', faults } y vs) :
    Persistable { m with disk, engine, faults } y vs := by
  refine ⟨⟨hpersistable.rows, ?_, fun hne => (hpersistable.chunks hne).congr rfl, ?_, ?_⟩, hpersistable.keyed,
    fun hne => ⟨hready, (hpersistable.linking hne).2⟩⟩
  · intro r hr hstale
    have hstale : stale m.store.ledger r = true := hstale
    rw [h.ledger] at hstale
    exact (hpersistable.dropping r hr hstale).congr rfl h.referable
  · have hlengths : accepted a.vectors.dimensions (pointEntries y.chunks vs) = pointEntries y.chunks vs :=
      hpersistable.lengths
    change accepted m.vectors.dimensions (pointEntries y.chunks vs) = _
    rcases h.dimensions with hd | hd
    · rw [hd, hlengths]
    · rw [hd, accepted_lengthAfter, hlengths]
  · intro c hc d hd
    exact (h.referable c.key d hd).elim (hpersistable.admits c hc d) id

/-- What a failed call left is completed when its yield is stored again. -/
theorem Partway.persist {disk d : Disk} {engine engine' : Graph.Engine} {faults : List (Operation × Failure)}
    (h : Partway a y vs m) (hready : engine.ready = true)
    (hvs : embedChunks { a with disk := d, engine := engine', faults } y.chunks = .ok vs)
    (hb : (Atlas.persist y).on { a with disk := d, engine := engine', faults } = (.ok (), b)) :
    ∃ c, (Atlas.persist y).on { m with disk, engine, faults } = (.ok (), c) ∧ SameEntries c b ∧
      c.store.edges = b.store.edges := by
  obtain ⟨vs', hvs', hpersistable, hstored⟩ := of_persist hb
  obtain rfl : vs = vs' := Except.ok.inj (hvs.symm.trans hvs')
  have hlen := length_of_embedChunks hvs
  have hsame : embedChunks { m with disk, engine, faults } y.chunks =
      embedChunks { a with disk := d, engine := engine', faults } y.chunks := by
    refine embedChunks_congr ?_ ?_ y.chunks
    · exact h.plan
    · rfl
  obtain ⟨c, hc, hstored'⟩ := persist_returns (hsame.trans hvs) (h.persistable hready hpersistable)
  have hdocuments : ∀ c ∈ y.chunks, ∃ e ∈ documentEntries y.chunks, e.1 = c.key := fun c hc =>
    ⟨_, List.mem_map_of_mem hc, rfl⟩
  -- which documents are replaced depends on the ledger only
  have hsymbols' := hstored'.symbols
  have hpoints' := hstored'.points
  have htexts' := hstored'.texts
  simp only [h.ledger] at hsymbols' hpoints' htexts'
  refine ⟨c, hc, ⟨?_, ?_, ?_, ?_⟩, ?_⟩
  · rw [hsymbols', hstored.symbols]
    exact h.symbols.insertAll hdocuments
  · rw [hpoints', hstored.points]
    exact h.points.insertAll fun c hc => exists_pointEntry hlen hc
  · rw [htexts', hstored.texts]
    exact h.texts.insertAll hdocuments
  · rw [hstored'.ledger, hstored.ledger, h.ledger]
  · rw [hstored'.edges, hstored.edges, h.edges]

theorem of_indexText_error {f : Failure} (h : (indexText parse o text true).on a = (.error f, a₁)) :
    a₁ = a ∨ ∃ l y vs, a.examine parse o text = .ok (.indexed l y) ∧ a.embedChunks y.chunks = .ok vs ∧
      (Atlas.persist y).on a = (.error f, a₁) := by
  cases hy : yield? parse o text a with
  | none => exact .inl ((congrArg Prod.snd h).symm.trans (indexText_of_no_yield hy))
  | some found =>
    obtain ⟨y, vs⟩ := found
    obtain ⟨⟨l, hx⟩, hvs⟩ := yield?_eq_some.1 hy
    refine .inr ⟨l, y, vs, hx, hvs, ?_⟩
    rw [on_indexText_indexed hx] at h
    generalize (Atlas.persist y).on a = r at h
    obtain ⟨u, c⟩ := r
    cases u with
    | error g =>
      obtain ⟨hg, rfl⟩ := Prod.mk.inj h
      obtain rfl := Except.error.inj hg
      rfl
    | ok u => cases h

/-- Storing what a text yields stops before the row is recorded, or in between the row and the edges. -/
theorem persist_error {f : Failure} (hvs : a.embedChunks y.chunks = .ok vs) (hrows : y.rows = [row])
    (hclean : stale a.store.ledger row = true → Clean a row.file)
    (hadmits : Admits a.store.symbols.documents y.chunks)
    (hkeyed : Keyed y.edges) (h : (Atlas.persist y).on a = (.error f, a₁)) :
    Partway a y vs a₁ ∨ ∃ m engine, StoredChunks a y vs m ∧ a₁ = { m with engine } := by
  obtain ⟨-, hst⟩ := storeChunks_on y vs a
  rw [on_persist hvs, Act.on_bind] at h
  generalize hstored : (storeChunks y.chunks vs y.rows).on a = r at h hst
  obtain ⟨u, m⟩ := r
  cases u with
  | error g =>
    obtain rfl : m = a₁ := (Prod.mk.inj h).2
    rw [hrows] at hstored
    exact .inl ((storeChunks_error hclean hadmits hstored).partway hrows)
  | ok u =>
    obtain ⟨-, -, ⟨engine, edges, hlinked⟩, hstore⟩ := storeEdges_on y.edges m
    dsimp only at h
    rw [h] at hlinked hstore
    have hstore : a₁.store = m.store := hstore hkeyed (by simp)
    refine .inr ⟨m, engine, hst rfl, ?_⟩
    have hlinked : a₁ = { m with engine, store := { m.store with edges } } := hlinked
    rw [hlinked] at hstore ⊢
    have hedges : { m.store with edges } = m.store := hstore
    rw [hedges]

theorem findRow_serves_of_examine (h : a.examine parse o text = .ok (.indexed language y)) :
    a.serves .findRow = true := by
  unfold examine at h
  cases hl : Language.ofPath? o.path with
  | none => simp [hl, pure, Except.pure] at h
  | some l =>
    simp only [hl, bind_eq_ok, findRow_ok_iff] at h
    obtain ⟨row, ⟨hserves, -⟩, -⟩ := h
    exact hserves

theorem ledger_ne_of_stored (hx : a.examine parse o text = .ok (.indexed language y)) (hm : Holds a y vs m) :
    m.store.ledger ≠ a.store.ledger := by
  obtain ⟨row, hrows, -, -, hhash, -, hstale⟩ := row_of_examine hx
  intro hsame
  have hrow : a.store.ledger.get? row.file = some row := by
    rw [← hsame, hm.ledger, hrows]
    exact (Graph.Ledger.get?_put ..).trans (if_pos BEq.rfl)
  rw [stale, hrow, Option.any_some, hhash, (Value.str_same _ _).2 rfl] at hstale
  cases hstale

/-- Once the row is recorded, the call that is repeated finds nothing to do. -/
theorem indexText_of_recorded {disk : Disk} {engine : Graph.Engine} {faults : List (Operation × Failure)}
    (hx : a.examine parse o text = .ok (.indexed language y)) (hm : Holds a y vs m)
    (hserves : Atlas.serves { m with disk, engine, faults } .findRow = true) :
    (indexText parse o text true).on { m with disk, engine, faults } =
      (.ok (.unchanged language), { m with disk, engine, faults }) := by
  obtain ⟨row, hrows, hrepo, hpath, hhash, -, -⟩ := row_of_examine hx
  obtain ⟨hlanguage, -, -⟩ := examine_indexed hx
  refine on_indexText_ok (examine_of_row hlanguage hserves hrepo ?_ (hm.plan ▸ hhash)) fun _ _ h => (by cases h)
  have hfile : row.file = (row.repo, .str o.path) := by rw [Graph.LedgerRow.file, hpath]
  change m.store.ledger.get? (row.repo, .str o.path) = some row
  rw [← hfile, hm.ledger, hrows]
  exact (Graph.Ledger.get?_put ..).trans (if_pos BEq.rfl)

/-- The call that is repeated once the row is recorded agrees in all but the edges that were new. -/
theorem recorded_agrees {disk d : Disk} {engine engine' : Graph.Engine} {faults : List (Operation × Failure)}
    (hx : a.examine parse o text = .ok (.indexed language y)) (hm : StoredChunks a y vs m)
    (hserves : Atlas.serves { m with disk, engine, faults } .findRow = true)
    (hb : Stored { a with disk := d, engine := engine', faults } y vs b) :
    ∃ z c, (indexText parse o text true).on { m with disk, engine, faults } = (.ok z, c) ∧ SameEntries c b ∧
      (c.store.edges = b.store.edges ↔ m.store.ledger = a.store.ledger ∨
        ∀ e ∈ y.edges, ∀ k, e.key = .ok k → a.store.edges.keys.contains k = true) := by
  refine ⟨.unchanged language, { m with disk, engine, faults }, indexText_of_recorded hx hm.toHolds hserves,
    ⟨?_, ?_, ?_, ?_⟩, ?_⟩
  · exact hm.symbols.trans hb.symbols.symm ▸ .refl _
  · exact hm.points.trans hb.points.symm ▸ .refl _
  · exact hm.texts.trans hb.texts.symm ▸ .refl _
  · exact hm.ledger.trans hb.ledger.symm
  · have hedges : b.store.edges = edgesWith y.edges a.store.edges := hb.edges
    change m.store.edges = b.store.edges ↔ _
    rw [hm.edges, hedges, eq_comm, edgesWith_eq_self_iff]
    exact ⟨.inr, fun h => h.resolve_left (ledger_ne_of_stored hx hm.toHolds)⟩

/-- A call that failed is repeated. The entries end up as if the first call had succeeded, which takes
its time from the call that records the row. So do the edges, unless the first call recorded the
row and some of them were new. -/
theorem repeated_call_agrees {f : Failure} {disk d : Disk} {engine engine' : Graph.Engine}
    {faults : List (Operation × Failure)} {x : Index.FileResult}
    (hfail : (indexText parse o text true).on a = (.error f, a₁))
    (href : (indexText parse o text true).on { a with disk := d, engine := engine', faults } = (.ok x, b))
    (hready : engine.ready = true) (hearly : a₁.store.ledger = a.store.ledger → d.now = disk.now)
    (hlate : a₁.store.ledger ≠ a.store.ledger → d.now = a.disk.now) :
    ∃ z c, (indexText parse o text true).on { a₁ with disk, engine, faults } = (.ok z, c) ∧ SameEntries c b ∧
      (c.store.edges = b.store.edges ↔ a₁.store.ledger = a.store.ledger ∨
        ∀ e ∈ x.yield.edges, ∀ k, e.key = .ok k → a.store.edges.keys.contains k = true) := by
  obtain ⟨hx, hb⟩ := of_indexText href
  have hfirst : ∀ {z}, a.examine parse o text = .ok z → x = z.at d.now := fun hz =>
    examine_at (a := a) (b := { a with disk := d, engine := engine', faults }) rfl rfl hz hx
  have hagain : a₁.plan = a.plan → a₁.store.ledger = a.store.ledger →
      examine { a₁ with disk, engine, faults } parse o text = .ok x := fun hplan hledger => by
    rw [← hx]
    exact examine_congr hplan rfl (hearly hledger).symm fun _ _ => by rw [hledger]
  rcases hb with ⟨hskip, rfl⟩ | ⟨l, y, rfl, hb⟩
  · have ha₁ : a₁ = a := by
      rcases of_indexText_error hfail with h | ⟨l, y, vs, hx₁, -⟩
      · exact h
      · exact absurd (hfirst hx₁) (hskip _ _)
    obtain rfl : a = a₁ := ha₁.symm
    have hsame : examine { a with disk, engine, faults } parse o text = .ok x := hagain rfl rfl
    refine ⟨x, { a with disk, engine, faults }, on_indexText_ok hsame hskip, ?_, fun _ => .inl rfl, fun _ => rfl⟩
    exact ⟨.refl _, .refl _, .refl _, rfl⟩
  · obtain ⟨vs, hvs, hpersistable, hstored⟩ := of_persist hb
    have hfinish : Partway a y vs a₁ → ∃ z c,
        (indexText parse o text true).on { a₁ with disk, engine, faults } = (.ok z, c) ∧
        SameEntries c b ∧ (c.store.edges = b.store.edges ↔ a₁.store.ledger = a.store.ledger ∨
          ∀ e ∈ y.edges, ∀ k, e.key = .ok k → a.store.edges.keys.contains k = true) := fun h => by
      obtain ⟨c, hc, hsame, hedges⟩ := h.persist hready hvs hb
      refine ⟨.indexed l y, c, ?_, hsame, fun _ => .inl h.ledger, fun _ => hedges⟩
      rw [on_indexText_indexed (hagain h.plan h.ledger), hc]
    rcases of_indexText_error hfail with rfl | ⟨l₁, y₁, us, hx₁, hus, herror⟩
    · exact hfinish (.refl _ _ _)
    · obtain ⟨rfl, rfl⟩ := Index.FileResult.indexed.inj (hfirst hx₁)
      obtain ⟨row, hrows, hrepo, hpath, hhash, -, hstale⟩ := row_of_examine hx₁
      rw [show (y₁.at d.now).chunks = y₁.chunks.map (Chunk.at d.now) from rfl] at hvs
      have hvs' : us = vs := by
        refine embedChunks_unique (a := a) (b := { a with disk := d, engine := engine', faults }) rfl hus ?_
        rw [← embedChunks_at d.now]
        exact hvs
      have hdropping := hpersistable.dropping { row with indexedAt := .int d.now } (by
        rw [Index.Yield.at, hrows]
        exact List.mem_singleton_self _)
      have hadmits : Admits a.store.symbols.documents y₁.chunks := fun c hc =>
        hpersistable.admits (c.at d.now) (List.mem_map_of_mem hc)
      rcases persist_error hus hrows (fun hstale => (hdropping hstale).clean) hadmits hpersistable.keyed herror with
        hpartway | ⟨m, linked, hm, rfl⟩
      · exact hfinish (hvs' ▸ hpartway.at d.now)
      · have hne : m.store.ledger ≠ a.store.ledger := ledger_ne_of_stored hx₁ hm.toHolds
        -- the row keeps the time of the first call
        have hnow : y₁.at d.now = y₁ := by
          rw [hlate hne]
          exact (Index.FileResult.indexed.inj (examine_at (a := a) rfl rfl hx₁ hx₁)).2.symm
        rw [hnow, ← hvs'] at hstored
        rw [hnow]
        have hserves : (faults.find? (·.1 == .findRow)).isNone = true := findRow_serves_of_examine hx
        exact recorded_agrees (m := m) hx₁ hm hserves hstored

/-- Imports are indexed again after their row could not be written. -/
theorem repeated_call_agrees_on_imports :
    let a : Atlas := { Sample.atlas with engine := { ready := true }, faults := [(.putRow, .mishap .gitCommand)] }
    let a₁ := (Sample.index Sample.imports a).2
    let b := (Sample.index Sample.imports { a with faults := [] }).2
    ∃ f z c, Sample.index Sample.imports a = (.error f, a₁) ∧
      Sample.index Sample.imports { a₁ with disk := Sample.disk, engine := { ready := true }, faults := [] } =
        (.ok z, c) ∧
      SameEntries c b ∧ c.store.edges = b.store.edges ∧ b.store.edges.keys.length = 1 := by
  intro a a₁ b
  obtain ⟨f, hf⟩ := eq_error (by decide +kernel : (Sample.index Sample.imports a).1.toBool = false)
  have hfail : Sample.index Sample.imports a = (.error f, a₁) := Prod.ext hf rfl
  have href := Act.on_eq_ok Index.FileResult.unsupported
    (by decide +kernel : (Sample.index Sample.imports { a with faults := [] }).1.toBool = true)
  obtain ⟨z, c, hc, hsame, hedges⟩ := @repeated_call_agrees a a₁ b Sample.parse Sample.origin Sample.imports f
    Sample.disk Sample.disk { ready := true } { ready := true } [] _ hfail href rfl (fun _ => rfl) (fun _ => rfl)
  have hledger : a₁.store.ledger = a.store.ledger :=
    OrderedMap.ext_entries (List.isEmpty_iff.1 (by decide +kernel : a₁.store.ledger.entries.isEmpty = true))
  exact ⟨f, z, c, hfail, hc, hsame, hedges.2 (.inl hledger), by decide +kernel⟩

/-- When the engine is not ready, imports are recorded without their edge, and the call that repeats
this one does not add it. -/
theorem edge_missing_for_good :
    let a₁ := (Sample.index Sample.imports Sample.atlas).2
    let b := (Sample.index Sample.imports { Sample.atlas with engine := { ready := true } }).2
    let c := (Sample.index Sample.imports { a₁ with engine := { ready := true } }).2
    (Sample.index Sample.imports Sample.atlas).1.toBool = false ∧
      (Sample.index Sample.imports { Sample.atlas with engine := { ready := true } }).1.toBool = true ∧
      Sample.index Sample.imports { a₁ with engine := { ready := true } } = (.ok (.unchanged .python), c) ∧
      b.store.edges.keys.length = 1 ∧ c.store.edges.keys.length = 0 := by
  intro a₁ b c
  exact ⟨by decide +kernel, by decide +kernel, Prod.ext (eq_unchanged (by decide +kernel)) rfl, by decide +kernel,
    by decide +kernel⟩

end Atlas

end SourceAtlas
