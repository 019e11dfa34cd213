import SourceAtlas.Proofs.FileTrees
import SourceAtlas.Proofs.Orders
import SourceAtlas.Proofs.References
import SourceAtlas.Proofs.Traversals

/-!
# Reading snapshots back

Each part is written as a record, and reading that record gives the part again:
the same entries in the same order. What is not written is rebuilt from it.
-/

namespace SourceAtlas

open Json (Value Record Key)
open Search (Components VectorPoint)

/-! ## What indexing writes -/

def OfChunks (m : OrderedMap Key Document) : Prop := ∀ e ∈ m.entries, ∃ c : Chunk, e = (c.key, c.toDocument)

def PointsOfChunks (m : OrderedMap Key VectorPoint) : Prop :=
  ∀ e ∈ m.entries, ∃ c v, e = (Chunk.key c, Atlas.pointOf c v)

theorem OrderedMap.forall_insertAll {κ α : Type} [BEq κ] [EquivBEq κ] {P : κ × α → Prop} {m : OrderedMap κ α}
    {es : List (κ × α)} (hm : ∀ e ∈ m.entries, P e) (hes : ∀ e ∈ es, P e)
    (hkey : ∀ e ∈ es, ∀ k, (k == e.1) = true → k = e.1) : ∀ e ∈ (m.insertAll es).entries, P e := by
  intro e he
  rcases mem_insertAll he with he | ⟨f, hf, hvalue, hsame⟩
  · exact hm e he
  · obtain rfl : e = f := Prod.ext (hkey f hf _ hsame) hvalue
    exact hes e hf

theorem Chunk.eq_key {c : Chunk} {k : Key} (h : (k == c.key) = true) : k = c.key := (c.key_beq k).1 (BEq.symm h)

theorem OfChunks.empty : OfChunks .empty := by
  intro e he
  cases he

theorem OfChunks.keep {m : OrderedMap Key Document} (h : OfChunks m) (p : Document → Bool) :
    OfChunks (m.keep p) := by
  intro e he
  exact h e (List.mem_filter.1 he).1

theorem OfChunks.insertAll {m : OrderedMap Key Document} (h : OfChunks m) (cs : List Chunk) :
    OfChunks (m.insertAll (documentEntries cs)) := by
  have hentries : ∀ e ∈ documentEntries cs, ∃ c : Chunk, e = (c.key, c.toDocument) := by
    intro e he
    obtain ⟨c, -, rfl⟩ := List.mem_map.1 he
    exact ⟨c, rfl⟩
  refine OrderedMap.forall_insertAll h hentries fun e he k hk => ?_
  obtain ⟨c, rfl⟩ := hentries e he
  exact Chunk.eq_key hk

theorem PointsOfChunks.keep {m : OrderedMap Key VectorPoint} (h : PointsOfChunks m) (p : VectorPoint → Bool) :
    PointsOfChunks (m.keep p) := by
  intro e he
  exact h e (List.mem_filter.1 he).1

theorem PointsOfChunks.insertAll {m : OrderedMap Key VectorPoint} (h : PointsOfChunks m) (cs : List Chunk)
    (vs : List Components) : PointsOfChunks (m.insertAll (Atlas.pointEntries cs vs)) := by
  have hentries : ∀ e ∈ Atlas.pointEntries cs vs, ∃ c v, e = (Chunk.key c, Atlas.pointOf c v) := by
    intro e he
    obtain ⟨⟨c, v⟩, -, rfl⟩ := List.mem_map.1 he
    exact ⟨c, v, rfl⟩
  refine OrderedMap.forall_insertAll h hentries fun e he k hk => ?_
  obtain ⟨c, v, rfl⟩ := hentries e he
  exact Chunk.eq_key hk

/-- Such documents are those of some chunks, in their order. -/
theorem exists_chunks {P : Chunk → Prop} {es : List (Key × Document)}
    (h : ∀ e ∈ es, ∃ c, P c ∧ e = (c.key, c.toDocument)) : ∃ cs, (∀ c ∈ cs, P c) ∧ es = documentEntries cs := by
  induction es with
  | nil => exact ⟨[], fun c hc => absurd hc List.not_mem_nil, rfl⟩
  | cons e es ih =>
    obtain ⟨⟨c, hc, rfl⟩, hes⟩ := List.forall_mem_cons.1 h
    obtain ⟨cs, hcs, rfl⟩ := ih hes
    exact ⟨c :: cs, List.forall_mem_cons.2 ⟨hc, hcs⟩, rfl⟩

theorem OfChunks.exists_chunks {m : OrderedMap Key Document} (h : OfChunks m) :
    ∃ cs, m.entries = documentEntries cs := by
  obtain ⟨cs, -, hcs⟩ := SourceAtlas.exists_chunks (P := fun _ => True) fun e he => by
    obtain ⟨c, hc⟩ := h e he
    exact ⟨c, trivial, hc⟩
  exact ⟨cs, hcs⟩

theorem toDocument_of_entries {cs ds : List Chunk} (h : documentEntries cs = documentEntries ds) :
    cs.map Chunk.toDocument = ds.map Chunk.toDocument := by
  have hsnd := congrArg (List.map Prod.snd) h
  simpa [documentEntries, Function.comp_def] using hsnd

/-! ## Points -/

theorem ofValue_pointOf (c : Chunk) (v : Components) :
    VectorPoint.ofValue (Atlas.pointOf c v).toValue = .ok (Atlas.pointOf c v) := rfl

namespace Search.VectorIndex

theorem on_readPoints (es : List (Key × VectorPoint))
    (h : ∀ e ∈ es, VectorPoint.ofValue e.2.toValue = .ok e.2 ∧ asKey e.2.id = .ok e.1) (x : VectorIndex) :
    ((es.map fun e => e.2.toValue).forM fun v => (do
      let p ← Act.ofOutcome (VectorPoint.ofValue v)
      let id ← Act.ofOutcome (asKey p.id)
      modify fun x => { x with points := x.points.insert id p } : Act VectorIndex Unit)).on x =
        (.ok (), { x with points := x.points.insertAll es }) := by
  induction es generalizing x with
  | nil => rfl
  | cons e es ih =>
    obtain ⟨⟨hvalue, hid⟩, hes⟩ := List.forall_mem_cons.1 h
    simp only [List.map_cons, Act.on_forM_cons, Act.on_bind, Act.on_ofOutcome, hvalue, hid, Act.on_modify]
    exact ih hes _

/-- Reading what was written of an index gives the same points; dimensions that were not known
stay as they are. -/
theorem load_saved {x : VectorIndex} (hx : PointsOfChunks x.points) (y : VectorIndex) :
    (load (.obj (Snapshot.versioned x.toRecord))).on y = (.ok (), {
      dimensions := match x.dimensions with
        | .null => y.dimensions
        | n => n
      points := x.points }) := by
  have hread := on_readPoints x.points.entries (fun e he => by
    obtain ⟨c, v, rfl⟩ := hx e he
    exact ⟨ofValue_pointOf c v, rfl⟩) { y with points := .empty }
  have hpoints : fieldOr (.obj (Snapshot.versioned x.toRecord)) "points" (.list []) =
      .ok (.list (x.points.values.map VectorPoint.toValue)) := rfl
  have hdimensions : fieldOr (.obj (Snapshot.versioned x.toRecord)) "dimensions" .null = .ok x.dimensions := rfl
  have hmembers : members (.list (x.points.values.map VectorPoint.toValue)) =
      .ok (x.points.entries.map fun e => e.2.toValue) := by
    simp [members, OrderedMap.values, Function.comp_def, pure, Except.pure]
  simp only [load, Act.on_bind, Act.on_modify, Act.on_ofOutcome, hpoints, hmembers, hread, hdimensions,
    OrderedMap.insertAll_entries]
  cases x.dimensions <;> rfl

end Search.VectorIndex

/-! ## Texts -/

namespace Search.TextIndex

def Counted (x : TextIndex Float) : Prop := ∀ k, x.terms.get? k = (x.documents.get? k).map termsOf

theorem keeps_addAll {P : TextIndex Float → Prop} (hadd : ∀ (x : TextIndex Float) id d, P x →
      P { x with documents := x.documents.insert id d, terms := x.terms.insert id (termsOf d) })
    (documents : List Value) :
    Act.Keeps P (addAll documents) := by
  refine .forM (fun d x hx => ?_) documents
  simp only [Act.on_bind, Act.on_get, Act.on_ofOutcome]
  cases hd : x.add d with
  | error f => exact hx
  | ok y =>
    obtain ⟨id, -, hd⟩ := bind_eq_ok.1 hd
    obtain ⟨document, -, hd⟩ := bind_eq_ok.1 hd
    obtain rfl := pure_eq_ok.1 hd
    exact hadd x id document hx

theorem Counted.add {x : TextIndex Float} (hx : x.Counted) (id : Key) (d : Document) :
    Counted { x with documents := x.documents.insert id d, terms := x.terms.insert id (termsOf d) } := by
  intro k
  rw [OrderedMap.get?_insert, OrderedMap.get?_insert, hx k]
  split <;> rfl

theorem Counted.delete {x : TextIndex Float} (hx : x.Counted) (p : Document → Bool) : (x.delete p).Counted := by
  intro k
  have hterms := x.terms.get?_filter (p := fun id _ => !(x.documents.filter fun _ d => p d).keys.contains id)
    (fun i j _ hij => by rw [contains_congr _ hij]) k
  have hdocuments := x.documents.get?_keep (!p ·) k
  show (x.terms.filter _).get? k = ((x.documents.keep (!p ·)).get? k).map termsOf
  rw [hterms, hdocuments, hx k]
  have hdoomed : (x.documents.filter fun _ d => p d).keys.contains k = (x.documents.get? k).any p := by
    rw [OrderedMap.contains_keys]
    show ((x.documents.keep p).get? k).isSome = _
    rw [OrderedMap.get?_keep, Option.isSome_filter]
  rw [hdoomed]
  cases x.documents.get? k with
  | none => rfl
  | some d => cases hp : p d <;> simp [Option.filter_some, hp]

theorem parameters_addAll (documents : List Value) (x : TextIndex Float) :
    ((addAll documents).on x).2.k1 = x.k1 ∧ ((addAll documents).on x).2.b = x.b :=
  keeps_addAll (P := fun y => y.k1 = x.k1 ∧ y.b = x.b) (fun _ _ _ h => h) documents x ⟨rfl, rfl⟩

/-- Reading what was written of an index gives the same documents, with their terms counted anew. -/
theorem load_saved {x : TextIndex Float} (hx : OfChunks x.documents) (y : TextIndex Float) :
    ∃ z, (load (.obj (Snapshot.versioned x.toRecord))).on y = (.ok (), z) ∧ z.documents = x.documents ∧ z.Counted ∧
      z.k1 = y.k1 ∧ z.b = y.b := by
  obtain ⟨cs, hcs⟩ := hx.exists_chunks
  have hdocuments : fieldOr (.obj (Snapshot.versioned x.toRecord)) "documents" (.list []) =
      .ok (.list (x.documents.values.map .obj)) := rfl
  have hmembers : members (.list (x.documents.values.map Value.obj)) = .ok (cs.map fun c => .obj c.toDocument) := by
    simp [members, OrderedMap.values, hcs, documentEntries, Function.comp_def, pure, Except.pure]
  have hload : (load (.obj (Snapshot.versioned x.toRecord))).on y =
      (addAll (cs.map fun c => .obj c.toDocument)).on { y with documents := .empty, terms := .empty } := by
    simp only [load, Act.on_bind, Act.on_modify, Act.on_ofOutcome, hdocuments, hmembers]
    rfl
  obtain ⟨hok, hread⟩ := addAll_chunks cs { y with documents := .empty, terms := .empty }
  have hcounted : Counted ((addAll (cs.map fun c => .obj c.toDocument)).on
      { y with documents := .empty, terms := .empty }).2 :=
    keeps_addAll (fun x id d hx => hx.add id d) _ _ fun _ => rfl
  obtain ⟨hk1, hb⟩ := parameters_addAll (cs.map fun c => .obj c.toDocument)
    { y with documents := .empty, terms := .empty }
  refine ⟨_, hload.trans (Prod.ext hok rfl), ?_, hcounted, hk1, hb⟩
  rw [hread, ← hcs]
  exact x.documents.insertAll_entries

end Search.TextIndex

/-! ## The graph store -/

namespace Graph

theorem EdgeType.ofValue_name (t : EdgeType) : EdgeType.ofValue (.str t.name) = .ok t := by
  cases t <;> rfl

theorem LedgerRow.ofValue_toValue (r : LedgerRow) : LedgerRow.ofValue r.toValue = .ok r := by
  have hread : LedgerRow.ofValue r.toValue = (do
      pure { r with repo := ← asKey r.repo.toValue, path := ← asKey r.path.toValue }) := rfl
  rw [hread, asKey_toValue, asKey_toValue]
  rfl

def Ledger.Keyed (l : Ledger) : Prop := ∀ e ∈ l.entries, (e.1 == e.2.file) = true

theorem Ledger.Keyed.put {l : Ledger} (h : l.Keyed) (r : LedgerRow) : (l.put r).Keyed :=
  OrderedMap.KeyedBy.insert (f := LedgerRow.file) h _ BEq.rfl

theorem Ledger.Keyed.foldl_put {l : Ledger} (h : l.Keyed) (rows : List LedgerRow) :
    (rows.foldl Ledger.put l).Keyed := by
  induction rows generalizing l with
  | nil => exact h
  | cons r rows ih => exact ih (h.put r)

/-- Rows that are put one by one are those that there were, in the same order. -/
theorem Ledger.Keyed.reread {l : Ledger} (h : l.Keyed) :
    (l.values.foldl Ledger.put .empty).values = l.values ∧ (l.values.foldl Ledger.put .empty).Agrees l := by
  have hkeyed : l.KeyedBy LedgerRow.file := h
  have hfold : l.values.foldl Ledger.put .empty = OrderedMap.insertAll .empty (l.rekeyed LedgerRow.file) := by
    rw [OrderedMap.values, OrderedMap.rekeyed, OrderedMap.insertAll, List.foldl_map, List.foldl_map]
    rfl
  have hentries : (l.values.foldl Ledger.put .empty).entries = l.rekeyed LedgerRow.file := by
    rw [hfold]
    exact OrderedMap.entries_insertAll .empty _ hkeyed.distinct
  refine ⟨?_, hkeyed.agrees hentries⟩
  rw [OrderedMap.values, hentries, OrderedMap.map_snd_rekeyed]

namespace Store

theorem edgeKey_keyRecord (k : EdgeKey) : edgeKey (.obj (keyRecord k)) = .ok k := by
  have hread : edgeKey (.obj (keyRecord k)) = (do
      let type ← EdgeType.ofValue (.str k.2.2.name)
      pure (← asKey k.1.toValue, ← asKey k.2.1.toValue, type)) := rfl
  rw [hread, EdgeType.ofValue_name, asKey_toValue, asKey_toValue]
  rfl

theorem on_readEdges (ks : List EdgeKey) (x : Store) :
    ((ks.map fun k => Value.obj (keyRecord k)).forM fun v => (do
      let key ← Act.ofOutcome (edgeKey v)
      modify (·.putKey key) : Act Store Unit)).on x = (.ok (), { x with edges := ks.foldl Edges.put x.edges }) := by
  induction ks generalizing x with
  | nil => rfl
  | cons k ks ih =>
    simp only [List.map_cons, Act.on_forM_cons, Act.on_bind, Act.on_ofOutcome, edgeKey_keyRecord, Act.on_modify]
    exact ih _

theorem on_readRows (rows : List LedgerRow) (x : Store) :
    ((rows.map LedgerRow.toValue).forM fun v => (do
      let row ← Act.ofOutcome (LedgerRow.ofValue v)
      modify (·.putRow row) : Act Store Unit)).on x =
        (.ok (), { x with ledger := rows.foldl Ledger.put x.ledger }) := by
  induction rows generalizing x with
  | nil => rfl
  | cons r rows ih =>
    simp only [List.map_cons, Act.on_forM_cons, Act.on_bind, Act.on_ofOutcome,
      LedgerRow.ofValue_toValue, Act.on_modify]
    exact ih _

theorem of_toRecord {x : Store} {data : Record} (h : x.toRecord = .ok data) :
    ∃ ks : List EdgeKey, ks.Perm x.edges.keys ∧
    data = [("symbols", .list (x.symbols.documents.values.map .obj)),
      ("edges", .list (ks.map fun k => .obj (keyRecord k))),
      ("metadata", .list (x.ledger.values.map LedgerRow.toValue))] := by
  obtain ⟨ks, hks, h⟩ := bind_eq_ok.1 h
  refine ⟨ks, ?_, (pure_eq_ok.1 h).symm⟩
  exact sortChecked_perm hks

/-- A store that was read back: the same documents and rows in the same order, and the same edges.
References lead to the documents that have them. -/
structure Reread (x z : Store) : Prop where
  documents : z.symbols.documents = x.symbols.documents
  edges : ∃ ks : List EdgeKey, ks.Perm x.edges.keys ∧ z.edges = ks.foldl Edges.put {}
  rows : z.ledger.values = x.ledger.values
  ledger : z.ledger.Agrees x.ledger
  keyed : z.ledger.Keyed
  indexed : ∀ us, DistinctRefs us → (∀ e ∈ x.symbols.documents.entries, ∃ c ∈ us, e = (c.key, c.toDocument)) →
    z.symbols.Indexed us

theorem Reread.empty : Reread {} {} where
  documents := rfl
  edges := ⟨[], .nil, rfl⟩
  rows := rfl
  ledger := .refl _
  keyed e he := by cases he
  indexed us _ _ := .empty us

theorem indexed_putAll {us cs : List Chunk} (hrefs : DistinctRefs us) (hcs : ∀ c ∈ cs, c ∈ us) :
    Act.Keeps (fun x => x.symbols.Indexed us) (putAll (cs.map fun c => .obj c.toDocument)) := by
  induction cs with
  | nil =>
    intro x hx
    exact hx
  | cons c cs ih =>
    obtain ⟨hc, hcs⟩ := List.forall_mem_cons.1 hcs
    refine .bind (fun x hx => ?_) fun _ => ih hcs
    obtain ⟨-, hsymbols, -⟩ := on_put_chunk c x
    rw [hsymbols]
    exact Symbols.Indexed.put hrefs hc x.symbols hx

theorem load_saved {x : Store} {data : Record} (hdocuments : OfChunks x.symbols.documents) (hrows : x.ledger.Keyed)
    (hdata : x.toRecord = .ok data) (y : Store) :
    ∃ z, (load (.obj (Snapshot.versioned data))).on y = (.ok (), z) ∧ Reread x z := by
  obtain ⟨ks, hks, rfl⟩ := of_toRecord hdata
  obtain ⟨cs, hcs⟩ := hdocuments.exists_chunks
  generalize hrecord : Value.obj (Snapshot.versioned
    [("symbols", .list (x.symbols.documents.values.map .obj)),
    ("edges", .list (ks.map fun k => .obj (keyRecord k))),
      ("metadata", .list (x.ledger.values.map LedgerRow.toValue))]) = record
  have hsymbols : part record "symbols" = .ok (cs.map fun c => .obj c.toDocument) := by
    have hpart : part record "symbols" = .ok (x.symbols.documents.values.map .obj) := hrecord ▸ rfl
    rw [hpart]
    simp [OrderedMap.values, hcs, documentEntries, Function.comp_def]
  have hedges : part record "edges" = .ok (ks.map fun k => .obj (keyRecord k)) := hrecord ▸ rfl
  have hledger : part record "metadata" = .ok (x.ledger.values.map LedgerRow.toValue) := hrecord ▸ rfl
  obtain ⟨hok, hread, hlinks⟩ := putAll_chunks cs {}
  have hadmits : Admits (OrderedMap.empty : OrderedMap Key Document) cs := by
    intro c _ d hd
    cases hd
  have hread := hread (hok.2 hadmits)
  have hindexed : ∀ us, DistinctRefs us → (∀ e ∈ x.symbols.documents.entries, ∃ c ∈ us, e = (c.key, c.toDocument)) →
      ((putAll (cs.map fun c => .obj c.toDocument)).on {}).2.symbols.Indexed us := by
    intro us hrefs hus
    obtain ⟨ds, hds, hentries⟩ := exists_chunks hus
    have hsame : (cs.map fun c => Value.obj c.toDocument) = ds.map fun c => .obj c.toDocument := by
      have hdocs := congrArg (List.map Value.obj) (toDocument_of_entries (hcs.symm.trans hentries))
      simpa [Function.comp_def] using hdocs
    rw [hsame]
    exact indexed_putAll hrefs hds {} (.empty us)
  have hput : (putAll (cs.map fun c => .obj c.toDocument)).on {} =
      (.ok (), ((putAll (cs.map fun c => .obj c.toDocument)).on {}).2) := Prod.ext (hok.2 hadmits) rfl
  generalize ((putAll (cs.map fun c => .obj c.toDocument)).on {}).2 = m at hput hread hlinks hindexed
  refine ⟨{ m with edges := ks.foldl Edges.put {}, ledger := x.ledger.values.foldl Ledger.put .empty }, ?_, ?_⟩
  · have hset : (set ({} : Store) : Act Store Unit).on y = (.ok (), {}) := rfl
    simp only [load, Act.on_bind, hset, Act.on_liftOutcome, hsymbols, hput, Act.on_ofOutcome, hedges, on_readEdges,
      hledger, on_readRows, hlinks.1, hlinks.2]
  · refine ⟨?_, ⟨ks, hks, rfl⟩, hrows.reread.1, hrows.reread.2, ?_, hindexed⟩
    case refine_2 =>
      exact Ledger.Keyed.foldl_put (fun e he => absurd he List.not_mem_nil) _
    rw [hread, ← hcs]
    exact x.symbols.documents.insertAll_entries

end Store

end Graph

end SourceAtlas
