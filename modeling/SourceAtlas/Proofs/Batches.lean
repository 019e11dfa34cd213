import Mathlib.Data.List.TakeWhile
import SourceAtlas.Proofs.Examining
import SourceAtlas.Service

/-!
# Batches of files

Storing what many files yield at once comes to the same as storing it file by
file, although all that has changed is then dropped before anything is added.
Only the order of the entries may differ.
-/

namespace SourceAtlas.Atlas

open Json (Value Key)
open Search (Components VectorPoint)
open Search.VectorIndex (accepted lengthAfter)

variable {a b c : Atlas}

/-! ## Atlases that hold the same -/

/-- Equal but for the order of documents, points and texts, and for what can be rebuilt from them. -/
structure Alike (a b : Atlas) : Prop where
  plan : a.plan = b.plan
  disk : a.disk = b.disk
  faults : a.faults = b.faults
  engine : a.engine = b.engine
  edges : a.store.edges = b.store.edges
  ledger : a.store.ledger = b.store.ledger
  dimensions : a.vectors.dimensions = b.vectors.dimensions
  symbols : a.store.symbols.documents.Agrees b.store.symbols.documents
  points : a.vectors.points.Agrees b.vectors.points
  texts : a.texts.documents.Agrees b.texts.documents

theorem Alike.refl (a : Atlas) : Alike a a :=
  ⟨rfl, rfl, rfl, rfl, rfl, rfl, rfl, .refl _, .refl _, .refl _⟩

theorem Alike.trans (h : Alike a b) (h' : Alike b c) : Alike a c :=
  ⟨h.plan.trans h'.plan, h.disk.trans h'.disk, h.faults.trans h'.faults, h.engine.trans h'.engine,
    h.edges.trans h'.edges, h.ledger.trans h'.ledger, h.dimensions.trans h'.dimensions,
    h.symbols.trans h'.symbols, h.points.trans h'.points, h.texts.trans h'.texts⟩

/-! ## Two batches in one -/

theorem accepted_append {dimensions : Value} {es fs : List (Key × VectorPoint)}
    (h : accepted dimensions (es ++ fs) = es ++ fs) :
    accepted dimensions es = es ∧ accepted (lengthAfter dimensions es) fs = fs := by
  have hall : ∀ e ∈ es ++ fs, (lengthAfter dimensions (es ++ fs)).same (.int e.2.vector.length) = true :=
    List.takeWhile_eq_self_iff.1 h
  cases es with
  | nil => exact ⟨rfl, h⟩
  | cons e es =>
    have hlen : lengthAfter dimensions (e :: es ++ fs) = lengthAfter dimensions (e :: es) := rfl
    rw [hlen] at hall
    refine ⟨List.takeWhile_eq_self_iff.2 fun x hx => hall x (List.mem_append_left _ hx),
      List.takeWhile_eq_self_iff.2 fun x hx => ?_⟩
    rw [Search.VectorIndex.lengthAfter_lengthAfter]
    exact hall x (List.mem_append_right _ hx)

theorem lengthAfter_append (dimensions : Value) (es fs : List (Key × VectorPoint)) :
    lengthAfter dimensions (es ++ fs) = lengthAfter (lengthAfter dimensions es) fs := by
  cases es with
  | nil => rfl
  | cons e es => rw [Search.VectorIndex.lengthAfter_lengthAfter]; rfl

theorem pointEntries_append {cs ds : List Chunk} {us vs : List Components} (h : cs.length = us.length) :
    pointEntries (cs ++ ds) (us ++ vs) = pointEntries cs us ++ pointEntries ds vs := by
  rw [pointEntries, List.zip_append h, List.map_append]
  rfl

theorem documentEntries_append (cs ds : List Chunk) :
    documentEntries (cs ++ ds) = documentEntries cs ++ documentEntries ds := List.map_append

theorem forall₂_append {α β : Type} {R : α → β → Prop} {xs ys : List α} {zs : List β}
    (h : List.Forall₂ R (xs ++ ys) zs) : ∃ us vs, zs = us ++ vs ∧ List.Forall₂ R xs us ∧ List.Forall₂ R ys vs := by
  induction xs generalizing zs with
  | nil => exact ⟨[], zs, rfl, .nil, h⟩
  | cons x xs ih =>
    cases h with
    | cons hx h =>
      obtain ⟨us, vs, rfl, hus, hvs⟩ := ih h
      exact ⟨_ :: us, vs, rfl, .cons hx hus, hvs⟩

structure Apart (y z : Index.Yield) : Prop where
  rows : ∀ r ∈ y.rows, ∀ r' ∈ z.rows, (r.file == r'.file) = false
  chunks : ∀ c ∈ y.chunks, ∀ r' ∈ z.rows, c.file ≠ r'.file

theorem get?_putRows_of_apart {file : FileKey} : ∀ {rows : List Graph.LedgerRow} (l : Graph.Ledger),
    (∀ r ∈ rows, (r.file == file) = false) → (rows.foldl Graph.Ledger.put l).get? file = l.get? file
  | [], _, _ => rfl
  | r :: rows, l, h => by
    obtain ⟨hr, hrows⟩ := List.forall_mem_cons.1 h
    rw [List.foldl_cons, get?_putRows_of_apart _ hrows, Graph.Ledger.get?_put, if_neg (Bool.eq_false_iff.1 hr)]

theorem staleDocument_append (l : Graph.Ledger) (rows rows' : List Graph.LedgerRow) (d : Document) :
    staleDocument l (rows ++ rows') d = (staleDocument l rows d || staleDocument l rows' d) := List.any_append

theorem stale_congr {l l' : Graph.Ledger} {r : Graph.LedgerRow} (h : l'.get? r.file = l.get? r.file) :
    stale l' r = stale l r := by
  unfold stale
  rw [h]

theorem staleDocument_congr {l l' : Graph.Ledger} {rows : List Graph.LedgerRow}
    (h : ∀ r ∈ rows, l'.get? r.file = l.get? r.file) (d : Document) :
    staleDocument l' rows d = staleDocument l rows d := by
  unfold staleDocument
  rw [Bool.eq_iff_iff, List.any_eq_true, List.any_eq_true]
  constructor
  · rintro ⟨r, hr, hd⟩
    exact ⟨r, hr, stale_congr (h r hr) ▸ hd⟩
  · rintro ⟨r, hr, hd⟩
    exact ⟨r, hr, (stale_congr (h r hr)).symm ▸ hd⟩

/-- What can be stored at once can be stored in two steps. -/
theorem persistable_append {y z : Index.Yield} {us vs : List Components} {m : Atlas} (hapart : Apart y z)
    (hlen : y.chunks.length = us.length) (h : Persistable a (y.append z) (us ++ vs)) :
    Persistable a y us ∧ (Stored a y us m → Persistable m z vs) := by
  have hlengths := h.lengths
  simp only [Index.Yield.append] at hlengths
  rw [pointEntries_append hlen] at hlengths
  obtain ⟨hus, hvs⟩ := accepted_append hlengths
  have happ : ∀ {α : Type} {xs ys : List α}, ys ≠ [] → xs ++ ys ≠ [] := fun hne h =>
    hne (List.append_eq_nil_iff.1 h).2
  have happ' : ∀ {α : Type} {xs ys : List α}, xs ≠ [] → xs ++ ys ≠ [] := fun hne h =>
    hne (List.append_eq_nil_iff.1 h).1
  refine ⟨⟨⟨fun hne => h.rows (happ' hne), fun r hr => h.dropping r (List.mem_append_left _ hr),
    fun hne => h.chunks (happ' hne), hus, fun c hc => h.admits c (List.mem_append_left _ hc)⟩,
    fun e he => h.keyed e (List.mem_append_left _ he), fun hne => h.linking (happ' hne)⟩, fun hm => ?_⟩
  have hdocs : ∀ k d, m.store.symbols.documents.get? k = some d →
      a.store.symbols.documents.get? k = some d ∨ Document.Referable d := by
    intro k d hd
    rw [hm.symbols] at hd
    rcases OrderedMap.mem_of_get?_insertAll hd with ⟨j, hj, -⟩ | hd
    · exact .inr (referable_of_mem_documentEntries hj)
    · exact .inl (OrderedMap.of_get?_keep hd).1
  refine ⟨⟨fun hne => ?_, fun r hr hst => ?_, fun hne => ?_, hm.dimensions ▸ hvs, fun c hc d hd => ?_⟩,
    fun e he => h.keyed e (List.mem_append_right _ he), fun hne => ?_⟩
  · rw [serves_congr hm.faults, serves_congr hm.faults]
    exact h.rows (happ hne)
  · have hrow : m.store.ledger.get? r.file = a.store.ledger.get? r.file := by
      rw [hm.ledger]
      exact get?_putRows_of_apart _ fun r' hr' => hapart.rows r' hr' r hr
    exact (h.dropping r (List.mem_append_right _ hr) (stale_congr hrow ▸ hst)).congr hm.faults hdocs
  · exact (h.chunks (happ hne)).congr hm.faults
  · exact (hdocs c.key d hd).elim (h.admits c (List.mem_append_right _ hc) d) id
  · rw [serves_congr hm.faults, hm.engine, ready_linkAll]
    exact h.linking (happ hne)

/-- What a drop for some files keeps of entries of other files. -/
theorem not_staleDocument_of_apart {l : Graph.Ledger} {rows : List Graph.LedgerRow} {d : Document} {file : FileKey}
    (hd : ∀ f, Document.inFile f d = true ↔ f = file) (h : ∀ r ∈ rows, file ≠ r.file) :
    (!staleDocument l rows d) = true := by
  rw [Bool.not_eq_true', staleDocument, List.any_eq_false]
  intro r hr hst
  rw [Bool.and_eq_true] at hst
  exact h r hr ((hd r.file).1 hst.2).symm

theorem mem_documentEntries {cs : List Chunk} {e : Key × Document} (h : e ∈ documentEntries cs) :
    ∃ c ∈ cs, e = (c.key, c.toDocument) := by
  obtain ⟨c, hc, rfl⟩ := List.mem_map.1 h
  exact ⟨c, hc, rfl⟩

theorem mem_pointEntries {cs : List Chunk} {vs : List Components} {e : Key × VectorPoint}
    (h : e ∈ pointEntries cs vs) : ∃ c ∈ cs, ∃ v, e = (c.key, pointOf c v) := by
  obtain ⟨⟨c, v⟩, hcv, rfl⟩ := List.mem_map.1 h
  exact ⟨c, (List.of_mem_zip hcv).1, v, rfl⟩

theorem alike_append {y z : Index.Yield} {us vs : List Components} {m : Atlas} (hapart : Apart y z)
    (hlen : y.chunks.length = us.length) (hm : Stored a y us m) (hc : Stored m z vs c)
    (hb : Stored a (y.append z) (us ++ vs) b) : Alike b c := by
  have hrows : ∀ r ∈ z.rows, m.store.ledger.get? r.file = a.store.ledger.get? r.file := fun r hr => by
    rw [hm.ledger]
    exact get?_putRows_of_apart _ fun r' hr' => hapart.rows r' hr' r hr
  have hstale : ∀ d, (!staleDocument a.store.ledger (y.rows ++ z.rows) d) =
      (!staleDocument a.store.ledger y.rows d && !staleDocument m.store.ledger z.rows d) := fun d => by
    rw [staleDocument_append, Bool.not_or, staleDocument_congr hrows]
  have hbs := hb.symbols
  have hbp := hb.points
  have hbt := hb.texts
  simp only [Index.Yield.append, hstale, documentEntries_append, pointEntries_append hlen] at hbs hbp hbt
  have hkept : ∀ e ∈ documentEntries y.chunks, (!staleDocument m.store.ledger z.rows e.2) = true := fun e he => by
    obtain ⟨ch, hch, rfl⟩ := mem_documentEntries he
    exact not_staleDocument_of_apart ch.inFile_toDocument (hapart.chunks ch hch)
  have hkept' : ∀ e ∈ pointEntries y.chunks us,
      (!staleDocument m.store.ledger z.rows e.2.payload) = true := fun e he => by
    obtain ⟨ch, hch, v, rfl⟩ := mem_pointEntries he
    exact not_staleDocument_of_apart ch.inFile_payload (hapart.chunks ch hch)
  refine ⟨?_, ?_, ?_, ?_, ?_, ?_, ?_, ?_, ?_, ?_⟩
  · rw [hb.plan, hc.plan, hm.plan]
  · rw [hb.disk, hc.disk, hm.disk]
  · rw [hb.faults, hc.faults, hm.faults]
  · rw [hb.engine, hc.engine, hm.engine]
    exact List.foldl_append
  · rw [hb.edges, hc.edges, hm.edges]
    exact List.foldl_append
  · rw [hb.ledger, hc.ledger, hm.ledger]
    exact List.foldl_append
  · rw [hb.dimensions, hc.dimensions, hm.dimensions, ← lengthAfter_append, ← pointEntries_append hlen]
    rfl
  · rw [hbs, hc.symbols, hm.symbols]
    exact OrderedMap.insertAll_keep_insertAll _ _ _ hkept
  · rw [hbp, hc.points, hm.points]
    exact OrderedMap.insertAll_keep_insertAll _ _ _ hkept'
  · rw [hbt, hc.texts, hm.texts]
    exact OrderedMap.insertAll_keep_insertAll _ _ _ hkept

theorem embedChunks_congr (hplan : b.plan = a.plan) (hfaults : b.faults = a.faults) (cs : List Chunk) :
    b.embedChunks cs = a.embedChunks cs := by
  simp only [embedChunks, embedBatch, embed, check, hplan, hfaults]

/-- A batch of two yields is stored as the one and then the other. -/
theorem persist_append {y z : Index.Yield} (hapart : Apart y z) (h : (persist (y.append z)).on a = (.ok (), b)) :
    ∃ m c, (persist y).on a = (.ok (), m) ∧ (persist z).on m = (.ok (), c) ∧ Alike b c := by
  obtain ⟨ws, hws, hready, hb⟩ := of_persist h
  obtain ⟨hbatch, hall⟩ := (embedChunks_ok_iff _ ws a).1 hws
  obtain ⟨us, vs, rfl, hus, hvs⟩ := forall₂_append hall
  have hlen := hus.length_eq
  have hne : ∀ {cs : List Chunk}, cs = y.chunks ∨ cs = z.chunks → cs ≠ [] →
      a.serves .embedBatch = true ∧ a.serves .embedLast = true := by
    rintro cs hcs hne
    refine hbatch fun hnil => hne ?_
    obtain ⟨hy, hz⟩ := List.append_eq_nil_iff.1 hnil
    rcases hcs with rfl | rfl
    · exact hy
    · exact hz
  have hy : a.embedChunks y.chunks = .ok us := (embedChunks_ok_iff _ us a).2 ⟨hne (.inl rfl), hus⟩
  have hz : a.embedChunks z.chunks = .ok vs := (embedChunks_ok_iff _ vs a).2 ⟨hne (.inr rfl), hvs⟩
  obtain ⟨m, hm, hstored⟩ := persist_returns hy (persistable_append (m := a) hapart hlen hready).1
  rw [← embedChunks_congr hstored.plan hstored.faults] at hz
  obtain ⟨c, hc, hstored'⟩ := persist_returns hz ((persistable_append hapart hlen hready).2 hstored)
  exact ⟨m, c, hm, hc, alike_append hapart hlen hstored hstored' hb⟩

end SourceAtlas.Atlas
