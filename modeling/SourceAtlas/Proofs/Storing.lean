import SourceAtlas.Proofs.Writes

/-!
# Storing what files yield

Exactly when `persist` succeeds, and what the atlas holds afterwards: what was
stored of changed files is gone, and the chunks, rows and edges that were
yielded are added.
-/

namespace SourceAtlas.Atlas

open Json (Value Key)
open Search (Components)
open Search.VectorIndex (accepted lengthAfter)

variable {a b c : Atlas}

/-! ## Dropping what has changed -/

/-- Whether a document belongs to a file whose row is replaced. -/
def staleDocument (l : Graph.Ledger) (rows : List Graph.LedgerRow) (d : Document) : Bool :=
  rows.any fun r => stale l r && Document.inFile r.file d

theorem Without.none {p : Document → Bool} (hp : ∀ d, p d = false) (a : Atlas) : Without p a a := by
  refine ⟨.refl a, ?_, ?_, ?_, rfl⟩ <;> simp [hp, OrderedMap.keep_true]

theorem Without.trans {p q : Document → Bool} (h : Without p a b) (h' : Without q b c) :
    Without (fun d => p d || q d) a c := by
  refine ⟨h.toFrame.trans h'.toFrame, ?_, ?_, ?_, h'.dimensions.trans h.dimensions⟩
  · rw [h'.symbols, h.symbols, OrderedMap.keep_keep]
    simp
  · rw [h'.points, h.points, OrderedMap.keep_keep]
    simp
  · rw [h'.texts, h.texts, OrderedMap.keep_keep]
    simp

theorem Without.get?_of_get? {p : Document → Bool} {k : Key} {d : Document} (h : Without p a b)
    (hd : b.store.symbols.documents.get? k = some d) : a.store.symbols.documents.get? k = some d := by
  rw [h.symbols] at hd
  exact (OrderedMap.of_get?_keep hd).1

theorem Without.get?_or {p : Document → Bool} {k : Key} {d : Document} (h : Without p a b)
    (hd : a.store.symbols.documents.get? k = some d) : b.store.symbols.documents.get? k = some d ∨ p d = true := by
  by_cases hp : p d = true
  · exact .inr hp
  · refine .inl ?_
    rw [h.symbols, OrderedMap.get?_keep, hd]
    simpa [Option.filter_some] using hp

theorem removeStale_on (r : Graph.LedgerRow) (a : Atlas) :
    let x := (removeStale r).on a
    (x.1 = .ok () ↔ a.serves .getRow = true ∧ (stale a.store.ledger r = true → Droppable a r.file)) ∧
      (x.1 = .ok () → Without (fun d => stale a.store.ledger r && Document.inFile r.file d) a x.2) := by
  rw [on_removeStale]
  cases hs : a.serves .getRow with
  | false =>
    obtain ⟨f, hf⟩ := check_eq_error hs
    simp [hf]
  | true =>
    rw [check_eq_ok hs]
    dsimp only
    cases hstale : stale a.store.ledger r with
    | false => simpa using Without.none (fun _ => rfl) a
    | true =>
      have hiff := dropFile_ok_iff r.file a
      refine ⟨by simpa using hiff, fun h => ?_⟩
      have hdrop := hiff.1 (by simpa using h)
      have hr := dropFile_on r.file hdrop.clean
      simp only [hdrop.documents, hdrop.points, hdrop.texts, Bool.and_self, reduceIte] at hr
      simpa using hr.2

theorem removeRows_on : ∀ (rows : List Graph.LedgerRow) (a : Atlas),
    let x := (rows.forM removeStale).on a
    (x.1 = .ok () ↔ (rows ≠ [] → a.serves .getRow = true) ∧
      ∀ r ∈ rows, stale a.store.ledger r = true → Droppable a r.file) ∧
      (x.1 = .ok () → Without (staleDocument a.store.ledger rows) a x.2)
  | [], a => ⟨⟨fun _ => ⟨fun h => absurd rfl h, fun r hr => absurd hr List.not_mem_nil⟩, fun _ => rfl⟩,
      fun _ => .none (fun _ => rfl) a⟩
  | r :: rows, a => by
    obtain ⟨hok, hw⟩ := removeStale_on r a
    simp only [Act.on_forM_cons, Act.on_bind, List.forall_mem_cons]
    generalize (removeStale r).on a = x at hok hw ⊢
    obtain ⟨o, b⟩ := x
    cases o with
    | error f =>
      refine ⟨⟨fun h => (by cases h), fun ⟨hs, hr, _⟩ => ?_⟩, fun h => (by cases h)⟩
      exact absurd (hok.2 ⟨hs (List.cons_ne_nil r rows), hr⟩) (by simp)
    | ok u =>
      obtain ⟨hs, hr⟩ := hok.1 rfl
      have hw := hw rfl
      obtain ⟨ih, ihw⟩ := removeRows_on rows b
      rw [hw.ledger] at ih ihw
      rw [hw.serves] at ih
      refine ⟨ih.trans ⟨fun ⟨_, h⟩ => ⟨fun _ => hs, hr, fun r' hr' hst => ?_⟩,
        fun ⟨_, _, h⟩ => ⟨fun _ => hs, fun r' hr' hst => ?_⟩⟩,
        fun h => hw.trans (ihw h)⟩
      · -- what is dropped for the first row could be dropped for this one as well
        refine (h r' hr' hst).congr hw.faults.symm fun k d hd => (hw.get?_or hd).imp_right fun hgone => ?_
        rw [Bool.and_eq_true] at hgone
        exact (hr hgone.1).clean k d hd hgone.2
      · exact (h r' hr' hst).congr hw.faults fun k d hd => .inl (hw.get?_of_get? hd)

/-! ## Embedding chunks -/

def Embeds (a : Atlas) (c : Chunk) (v : Components) : Prop :=
  ∃ e, a.embed (.str c.embeddingText) = .ok e ∧ members e.embedding = .ok v

theorem forall₂_embeds {cs : List Chunk} {vs : List Components} :
    List.Forall₂ (Embeds a) cs vs ↔ ∃ es, List.Forall₂ (fun c e => a.embed (.str c.embeddingText) = .ok e) cs es ∧
      List.Forall₂ (fun e v => members e.embedding = .ok v) es vs := by
  constructor
  · intro h
    induction h with
    | nil => exact ⟨[], .nil, .nil⟩
    | cons hcv _ ih =>
      obtain ⟨e, he, hv⟩ := hcv
      obtain ⟨es, hes, hvs⟩ := ih
      exact ⟨e :: es, .cons he hes, .cons hv hvs⟩
  · rintro ⟨es, hes, hvs⟩
    induction hes generalizing vs with
    | nil =>
      cases hvs
      exact .nil
    | cons he _ ih =>
      cases hvs with
      | cons hv hvs => exact .cons ⟨_, he, hv⟩ (ih hvs)

theorem embedBatch_ok_iff (texts : List String) (es : List Embedding.Embedded) (a : Atlas) :
    a.embedBatch texts = .ok es ↔ a.serves .embedBatch = true ∧
      ∃ all, List.Forall₂ (fun (t : String) e => a.embed (.str t) = .ok e) texts all ∧
        es = if a.serves .embedLast then all else all.dropLast := by
  unfold embedBatch
  cases hb : a.serves .embedBatch with
  | false =>
    obtain ⟨f, hf⟩ := check_eq_error hb
    simp [hf, bind, Except.bind]
  | true =>
    rw [check_eq_ok hb]
    simp only [bind, Except.bind, true_and, ← mapM_ok_iff]
    cases texts.mapM fun (t : String) => a.embed (.str t) with
    | error f => simp
    | ok all =>
      cases hl : a.serves .embedLast with
      | false =>
        obtain ⟨f, hf⟩ := check_eq_error hl
        simp [hf, pure, Except.pure, eq_comm]
      | true => simp [check_eq_ok hl, pure, Except.pure, eq_comm]

/-- Chunks are embedded one by one, but a batch that lacks its last embedding is turned down. -/
theorem embedChunks_ok_iff (cs : List Chunk) (vs : List Components) (a : Atlas) :
    a.embedChunks cs = .ok vs ↔
      (cs ≠ [] → a.serves .embedBatch = true ∧ a.serves .embedLast = true) ∧ List.Forall₂ (Embeds a) cs vs := by
  cases cs with
  | nil =>
    rw [List.forall₂_nil_left_iff]
    exact ⟨fun h => ⟨fun h => absurd rfl h, (Except.ok.inj h).symm⟩, fun h => h.2 ▸ rfl⟩
  | cons c cs =>
    have hne : (c :: cs).map (·.embeddingText) ≠ [] := by simp
    rw [forall₂_embeds]
    simp only [embedChunks, List.isEmpty_cons, Bool.false_eq_true, reduceIte, ne_eq, reduceCtorEq,
      not_false_eq_true, forall_const]
    generalize hts : (c :: cs).map (·.embeddingText) = ts at hne ⊢
    have hmap : ∀ es, List.Forall₂ (fun (t : String) e => a.embed (.str t) = .ok e) ts es ↔
        List.Forall₂ (fun c e => a.embed (.str c.embeddingText) = .ok e) (c :: cs) es := fun es => by
      rw [← hts, List.forall₂_map_left_iff]
    constructor
    · intro h
      cases hb : a.embedBatch ts with
      | error f => simp [hb, bind, Except.bind] at h
      | ok es =>
        obtain ⟨hserves, all, hall, hes⟩ := (embedBatch_ok_iff ts es a).1 hb
        have hlen := hall.length_eq
        rw [hb] at h
        cases hl : a.serves .embedLast with
        | false =>
          rw [hl, if_neg Bool.false_ne_true] at hes
          have hshort : es.length ≠ ts.length := by
            have := List.length_pos_iff.2 hne
            rw [hes, List.length_dropLast]
            omega
          simp [hshort, bind, Except.bind, throw, throwThe, MonadExceptOf.throw] at h
        | true =>
          rw [hl, if_pos rfl] at hes
          subst hes
          simp only [bind, Except.bind, hlen, bne_self_eq_false, Bool.false_eq_true, reduceIte] at h
          exact ⟨⟨hserves, rfl⟩, es, (hmap es).1 hall, mapM_ok_iff.1 h⟩
    · rintro ⟨⟨hb, hl⟩, es, hes, hvs⟩
      have hall := (hmap es).2 hes
      have hbatch : a.embedBatch ts = .ok es := (embedBatch_ok_iff ts es a).2 ⟨hb, es, hall, by rw [if_pos hl]⟩
      simp only [hbatch, bind, Except.bind, hall.length_eq, bne_self_eq_false, Bool.false_eq_true, reduceIte]
      exact mapM_ok_iff.2 hvs

/-! ## Storing -/

structure Storable (a : Atlas) (y : Index.Yield) (vs : List Components) : Prop where
  rows : y.rows ≠ [] → a.serves .getRow = true ∧ a.serves .putRow = true
  dropping : ∀ r ∈ y.rows, stale a.store.ledger r = true → Droppable a r.file
  chunks : y.chunks ≠ [] → Writable a
  lengths : accepted a.vectors.dimensions (pointEntries y.chunks vs) = pointEntries y.chunks vs
  admits : Admits a.store.symbols.documents y.chunks

/-- `b` holds what `a` held and what was yielded; of edges and the engine it says nothing. -/
structure Holds (a : Atlas) (y : Index.Yield) (vs : List Components) (b : Atlas) : Prop where
  plan : b.plan = a.plan
  disk : b.disk = a.disk
  faults : b.faults = a.faults
  ledger : b.store.ledger = y.rows.foldl Graph.Ledger.put a.store.ledger
  symbols : b.store.symbols.documents =
    (a.store.symbols.documents.keep (!staleDocument a.store.ledger y.rows ·)).insertAll (documentEntries y.chunks)
  points : b.vectors.points =
    (a.vectors.points.keep (!staleDocument a.store.ledger y.rows ·.payload)).insertAll (pointEntries y.chunks vs)
  texts : b.texts.documents =
    (a.texts.documents.keep (!staleDocument a.store.ledger y.rows ·)).insertAll (documentEntries y.chunks)
  dimensions : b.vectors.dimensions = lengthAfter a.vectors.dimensions (pointEntries y.chunks vs)

structure StoredChunks (a : Atlas) (y : Index.Yield) (vs : List Components) (b : Atlas) : Prop
    extends Holds a y vs b where
  engine : b.engine = a.engine
  edges : b.store.edges = a.store.edges

theorem on_storeChunks (cs : List Chunk) (vs : List Components) (rows : List Graph.LedgerRow) (a : Atlas) :
    (storeChunks cs vs rows).on a =
      (rows.forM removeStale >>= fun _ => writeChunks cs vs >>= fun _ => rows.forM putRow).on a := by
  cases cs with
  | nil => rfl
  | cons c cs => simp [storeChunks, writeChunks, Act.on_bind, Function.comp_def]

/-- What is dropped first could be replaced as well. -/
theorem admits_of_without {p : Document → Bool} {cs : List Chunk} (h : Without p a b)
    (hp : ∀ k d, a.store.symbols.documents.get? k = some d → p d = true → Document.Referable d) :
    Admits b.store.symbols.documents cs ↔ Admits a.store.symbols.documents cs := by
  refine ⟨fun hb c hc d hd => ?_, fun ha c hc d hd => ha c hc d (h.get?_of_get? hd)⟩
  exact (h.get?_or hd).elim (hb c hc d) (hp c.key d hd)

/-- Without chunks it does not matter whether they could be written. -/
theorem ite_serves {α : Type} {cs : List Chunk} {serves : Bool} {x y : α} (h : cs ≠ [] → serves = true)
    (hnil : cs = [] → x = y) : (if serves then x else y) = x := by
  by_cases hcs : cs = []
  · rw [hnil hcs, ite_self]
  · rw [if_pos (h hcs)]

theorem storeChunks_on (y : Index.Yield) (vs : List Components) (a : Atlas) :
    let x := (storeChunks y.chunks vs y.rows).on a
    (x.1 = .ok () ↔ Storable a y vs) ∧ (x.1 = .ok () → StoredChunks a y vs x.2) := by
  obtain ⟨hrm, hw⟩ := removeRows_on y.rows a
  rw [on_storeChunks]
  simp only [Act.on_bind]
  generalize (y.rows.forM removeStale).on a = x at hrm hw ⊢
  obtain ⟨o, b⟩ := x
  cases o with
  | error f =>
    refine ⟨⟨fun h => (by cases h), fun h => ?_⟩, fun h => (by cases h)⟩
    exact absurd (hrm.2 ⟨fun hne => (h.rows hne).1, h.dropping⟩) (by simp)
  | ok u =>
    obtain ⟨hget, hdrop⟩ := hrm.1 rfl
    have hw : Without (staleDocument a.store.ledger y.rows) a b := hw rfl
    obtain ⟨hframe, hok, hsym, hpts, hdim, htxt⟩ := writeChunks_on y.chunks vs b
    have hadm : Admits b.store.symbols.documents y.chunks ↔ Admits a.store.symbols.documents y.chunks := by
      refine admits_of_without hw fun k d hd hst => ?_
      obtain ⟨r, hr, hin⟩ := List.any_eq_true.1 hst
      rw [Bool.and_eq_true] at hin
      exact (hdrop r hr hin.1).clean k d hd hin.2
    rw [hadm, hw.dimensions] at hok
    simp only [hw.serves, writable_iff hw.faults] at hok hsym hpts hdim htxt
    dsimp only
    generalize (writeChunks y.chunks vs).on b = x at hframe hok hsym hpts hdim htxt ⊢
    obtain ⟨o, c⟩ := x
    cases o with
    | error f =>
      refine ⟨⟨fun h => (by cases h), fun h => ?_⟩, fun h => (by cases h)⟩
      exact absurd (hok.2 ⟨h.chunks, h.lengths, h.admits⟩) (by simp)
    | ok u =>
      obtain ⟨hput, hlen, hadmits⟩ := hok.1 rfl
      obtain ⟨hrow, hend⟩ := on_putRows y.rows c
      dsimp only at hframe hsym hpts hdim htxt ⊢
      rw [hframe.serves, hw.serves] at hrow
      refine ⟨hrow.trans ⟨fun h => ⟨fun hne => ⟨hget hne, h hne⟩, hdrop, hput, hlen, hadmits⟩,
        fun h hne => (h.rows hne).2⟩, fun h => ?_⟩
      have hframe := hw.toFrame.trans hframe
      rw [hend h]
      have hsym := hsym (hadm.2 hadmits)
      rw [ite_serves (fun hne => (hput hne).documents) (fun h => by rw [h]; rfl), hw.symbols] at hsym
      rw [ite_serves (fun hne => (hput hne).points) (fun h => by rw [h]; rfl), hw.dimensions,
        hlen, hw.points] at hpts
      rw [ite_serves (fun hne => (hput hne).points) (fun h => by rw [h]; rfl), hw.dimensions] at hdim
      rw [ite_serves (fun hne => (hput hne).texts) (fun h => by rw [h]; rfl), hw.texts] at htxt
      refine ⟨⟨hframe.plan, hframe.disk, hframe.faults, ?_, hsym, hpts, htxt, hdim⟩, hframe.engine, hframe.edges⟩
      rw [hframe.ledger]

structure Persistable (a : Atlas) (y : Index.Yield) (vs : List Components) : Prop extends Storable a y vs where
  keyed : Keyed y.edges
  linking : y.edges ≠ [] → a.engine.ready = true ∧ a.serves .putEdges = true

structure Stored (a : Atlas) (y : Index.Yield) (vs : List Components) (b : Atlas) :
    Prop extends Holds a y vs b where
  engine : b.engine = linkAll y.edges a.engine
  edges : b.store.edges = edgesWith y.edges a.store.edges

theorem on_persist_nil (a : Atlas) : (persist {}).on a = (.ok (), a) := by
  have hvs : a.embedChunks [] = .ok [] := rfl
  have hstore : (storeChunks [] [] []).on a = (.ok (), a) := rfl
  have hedges : (storeEdges []).on a = (.ok (), a) := rfl
  simp [persist, Act.on_bind, hvs, hstore, hedges]

theorem on_persist {y : Index.Yield} {vs : List Components} (hvs : a.embedChunks y.chunks = .ok vs) :
    (persist y).on a = (storeChunks y.chunks vs y.rows >>= fun _ => storeEdges y.edges).on a := by
  simp [persist, Act.on_bind, hvs]

theorem on_persist_error {y : Index.Yield} {f : Failure} (h : a.embedChunks y.chunks = .error f) :
    (persist y).on a = (.error f, a) := by
  simp [persist, Act.on_bind, h]

theorem persist_on {y : Index.Yield} {vs : List Components} (hvs : a.embedChunks y.chunks = .ok vs) :
    let x := (persist y).on a
    (x.1 = .ok () ↔ Persistable a y vs) ∧ (x.1 = .ok () → Stored a y vs x.2) := by
  obtain ⟨hok, hst⟩ := storeChunks_on y vs a
  rw [on_persist hvs]
  simp only [Act.on_bind]
  generalize (storeChunks y.chunks vs y.rows).on a = x at hok hst ⊢
  obtain ⟨o, b⟩ := x
  cases o with
  | error f =>
    exact ⟨⟨fun h => (by cases h), fun h => absurd (hok.2 h.toStorable) (by simp)⟩, fun h => (by cases h)⟩
  | ok u =>
    have hst : StoredChunks a y vs b := hst rfl
    obtain ⟨hlink, hend, -, -⟩ := storeEdges_on y.edges b
    rw [hst.engine, serves_congr hst.faults] at hlink
    refine ⟨hlink.trans ⟨fun h => ⟨hok.1 rfl, h.1, h.2⟩, fun h => ⟨h.keyed, h.linking⟩⟩, fun h => ?_⟩
    rw [hend h]
    refine ⟨⟨hst.plan, hst.disk, hst.faults, hst.ledger, hst.symbols, hst.points, hst.texts, hst.dimensions⟩, ?_,
      ?_⟩
    · rw [hst.engine]
    · rw [hst.edges]

theorem persist_returns {y : Index.Yield} {vs : List Components} (hvs : a.embedChunks y.chunks = .ok vs)
    (h : Persistable a y vs) : ∃ b, (persist y).on a = (.ok (), b) ∧ Stored a y vs b := by
  obtain ⟨hok, hst⟩ := persist_on hvs
  exact ⟨_, Prod.ext (hok.2 h) rfl, hst (hok.2 h)⟩

theorem of_persist {y : Index.Yield} (h : (persist y).on a = (.ok (), b)) :
    ∃ vs, a.embedChunks y.chunks = .ok vs ∧ Persistable a y vs ∧ Stored a y vs b := by
  cases hvs : a.embedChunks y.chunks with
  | error f => simp [persist, Act.on_bind, hvs] at h
  | ok vs =>
    obtain ⟨hok, hst⟩ := persist_on hvs
    rw [h] at hok hst
    exact ⟨vs, rfl, hok.1 rfl, hst rfl⟩

end SourceAtlas.Atlas
