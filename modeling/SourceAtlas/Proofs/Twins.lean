import SourceAtlas.Atlas.Hybrid
import SourceAtlas.Proofs.Batches
import SourceAtlas.Proofs.FileEdges

/-!
# Atlases that answer alike

What is rebuilt from the stores may be laid out in another way: rows and terms
in another order, edges as they were listed and not as they came. No call
tells the difference, and none makes one.
-/

namespace SourceAtlas

open Json (Value Key)
open Act (Respects)

namespace OrderedMap

variable {κ α : Type} [BEq κ] [EquivBEq κ] {m n : OrderedMap κ α}

theorem Agrees.insert (h : m.Agrees n) (k : κ) (v : α) : (m.insert k v).Agrees (n.insert k v) := by
  intro j
  rw [get?_insert, get?_insert, h j]

theorem Agrees.erase (h : m.Agrees n) (k : κ) : (m.erase k).Agrees (n.erase k) := by
  intro j
  rw [get?_erase, get?_erase, h j]

end OrderedMap

/-! ## Symbols -/

namespace Graph.Symbols

/-- The same documents. Whether references lead to the same ones is left open unless it matters. -/
structure Twin (refs : Prop) (x y : Symbols) : Prop where
  documents : x.documents = y.documents
  idOfRef : refs → x.idOfRef.Agrees y.idOfRef

variable {refs : Prop} {x y : Symbols}

theorem respects_forget (d : Document) : Respects (Twin refs) (forget d) := by
  unfold forget
  split
  · refine .bind (.lift _) fun ref => .modify fun x y h => ⟨h.documents, fun hrefs => ?_⟩
    exact (h.idOfRef hrefs).erase ref
  · exact .pure _

theorem respects_settle (id : Key) (d : Document) : Respects (Twin refs) (settle id d) := by
  unfold settle
  refine .bind (.modify fun x y h => ⟨?_, h.idOfRef⟩) fun _ => ?_
  · rw [h.documents]
  · split
    · refine .bind (.lift _) fun ref => .modify fun x y h => ⟨h.documents, fun hrefs => ?_⟩
      exact (h.idOfRef hrefs).insert ref id
    · exact .pure _

theorem respects_put (id : Key) (d : Document) : Respects (Twin refs) (put id d) := by
  intro x y h
  rw [on_put, on_put, h.documents]
  cases y.documents.get? id with
  | none => exact respects_settle id d x y h
  | some previous => exact Respects.bind (respects_forget previous) (fun _ => respects_settle id d) x y h

theorem respects_remove (refs' : List Key) (id : Key) (d : Document) :
    Respects (Twin refs) (remove refs' id d) := by
  unfold remove
  refine .bind (.modify fun x y h => ⟨?_, h.idOfRef⟩) fun _ => ?_
  · rw [h.documents]
  · split
    · exact .pure _
    · refine .bind (.lift _) fun ref => .bind (.modify fun x y h => ⟨h.documents, fun hrefs => ?_⟩) fun _ => .pure _
      exact (h.idOfRef hrefs).erase ref

theorem respects_drop (p : Document → Bool) : Respects (Twin refs) (drop p) := by
  refine .get ?_ ?_
  · intro x y h
    rw [h.documents]
  · intro x
    have hremove : ∀ (refs' : List Key) (e : Key × Document), Respects (Twin refs) (remove refs' e.1 e.2) :=
      fun refs' e => respects_remove refs' e.1 e.2
    exact .foldlM hremove (x.documents.entries.filter fun e => p e.2) []

theorem Twin.get? (h : Twin refs x y) (hrefs : refs) (name : Key) : x.get? name = y.get? name := by
  rw [Symbols.get?, Symbols.get?, h.documents, h.idOfRef hrefs]

end Graph.Symbols

/-! ## The graph store -/

namespace Graph.Store

structure Twin (refs : Prop) (x y : Store) : Prop where
  symbols : x.symbols.Twin refs y.symbols
  ledger : x.ledger.Agrees y.ledger

variable {refs : Prop} {α : Type}

theorem respects_inSymbols {act : Act Symbols α} (h : Respects (Symbols.Twin refs) act) :
    Respects (Twin refs) (inSymbols act) :=
  h.within (fun _ _ h => h.symbols) fun _ _ _ _ h h' => ⟨h', h.ledger⟩

theorem respects_put (document : Value) : Respects (Twin refs) (put document) := by
  refine .bind (.lift _) fun id => .bind (.lift _) fun d => ?_
  refine .bind (respects_inSymbols (Symbols.respects_put id d)) fun _ => ?_
  split
  · exact .bind (.lift _) fun _ => .modify fun x y h => ⟨h.symbols, h.ledger⟩
  · exact .pure _

theorem respects_deleteFile (repo path : Value) : Respects (Twin refs) (deleteFile repo path) :=
  .bind (respects_inSymbols (Symbols.respects_drop _)) fun _ => .pure _

theorem respects_putEdge (e : Edge) : Respects (Twin refs) (putEdge e) :=
  .bind (.lift _) fun _ => .modify fun _ _ h => ⟨h.symbols, h.ledger⟩

theorem Twin.putRow {x y : Store} (h : Twin refs x y) (r : LedgerRow) : Twin refs (x.putRow r) (y.putRow r) :=
  ⟨h.symbols, h.ledger.insert _ r⟩

end Graph.Store

/-! ## Texts -/

namespace Search.TextIndex

structure Twin (x y : TextIndex Float) : Prop where
  documents : x.documents = y.documents
  terms : x.terms.Agrees y.terms
  k1 : x.k1 = y.k1
  b : x.b = y.b

variable {x y : TextIndex Float}

theorem respects_addAll (documents : List Value) : Respects Twin (addAll documents) := by
  refine .forM fun d _ x y h => ?_
  simp only [Act.on_bind, Act.on_get, Act.on_ofOutcome, add]
  cases Document.idOf d with
  | error f => exact ⟨rfl, h⟩
  | ok id =>
    cases asRecord d with
    | error f => exact ⟨rfl, h⟩
    | ok document =>
      refine ⟨rfl, ?_, h.terms.insert id (termsOf document), h.k1, h.b⟩
      show x.documents.insert id document = y.documents.insert id document
      rw [h.documents]

theorem Twin.delete (h : Twin x y) (p : Document → Bool) : Twin (x.delete p) (y.delete p) := by
  refine ⟨?_, fun id => ?_, h.k1, h.b⟩
  · show x.documents.keep (!p ·) = y.documents.keep (!p ·)
    rw [h.documents]
  · show (x.terms.filter _).get? id = (y.terms.filter _).get? id
    have hcongr : ∀ (keys : List Key) (j k : Key) (v : DocumentTerms), (j == k) = true →
        (!keys.contains j) = !keys.contains k := fun keys j k v hjk => by rw [contains_congr keys hjk]
    rw [OrderedMap.get?_filter _ (hcongr _), OrderedMap.get?_filter _ (hcongr _), h.documents, h.terms id]

theorem Twin.search (h : Twin x y) (query : String) (workspace : Value) (filters : Filters) (limit : Value) :
    x.search query workspace filters limit = y.search query workspace filters limit := by
  have hterms : ∀ id, x.terms.get? id = y.terms.get? id := h.terms
  have hscope : x.scope filters workspace = y.scope filters workspace := by
    simp only [scope, h.documents, hterms]
  simp only [TextIndex.search, hscope, h.documents, h.k1, h.b]

end Search.TextIndex

/-! ## The engine -/

namespace Graph.Engine

/-- Both engines have the same edges, between texts, and out of each reference with one type. -/
structure Twin (x y : Engine) : Prop where
  ready : x.ready = y.ready
  plain : x.out.Plain
  plain' : y.out.Plain
  holds : ∃ p, x.Holds p ∧ y.Holds p ∧ ∀ k, p k = true → Named k

variable {x y : Engine}

theorem Twin.dependencies (h : Twin x y) (ref : Key) : x.dependencies ref none = y.dependencies ref none := by
  obtain ⟨p, hx, hy, hnamed⟩ := h.holds
  refine Adjacency.lookup_eq_of_joins h.plain h.plain' hx.tidy hy.tidy (fun k => ?_) (fun k hk => ?_) ref
  · rw [hx.out, hy.out]
  · rw [hx.out] at hk
    exact hnamed k hk

theorem respects_link {e : Edge} (he : ∃ k, e.key = .ok k ∧ Usual k) : Respects Twin (link e) := by
  obtain ⟨k, hk, husual⟩ := he
  intro x y h
  obtain ⟨p, hx, hy, hnamed⟩ := h.holds
  refine ⟨by rw [link_on hk, link_on hk], ?_, plain_link h.plain hk husual, plain_link h.plain' hk husual, ?_⟩
  · rw [Atlas.ready_link, Atlas.ready_link, h.ready]
  · refine ⟨_, hx.link hk, hy.link hk, fun j hj => ?_⟩
    rcases Bool.or_eq_true_iff.1 hj with hj | hj
    · have hsame := BEq.symm hj
      exact (husual.of_beq hsame).named
    · exact hnamed j hj

end Graph.Engine

/-! ## Atlases -/

namespace Atlas

/-- Two atlases that answer alike, those calls apart that look symbols up by reference unless that
leads to the same ones. -/
structure Twin (refs : Prop) (a b : Atlas) : Prop where
  plan : a.plan = b.plan
  disk : a.disk = b.disk
  faults : a.faults = b.faults
  vectors : a.vectors = b.vectors
  store : a.store.Twin refs b.store
  texts : a.texts.Twin b.texts
  engine : a.engine.Twin b.engine

variable {refs : Prop} {a b : Atlas} {α : Type}

theorem Twin.check (h : Twin refs a b) (op : Operation) : a.check op = b.check op := by
  rw [Atlas.check, Atlas.check, h.faults]

theorem Twin.elsewhere (h : Twin refs a b) (disk : Disk) (faults : List (Operation × Failure)) :
    Twin refs { a with disk, faults } { b with disk, faults } :=
  ⟨h.plan, rfl, rfl, h.vectors, h.store, h.texts, h.engine⟩

theorem respects_serving (op : Operation) : Respects (Twin refs) (serving op) := by
  intro a b h
  rw [on_serving, on_serving, h.check]
  exact ⟨rfl, h⟩

theorem respects_inStore {x : Act Graph.Store α} (hx : Respects (Graph.Store.Twin refs) x) :
    Respects (Twin refs) (inStore x) :=
  hx.within (fun _ _ h => h.store) fun _ _ _ _ h h' => ⟨h.plan, h.disk, h.faults, h.vectors, h', h.texts, h.engine⟩

theorem respects_inVectors (x : Act Search.VectorIndex α) : Respects (Twin refs) (inVectors x) :=
  (Respects.of_eq x).within (fun _ _ h => h.vectors) fun _ _ _ _ h h' =>
    ⟨h.plan, h.disk, h.faults, h', h.store, h.texts, h.engine⟩

theorem respects_inTexts {x : Act (Search.TextIndex Float) α} (hx : Respects Search.TextIndex.Twin x) :
    Respects (Twin refs) (inTexts x) :=
  hx.within (fun _ _ h => h.texts) fun _ _ _ _ h h' => ⟨h.plan, h.disk, h.faults, h.vectors, h.store, h', h.engine⟩

theorem respects_inEngine {x : Act Graph.Engine α} (hx : Respects Graph.Engine.Twin x) :
    Respects (Twin refs) (inEngine x) :=
  hx.within (fun _ _ h => h.engine) fun _ _ _ _ h h' => ⟨h.plan, h.disk, h.faults, h.vectors, h.store, h.texts, h'⟩

/-! ## Indexing -/

theorem respects_getRow (repo path : Value) : Respects (Twin refs) (getRow repo path) := by
  refine .bind (respects_serving _) fun _ => .bind (.lift _) fun repo => .bind (.lift _) fun path => ?_
  refine .get (fun a b h => ?_) fun a => .pure _
  rw [h.store.ledger]

theorem respects_removeStale (row : Graph.LedgerRow) : Respects (Twin refs) (removeStale row) := by
  refine .bind (respects_getRow _ _) fun previous => ?_
  split
  · exact .pure _
  · split
    · exact .pure _
    · have hsymbols : Respects (Twin refs) (inStore (Graph.Store.deleteFile row.repo.toValue row.path.toValue)) :=
        respects_inStore (Graph.Store.respects_deleteFile _ _)
      refine .bind (.discard (.bind (respects_serving _) fun _ => hsymbols)) fun _ => ?_
      refine .bind (.discard (.bind (respects_serving _) fun _ => respects_inVectors _)) fun _ => ?_
      refine .bind (respects_serving _) fun _ => .modify fun a b h => ?_
      exact ⟨h.plan, h.disk, h.faults, h.vectors, h.store, h.texts.delete _, h.engine⟩

theorem respects_together {R : Atlas → Atlas → Prop} {xs : List (Act Atlas Unit)} (h : ∀ x ∈ xs, Respects R x) :
    Respects R (together xs) := by
  refine .bind (.mapM fun x hx => (h x hx).attempt) fun outcomes => ?_
  exact .forM fun o _ => .ofOutcome o

theorem respects_writeChunks (cs : List Chunk) (vs : List Search.Components) :
    Respects (Twin refs) (writeChunks cs vs) := by
  unfold writeChunks
  split
  · exact .pure _
  · apply respects_together
    simp only [List.forall_mem_cons]
    refine ⟨?_, ?_, ?_, fun x hx => absurd hx List.not_mem_nil⟩
    · exact .bind (respects_serving _) fun _ => respects_inVectors _
    · exact .bind (respects_serving _) fun _ => respects_inStore (.forM fun d _ => Graph.Store.respects_put d)
    · exact .bind (respects_serving _) fun _ => respects_inTexts (Search.TextIndex.respects_addAll _)

theorem respects_storeChunks (cs : List Chunk) (vs : List Search.Components) (rows : List Graph.LedgerRow) :
    Respects (Twin refs) (storeChunks cs vs rows) := by
  intro a b h
  rw [on_storeChunks, on_storeChunks]
  refine Respects.bind (.forM fun row _ => respects_removeStale row) (fun _ => ?_) a b h
  refine .bind (respects_writeChunks cs vs) fun _ => .forM fun row _ => ?_
  refine .bind (respects_serving _) fun _ => .modify fun a b h => ?_
  exact ⟨h.plan, h.disk, h.faults, h.vectors, h.store.putRow row, h.texts, h.engine⟩

theorem respects_writeThrough {es : List Edge} (hes : ∀ e ∈ es, ∃ k, e.key = .ok k ∧ Graph.Usual k)
    (operation : String) {write : Act Atlas Unit} (hwrite : Respects (Twin refs) write) :
    Respects (Twin refs) (writeThrough operation es write) := by
  refine .bind (respects_inEngine (.forM fun e he => Graph.Engine.respects_link (hes e he))) fun _ => ?_
  refine .bind hwrite.attempt fun outcome => ?_
  split
  · exact .pure _
  · exact .throw _

theorem respects_storeEdges {es : List Edge} (hes : ∀ e ∈ es, ∃ k, e.key = .ok k ∧ Graph.Usual k) :
    Respects (Twin refs) (storeEdges es) := by
  have hputEdges : Respects (Twin refs) (putEdges es) :=
    .bind (respects_serving _) fun _ => respects_inStore (.forM fun e _ => Graph.Store.respects_putEdge e)
  unfold storeEdges
  split
  · exact .pure _
  · refine .get (fun a b h => ?_) fun a => .bind (.lift _) fun _ => ?_
    · rw [Graph.Engine.require, Graph.Engine.require, h.engine.ready]
    · split
      · exact .pure _
      · exact respects_writeThrough hes _ hputEdges

theorem respects_persist {y : Index.Yield} (hy : ∀ e ∈ y.edges, ∃ k, e.key = .ok k ∧ Graph.Usual k) :
    Respects (Twin refs) (persist y) := by
  refine .get (fun a b h => ?_) fun a => .bind (.ofOutcome _) fun vs => ?_
  · rw [embedChunks_congr h.plan h.faults]
  · exact .bind (respects_storeChunks y.chunks vs y.rows) fun _ => respects_storeEdges hy

theorem Twin.examine (h : Twin refs a b) (parse : Parser) (o : Origin) (text : String) :
    a.examine parse o text = b.examine parse o text := by
  apply examine_congr h.plan h.faults
  · rw [h.disk]
  · intro repo _
    exact h.store.ledger _

theorem respects_indexText (parse : Parser) (o : Origin) (text : String) (keep : Bool) :
    Respects (Twin refs) (indexText parse o text keep) := by
  intro a b h
  have hexamine := h.examine parse o text
  cases hx : b.examine parse o text with
  | error f => simp [indexText, Act.on_bind, hexamine, hx, h]
  | ok x =>
    cases x with
    | indexed language y =>
      have hon : ∀ c : Atlas, c.examine parse o text = .ok (.indexed language y) →
        (indexText parse o text keep).on c =
          ((if keep then persist y else pure ()) >>= fun _ => pure (.indexed language y)).on c := by
        intro c hc
        cases keep <;> simp [indexText, Act.on_bind, hc]
      rw [hon a (hexamine.trans hx), hon b hx]
      obtain ⟨-, -, hy⟩ := examine_indexed hx
      refine Respects.bind ?_ (fun _ => .pure _) a b h
      split
      · exact respects_persist (usual_of_analyse hy)
      · exact .pure _
    | _ => simp [indexText, Act.on_bind, hexamine, hx, h]

/-! ## Searching -/

theorem respects_searchTexts (query workspace : Value) (filters : Search.Filters) (limit : Value) :
    Respects (Twin refs) (searchTexts query workspace filters limit) := by
  refine .bind (respects_serving _) fun _ => .get (fun a b h => ?_) fun a => .bind (.lift _) fun query => .lift _
  simp only [h.texts.search]

theorem respects_searchVectors (vector workspace : Value) (filters : Search.Filters) (limit : Value) :
    Respects (Twin refs) (searchVectors vector workspace filters limit) :=
  .bind (respects_serving _) fun _ => respects_inVectors _

theorem respects_signal (weight : Float) {ask : Act Atlas (List α)} (hask : Respects (Twin refs) ask) :
    Respects (Twin refs) (signal weight ask) := by
  unfold signal
  split
  · exact .pure _
  · refine .bind hask.attempt fun outcome => ?_
    split
    · exact .pure _
    · exact .pure _

theorem respects_similar (query workspace : Value) (filters : Search.Filters) (limit : Value) :
    Respects (Twin refs) (similar query workspace filters limit) := by
  refine .get (fun a b h => ?_) fun a => .bind (.ofOutcome _) fun e => ?_
  · simp only [embed, check, h.plan, h.faults]
  · refine .bind (respects_searchVectors _ _ _ _) fun hits => .mapM fun hit _ => ?_
    exact .bind (.lift _) fun _ => .pure _

theorem respects_matching (query workspace : Value) (filters : Search.Filters) (limit : Value) :
    Respects (Twin refs) (matching query workspace filters limit) :=
  .bind (respects_searchTexts _ _ _ _) fun _ => .pure _

theorem respects_resolve (hrefs : refs) (target : Key) (workspace : Value) :
    Respects (Twin refs) (resolve target workspace) := by
  have hget : Respects (Twin refs) (getSymbol target.toValue) := by
    refine .bind (respects_serving _) fun _ => .bind (.lift _) fun name => .get (fun a b h => ?_) fun a => .pure _
    rw [h.store.symbols.get? hrefs]
  have hfind : Respects (Twin refs) (findSymbols workspace target.toValue) := by
    refine .bind (respects_serving _) fun _ => .get (fun a b h => ?_) fun a => .pure _
    rw [Graph.Symbols.called, Graph.Symbols.called, h.store.symbols.documents]
  refine .bind hget fun found => ?_
  split
  · exact .bind (.lift _) fun _ => .pure _
  · refine .bind hfind fun named => ?_
    split
    · exact .pure _
    · exact .mapM fun d _ => .lift _

theorem respects_dependenciesOf (hit : Search.TextHit Float) : Respects (Twin refs) (dependenciesOf hit) := by
  refine .get (fun a b h => ?_) fun a => .bind (.lift _) fun ref => .bind (.lift _) fun found => .pure _
  simp only [h.engine.dependencies]

theorem respects_searchRelated (hrefs : refs) (query workspace limit : Value) (filters : Search.Filters) :
    Respects (Twin refs) (searchRelated query workspace limit filters) := by
  refine .bind (respects_serving _) fun _ => .get (fun a b h => ?_) fun a => ?_
  · rw [h.plan]
  · dsimp only
    split
    · exact .pure _
    · refine .bind (respects_searchTexts _ _ _ _) fun hits => .bind (.mapM fun hit _ => ?_) fun groups => .pure _
      refine .bind (respects_dependenciesOf hit) fun targets => .bind ?_ fun resolved => ?_
      · exact .mapM fun target _ => respects_resolve hrefs target workspace
      · exact .bind (.filterM (fun s => .ofOutcome _) _) fun kept => .pure _

theorem respects_searchHybrid (hrefs : refs) (query workspace topK : Value) (filters : Search.Filters)
    (weights : Option (Search.Signals Float)) :
    Respects (Twin refs) (searchHybrid query workspace topK filters weights) := by
  refine .get (fun a b h => ?_) fun a => .bind (.ofOutcome _) fun w => ?_
  · rw [h.plan]
  · refine .bind (respects_signal _ (respects_similar _ _ _ _)) fun vector => ?_
    refine .bind (respects_signal _ (respects_matching _ _ _ _)) fun fulltext => ?_
    refine .bind (respects_signal _ (respects_searchRelated hrefs _ _ _ _)) fun related => ?_
    exact .bind (.ofOutcome _) fun all => .bind (.lift _) fun limit => .pure _

end Atlas

end SourceAtlas
