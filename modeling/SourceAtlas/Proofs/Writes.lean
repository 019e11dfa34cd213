import SourceAtlas.Atlas.Indexing
import SourceAtlas.Proofs.Edges
import SourceAtlas.Proofs.Stores

/-!
# Single writes to an atlas

What each step of storing does: dropping the entries of a file, writing chunks
to the three stores, recording a row and writing edges. Steps that fail are
covered as well, since what was written before stays.
-/

namespace SourceAtlas.Atlas

open Json (Value Record Key)
open Search (VectorPoint Components)

/-! ## Operations that are in order -/

def serves (a : Atlas) (op : Operation) : Bool := (a.faults.find? (·.1 == op)).isNone

theorem check_eq_ok {a : Atlas} {op : Operation} (h : a.serves op = true) : a.check op = .ok () := by
  unfold check
  rw [Option.isNone_iff_eq_none.1 h]
  rfl

theorem check_eq_error {a : Atlas} {op : Operation} (h : a.serves op = false) :
    ∃ f, a.check op = .error f := by
  obtain ⟨⟨o, f⟩, hf⟩ := Option.ne_none_iff_exists'.1
    (Option.isNone_eq_false_iff.1 h |> Option.isSome_iff_ne_none.1)
  exact ⟨f, by rw [check, hf]; rfl⟩

theorem serves_congr {a b : Atlas} (h : b.faults = a.faults) (op : Operation) : b.serves op = a.serves op := by
  unfold serves
  rw [h]

@[simp] theorem on_serving (op : Operation) (a : Atlas) : (serving op).on a = (a.check op, a) := by
  simp [serving, Act.on_bind]

theorem of_serving_bind {α : Type} {op : Operation} {x : Act Atlas α} {v : α} {a b : Atlas}
    (h : (serving op >>= fun _ => x).on a = (.ok v, b)) : x.on a = (.ok v, b) := by
  obtain ⟨_, m, hs, h⟩ := Act.bind_ok h
  rw [on_serving, Prod.mk.injEq] at hs
  obtain ⟨-, rfl⟩ := hs
  exact h

/-! ## What storing documents leaves alone -/

/-- Equal but for documents, points and texts. -/
structure Frame (a b : Atlas) : Prop where
  plan : b.plan = a.plan
  disk : b.disk = a.disk
  faults : b.faults = a.faults
  engine : b.engine = a.engine
  edges : b.store.edges = a.store.edges
  ledger : b.store.ledger = a.store.ledger

theorem Frame.refl (a : Atlas) : Frame a a := ⟨rfl, rfl, rfl, rfl, rfl, rfl⟩

theorem Frame.trans {a b c : Atlas} (h : Frame a b) (h' : Frame b c) : Frame a c :=
  ⟨h'.plan.trans h.plan, h'.disk.trans h.disk, h'.faults.trans h.faults, h'.engine.trans h.engine,
    h'.edges.trans h.edges, h'.ledger.trans h.ledger⟩

theorem Frame.serves {a b : Atlas} (h : Frame a b) (op : Operation) : b.serves op = a.serves op :=
  serves_congr h.faults op

/-! ## Dropping the entries of a file -/

structure Without (p : Document → Bool) (a b : Atlas) : Prop extends Frame a b where
  symbols : b.store.symbols.documents = a.store.symbols.documents.keep (!p ·)
  points : b.vectors.points = a.vectors.points.keep (!p ·.payload)
  texts : b.texts.documents = a.texts.documents.keep (!p ·)
  dimensions : b.vectors.dimensions = a.vectors.dimensions

/-- The documents of a file can be dropped. -/
def Clean (a : Atlas) (file : FileKey) : Prop :=
  ∀ k d, a.store.symbols.documents.get? k = some d → Document.inFile file d = true → Document.Referable d

theorem on_deleteFile {file : FileKey} {a : Atlas} (hs : a.serves .deleteFile = true) (hclean : Clean a file) :
    ∃ n store, (deleteFile file.1.toValue file.2.toValue).on a = (.ok n, { a with store }) ∧
      a.store.SameLinks store ∧
      store.symbols.documents = a.store.symbols.documents.keep (!Document.inFile file ·) := by
  obtain ⟨hok, hd, hl⟩ := Graph.Store.deleteFile_on file.1.toValue file.2.toValue a.store
  obtain ⟨n, hn⟩ := hok.2 hclean
  refine ⟨n, _, ?_, hl, hd ⟨n, hn⟩⟩
  simp [deleteFile, inStore, Act.on_bind, check_eq_ok hs, hn]

theorem on_deleteFileVectors (file : FileKey) {a : Atlas} (hs : a.serves .deleteFileVectors = true) :
    ∃ n vectors, (deleteFileVectors file.1.toValue file.2.toValue).on a = (.ok n, { a with vectors }) ∧
      vectors.points = a.vectors.points.keep (!Document.inFile file ·.payload) ∧
      vectors.dimensions = a.vectors.dimensions := by
  obtain ⟨n, y, hy, hp, hd⟩ := Search.VectorIndex.delete_on (Document.inFile file) a.vectors
  refine ⟨n, y, ?_, hp, hd⟩
  have hdelete : Search.VectorIndex.delete (Document.ofFile file.1.toValue file.2.toValue) =
    Search.VectorIndex.delete (Document.inFile file) := rfl
  simp [deleteFileVectors, inVectors, Act.on_bind, check_eq_ok hs, hdelete, hy]

def dropFile (file : FileKey) : Act Atlas Unit := do
  discard (deleteFile file.1.toValue file.2.toValue)
  discard (deleteFileVectors file.1.toValue file.2.toValue)
  deleteTexts (Document.ofFile file.1.toValue file.2.toValue)

theorem on_deleteTexts (p : Document → Bool) {a : Atlas} (hs : a.serves .deleteTexts = true) :
    (deleteTexts p).on a = (.ok (), { a with texts := a.texts.delete p }) := by
  simp [deleteTexts, Act.on_bind, check_eq_ok hs]

/-- `b` is `a` where dropping the entries that satisfy `p` stopped before the texts. -/
structure PartlyWithout (p : Document → Bool) (a b : Atlas) : Prop extends Frame a b where
  stopped : (a.serves .deleteFileVectors && a.serves .deleteTexts) = false
  symbols : b.store.symbols.documents = a.store.symbols.documents.keep (!p ·)
  points : b.vectors.points = if a.serves .deleteFileVectors then a.vectors.points.keep (!p ·.payload)
    else a.vectors.points
  texts : b.texts = a.texts
  dimensions : b.vectors.dimensions = a.vectors.dimensions

/-- The file stays as it is, or loses all of its entries, or keeps its texts and perhaps its points. -/
theorem dropFile_on (file : FileKey) {a : Atlas} (hclean : Clean a file) :
    let r := (dropFile file).on a
    if a.serves .deleteFile then
      if a.serves .deleteFileVectors && a.serves .deleteTexts then
        r.1 = .ok () ∧ Without (Document.inFile file) a r.2
      else (∃ f, r.1 = .error f) ∧ PartlyWithout (Document.inFile file) a r.2
    else (∃ f, r.1 = .error f) ∧ r.2 = a := by
  cases hs : a.serves .deleteFile with
  | false =>
    obtain ⟨f, hf⟩ := check_eq_error hs
    simp [dropFile, deleteFile, Act.on_bind, Act.on_discard, hf]
  | true =>
    obtain ⟨n, store, hon, hl, hd⟩ := on_deleteFile hs hclean
    cases hv : a.serves .deleteFileVectors with
    | false =>
      obtain ⟨f, hf⟩ := check_eq_error (a := { a with store }) hv
      simp only [dropFile, deleteFileVectors, Act.on_bind, Act.on_discard, hon, on_serving, hf, reduceIte,
        Bool.false_and, Bool.false_eq_true]
      exact ⟨⟨f, rfl⟩, ⟨rfl, rfl, rfl, rfl, hl.1, hl.2⟩, by rw [hv, Bool.false_and], hd, by rw [hv]; rfl, rfl, rfl⟩
    | true =>
      obtain ⟨m, vectors, hon', hp, hdim⟩ := on_deleteFileVectors file (a := { a with store }) hv
      have hframe : Frame a { a with store, vectors } := ⟨rfl, rfl, rfl, rfl, hl.1, hl.2⟩
      cases ht : a.serves .deleteTexts with
      | false =>
        obtain ⟨f, hf⟩ := check_eq_error (a := { a with store, vectors }) ht
        simp only [dropFile, deleteTexts, Act.on_bind, Act.on_discard, hon, hon', on_serving, hf, reduceIte,
          Bool.and_false, Bool.false_eq_true]
        exact ⟨⟨f, rfl⟩, hframe, by rw [ht, Bool.and_false], hd, by rw [hv]; exact hp, rfl, hdim⟩
      | true =>
        have hon'' := on_deleteTexts (Document.inFile file) (a := { a with store, vectors }) ht
        have hsame : Document.ofFile file.1.toValue file.2.toValue = Document.inFile file := rfl
        simp only [dropFile, Act.on_bind, Act.on_discard, hon, hon', hsame, hon'', reduceIte, Bool.and_self]
        exact ⟨trivial, ⟨⟨rfl, rfl, rfl, rfl, hl.1, hl.2⟩, hd, hp, rfl, hdim⟩⟩

structure Droppable (a : Atlas) (file : FileKey) : Prop where
  documents : a.serves .deleteFile = true
  points : a.serves .deleteFileVectors = true
  texts : a.serves .deleteTexts = true
  clean : Clean a file

/-- The entries of a file can still be dropped if what has changed of its documents can. -/
theorem Droppable.congr {a b : Atlas} {file : FileKey} (h : Droppable a file) (hfaults : b.faults = a.faults)
    (hdocuments : ∀ k d, b.store.symbols.documents.get? k = some d →
      a.store.symbols.documents.get? k = some d ∨ Document.Referable d) : Droppable b file where
  documents := (serves_congr hfaults _).trans h.documents
  points := (serves_congr hfaults _).trans h.points
  texts := (serves_congr hfaults _).trans h.texts
  clean k d hd hin := (hdocuments k d hd).elim (fun hd => h.clean k d hd hin) id

theorem dropFile_ok_iff (file : FileKey) (a : Atlas) : ((dropFile file).on a).1 = .ok () ↔ Droppable a file := by
  by_cases hclean : Clean a file
  · have hr := dropFile_on file hclean
    constructor
    · intro hok
      cases hs : a.serves .deleteFile <;> cases hv : a.serves .deleteFileVectors <;>
        cases ht : a.serves .deleteTexts <;> simp [hs, hv, ht, hok] at hr
      exact ⟨hs, hv, ht, hclean⟩
    · intro h
      rw [h.documents, h.points, h.texts] at hr
      exact hr.1
  · have hok := (Graph.Store.deleteFile_on file.1.toValue file.2.toValue a.store).1
    refine ⟨fun h => absurd ?_ hclean, fun h => absurd h.clean hclean⟩
    simp only [dropFile, deleteFile, inStore, Act.on_bind, Act.on_discard, on_serving] at h
    cases hs : a.check .deleteFile with
    | error f => simp [hs] at h
    | ok u =>
      simp only [hs, Act.on_within] at h
      generalize (Graph.Store.deleteFile file.1.toValue file.2.toValue).on a.store = r at hok h
      obtain ⟨o, store⟩ := r
      cases o with
      | ok n => exact hok.1 ⟨n, rfl⟩
      | error f => cases h

/-- Whether a row replaces one of another content. -/
def stale (l : Graph.Ledger) (r : Graph.LedgerRow) : Bool :=
  (l.get? r.file).any fun previous => !previous.hash.same r.hash

theorem on_removeStale (r : Graph.LedgerRow) (a : Atlas) :
    (removeStale r).on a = match a.check .getRow with
      | .error f => (.error f, a)
      | .ok () => if stale a.store.ledger r then (dropFile r.file).on a else (.ok (), a) := by
  have hrow : (getRow r.repo.toValue r.path.toValue).on a = match a.check .getRow with
      | .error f => (.error f, a)
      | .ok () => (.ok (a.store.ledger.get? r.file), a) := by
    simp only [getRow, Act.on_bind, on_serving, asKey_toValue]
    cases a.check .getRow <;> rfl
  simp only [removeStale, Act.on_bind, hrow]
  cases a.check .getRow with
  | error f => rfl
  | ok u =>
    dsimp only
    unfold stale
    cases a.store.ledger.get? r.file with
    | none => rfl
    | some previous =>
      by_cases hsame : previous.hash.same r.hash = true <;> simp [hsame, dropFile, Graph.LedgerRow.file]

/-! ## Forgetting a repository -/

def forgetRepo (repo : Value) : Act Atlas Unit := do
  discard (deleteRepo repo)
  discard (deleteRepoVectors repo)
  deleteTexts (Document.ofRepo repo)

theorem of_deleteRepo {repo : Value} {a b : Atlas} {n : Nat} (h : (deleteRepo repo).on a = (.ok n, b)) :
    ∃ store, b = { a with store } ∧ (Graph.Store.deleteRepo repo).on a.store = (.ok n, store) := by
  have h := of_serving_bind h
  obtain ⟨hn, rfl⟩ := Prod.mk.inj h
  exact ⟨_, rfl, Prod.ext hn rfl⟩

theorem of_deleteRepoVectors {repo : Value} {a b : Atlas} {n : Nat}
    (h : (deleteRepoVectors repo).on a = (.ok n, b)) :
    ∃ vectors, b = { a with vectors } ∧
    vectors.points = a.vectors.points.keep (!Document.ofRepo repo ·.payload) := by
  have h := of_serving_bind h
  obtain ⟨-, rfl⟩ := Prod.mk.inj h
  exact ⟨_, rfl, rfl⟩

theorem of_deleteTexts {p : Document → Bool} {a b : Atlas} (h : (deleteTexts p).on a = (.ok (), b)) :
    b = { a with texts := a.texts.delete p } := by
  have h := of_serving_bind h
  exact (Prod.mk.inj h).2.symm

/-- Forgetting removes a repository from the store, the points and the texts, and touches nothing else. -/
theorem forgetRepo_ok {repo : Value} {a b : Atlas} (h : (forgetRepo repo).on a = (.ok (), b)) :
    ∃ n store vectors, (Graph.Store.deleteRepo repo).on a.store = (.ok n, store) ∧
      vectors.points = a.vectors.points.keep (!Document.ofRepo repo ·.payload) ∧
      b = { a with store, vectors, texts := a.texts.delete (Document.ofRepo repo) } := by
  obtain ⟨_, m₁, h₁, h⟩ := Act.bind_ok h
  obtain ⟨n, h₁⟩ := Act.of_discard h₁
  obtain ⟨store, rfl, hstore⟩ := of_deleteRepo h₁
  obtain ⟨_, m₂, h₂, h⟩ := Act.bind_ok h
  obtain ⟨_, h₂⟩ := Act.of_discard h₂
  obtain ⟨vectors, rfl, hpoints⟩ := of_deleteRepoVectors h₂
  exact ⟨n, store, vectors, hstore, hpoints, of_deleteTexts h⟩

/-- Forgetting leaves the documents of other repositories, and their rows. -/
theorem of_forgetRepo {repo : Key} {a b : Atlas} (h : (forgetRepo repo.toValue).on a = (.ok (), b)) :
    b.store.ledger = a.store.ledger.filter (fun key _ => !(key.1 == repo)) ∧
      b.store.symbols.documents = a.store.symbols.documents.keep (!Document.ofRepo repo.toValue ·) ∧
      b.vectors.points = a.vectors.points.keep (!Document.ofRepo repo.toValue ·.payload) ∧
      b.texts.documents = a.texts.documents.keep (!Document.ofRepo repo.toValue ·) := by
  obtain ⟨n, store, vectors, hstore, hpoints, rfl⟩ := forgetRepo_ok h
  obtain ⟨hdocuments, hledger⟩ := Graph.Store.deleteRepo_ok hstore
  simp only [Key.same_toValue] at hledger
  exact ⟨hledger, hdocuments, hpoints, rfl⟩

/-! ## Writing chunks -/

def pointEntries (cs : List Chunk) (vs : List Components) : List (Key × VectorPoint) :=
  (cs.zip vs).map fun (c, v) => (c.key, pointOf c v)

theorem map_snd_pointEntries (cs : List Chunk) (vs : List Components) :
    (pointEntries cs vs).map Prod.snd = (cs.zip vs).map fun (c, v) => pointOf c v := by
  simp [pointEntries, Function.comp_def]

theorem asKey_of_mem_pointEntries (cs : List Chunk) (vs : List Components) :
    ∀ e ∈ pointEntries cs vs, asKey e.2.id = .ok e.1 := by
  intro e he
  obtain ⟨⟨c, v⟩, -, rfl⟩ := List.mem_map.1 he
  rfl

theorem on_putVectors {es : List (Key × VectorPoint)} (hid : ∀ e ∈ es, asKey e.2.id = .ok e.1) (a : Atlas) :
    ∃ o vectors, (putVectors (es.map Prod.snd)).on a = (o, { a with vectors }) ∧
      (o = .ok () ↔ a.serves .putVectors = true ∧ Search.VectorIndex.accepted a.vectors.dimensions es = es) ∧
      vectors.points = (if a.serves .putVectors then
        a.vectors.points.insertAll (Search.VectorIndex.accepted a.vectors.dimensions es) else a.vectors.points) ∧
      vectors.dimensions = if a.serves .putVectors then
        Search.VectorIndex.lengthAfter a.vectors.dimensions es else a.vectors.dimensions := by
  cases hs : a.serves .putVectors with
  | false =>
    obtain ⟨f, hf⟩ := check_eq_error hs
    exact ⟨.error f, a.vectors, by simp [putVectors, Act.on_bind, hf], by simp, rfl, rfl⟩
  | true =>
    obtain ⟨hok, hp, hd⟩ := Search.VectorIndex.put_points es a.vectors hid
    refine ⟨_, _, ?_, hok.trans (by simp), hp, hd⟩
    simp [putVectors, inVectors, Act.on_bind, check_eq_ok hs]

theorem on_putSymbols (cs : List Chunk) (a : Atlas) :
    ∃ o store, (putSymbols (cs.map fun c => .obj c.toDocument)).on a = (o, { a with store }) ∧
      (o = .ok () ↔ a.serves .putSymbols = true ∧ Admits a.store.symbols.documents cs) ∧
      (Admits a.store.symbols.documents cs → store.symbols.documents = if a.serves .putSymbols then
        a.store.symbols.documents.insertAll (documentEntries cs) else a.store.symbols.documents) ∧
      a.store.SameLinks store := by
  cases hs : a.serves .putSymbols with
  | false =>
    obtain ⟨f, hf⟩ := check_eq_error hs
    exact ⟨.error f, a.store, by simp [putSymbols, Act.on_bind, hf], by simp, fun _ => rfl, rfl, rfl⟩
  | true =>
    obtain ⟨hok, hd, hl⟩ := Graph.Store.putAll_chunks cs a.store
    refine ⟨_, _, ?_, hok.trans (by simp), fun h => hd (hok.2 h), hl⟩
    simp [putSymbols, inStore, Act.on_bind, check_eq_ok hs]

theorem on_addTexts (cs : List Chunk) (a : Atlas) :
    ∃ o texts, (addTexts (cs.map fun c => .obj c.toDocument)).on a = (o, { a with texts }) ∧
      (o = .ok () ↔ a.serves .addTexts = true) ∧
      texts.documents = if a.serves .addTexts then a.texts.documents.insertAll (documentEntries cs)
        else a.texts.documents := by
  cases hs : a.serves .addTexts with
  | false =>
    obtain ⟨f, hf⟩ := check_eq_error hs
    exact ⟨.error f, a.texts, by simp [addTexts, Act.on_bind, hf], by simp, rfl⟩
  | true =>
    obtain ⟨hok, hd⟩ := Search.TextIndex.addAll_chunks cs a.texts
    refine ⟨.ok (), _, ?_, by simp, hd⟩
    simp [addTexts, inTexts, Act.on_bind, check_eq_ok hs, hok]

theorem on_together_nil (a : Atlas) : (together []).on a = (.ok (), a) := rfl

/-- Actions that run together all run, and the first failure counts. -/
theorem on_together_cons (x : Act Atlas Unit) (xs : List (Act Atlas Unit)) (a : Atlas) :
    (together (x :: xs)).on a = (match (x.on a).1 with
      | .error f => .error f
      | .ok () => ((together xs).on (x.on a).2).1, ((together xs).on (x.on a).2).2) := by
  obtain ⟨os, t, h⟩ := Act.on_mapM_attempt xs (x.on a).2
  obtain ⟨o, ho⟩ := Act.on_forM_ofOutcome os t
  simp only [together, List.mapM_cons, Act.on_bind, Act.on_attempt, h, Act.on_pure, Act.on_forM_cons,
    Act.on_ofOutcome, ho]
  cases (x.on a).1 with
  | error f => rfl
  | ok u => exact ho

def writeChunks (cs : List Chunk) (vs : List Components) : Act Atlas Unit :=
  if cs.isEmpty then pure () else
    together [putVectors ((cs.zip vs).map fun (c, v) => pointOf c v),
      putSymbols (cs.map fun c => .obj c.toDocument), addTexts (cs.map fun c => .obj c.toDocument)]

structure Writable (a : Atlas) : Prop where
  points : a.serves .putVectors = true
  documents : a.serves .putSymbols = true
  texts : a.serves .addTexts = true

theorem Writable.congr {a b : Atlas} (h : Writable a) (hfaults : b.faults = a.faults) : Writable b where
  points := (serves_congr hfaults _).trans h.points
  documents := (serves_congr hfaults _).trans h.documents
  texts := (serves_congr hfaults _).trans h.texts

theorem writable_iff_serves {a : Atlas} : Writable a ↔
    a.serves .putSymbols = true ∧ a.serves .putVectors = true ∧ a.serves .addTexts = true :=
  ⟨fun h => ⟨h.documents, h.points, h.texts⟩, fun ⟨hs, hv, ht⟩ => ⟨hv, hs, ht⟩⟩

theorem writable_iff {a b : Atlas} (h : b.faults = a.faults) : Writable b ↔ Writable a :=
  ⟨fun hb => hb.congr h.symm, fun ha => ha.congr h⟩

theorem writeChunks_on (cs : List Chunk) (vs : List Components) (a : Atlas) :
    let r := (writeChunks cs vs).on a
    let es := pointEntries cs vs
    Frame a r.2 ∧
      (r.1 = .ok () ↔ (cs ≠ [] → Writable a) ∧
        Search.VectorIndex.accepted a.vectors.dimensions es = es ∧ Admits a.store.symbols.documents cs) ∧
      (Admits a.store.symbols.documents cs → r.2.store.symbols.documents = if a.serves .putSymbols then
        a.store.symbols.documents.insertAll (documentEntries cs) else a.store.symbols.documents) ∧
      r.2.vectors.points = (if a.serves .putVectors then
        a.vectors.points.insertAll (Search.VectorIndex.accepted a.vectors.dimensions es) else a.vectors.points) ∧
      r.2.vectors.dimensions = (if a.serves .putVectors then
        Search.VectorIndex.lengthAfter a.vectors.dimensions es else a.vectors.dimensions) ∧
      r.2.texts.documents = if a.serves .addTexts then a.texts.documents.insertAll (documentEntries cs)
        else a.texts.documents := by
  cases cs with
  | nil =>
    refine ⟨.refl a, ⟨fun _ => ⟨fun h => absurd rfl h, rfl, fun c hc => absurd hc List.not_mem_nil⟩, fun _ => rfl⟩,
      fun _ => (ite_self _).symm, (ite_self _).symm, (ite_self _).symm, (ite_self _).symm⟩
  | cons c cs =>
    obtain ⟨o, vectors, hv, hvok, hvp, hvd⟩ := on_putVectors (asKey_of_mem_pointEntries (c :: cs) vs) a
    obtain ⟨o', store, hs, hsok, hsd, hsl⟩ := on_putSymbols (c :: cs) { a with vectors }
    obtain ⟨o'', texts, ht, htok, htd⟩ := on_addTexts (c :: cs) { a with vectors, store }
    rw [map_snd_pointEntries] at hv
    simp only [writeChunks, List.isEmpty_cons, Bool.false_eq_true, reduceIte, on_together_cons, on_together_nil,
      hv, hs, ht]
    refine ⟨⟨rfl, rfl, rfl, rfl, hsl.1, hsl.2⟩, ?_, hsd, hvp, hvd, htd⟩
    have hsok : o' = .ok () ↔ a.serves .putSymbols = true ∧ Admits a.store.symbols.documents (c :: cs) := hsok
    have htok : o'' = .ok () ↔ a.serves .addTexts = true := htok
    have hall : o = .ok () ∧ o' = .ok () ∧ o'' = .ok () ↔ (c :: cs ≠ [] → Writable a) ∧
        Search.VectorIndex.accepted a.vectors.dimensions (pointEntries (c :: cs) vs) = pointEntries (c :: cs) vs ∧
        Admits a.store.symbols.documents (c :: cs) := by
      simp only [hvok, hsok, htok, ne_eq, reduceCtorEq, not_false_eq_true, forall_const]
      exact ⟨fun ⟨⟨h1, h2⟩, ⟨h3, h4⟩, h5⟩ => ⟨⟨h1, h3, h5⟩, h2, h4⟩,
        fun ⟨⟨h1, h3, h5⟩, h2, h4⟩ => ⟨⟨h1, h2⟩, ⟨h3, h4⟩, h5⟩⟩
    rw [← hall]
    cases o <;> cases o' <;> cases o'' <;> simp

/-! ## Recording rows -/

theorem on_putRow {a : Atlas} (hs : a.serves .putRow = true) (r : Graph.LedgerRow) :
    (putRow r).on a = (.ok (), { a with store := a.store.putRow r }) := by
  simp [putRow, Act.on_bind, check_eq_ok hs]

theorem on_putRow_error {a : Atlas} (hs : a.serves .putRow = false) (r : Graph.LedgerRow) :
    ∃ f, (putRow r).on a = (.error f, a) := by
  obtain ⟨f, hf⟩ := check_eq_error hs
  exact ⟨f, by simp [putRow, Act.on_bind, hf]⟩

theorem on_putRows : ∀ (rows : List Graph.LedgerRow) (a : Atlas),
    let r := (rows.forM putRow).on a
    (r.1 = .ok () ↔ (rows ≠ [] → a.serves .putRow = true)) ∧
      (r.1 = .ok () →
        r.2 = { a with store := { a.store with ledger := rows.foldl Graph.Ledger.put a.store.ledger } })
  | [], a => ⟨⟨fun _ h => absurd rfl h, fun _ => rfl⟩, fun _ => rfl⟩
  | r :: rows, a => by
    simp only [Act.on_forM_cons, Act.on_bind]
    cases hs : a.serves .putRow with
    | false =>
      obtain ⟨f, hf⟩ := on_putRow_error hs r
      simp [hf]
    | true =>
      rw [on_putRow hs]
      obtain ⟨hok, heq⟩ := on_putRows rows { a with store := a.store.putRow r }
      exact ⟨⟨fun _ _ => rfl, fun _ => hok.2 fun _ => hs⟩, heq⟩

/-! ## Writing edges -/

/-- Both ends of every edge are keys. -/
def Keyed (es : List Edge) : Prop := ∀ e ∈ es, ∃ k, e.key = .ok k

def linkAll (es : List Edge) (x : Graph.Engine) : Graph.Engine :=
  es.foldl (fun x e => ((Graph.Engine.link e).on x).2) x

def edgesWith (es : List Edge) (x : Graph.Edges) : Graph.Edges :=
  es.foldl (fun x e => match e.key with
    | .ok k => x.put k
    | .error _ => x) x

def keysOf (es : List Edge) : List EdgeKey := es.filterMap fun e => e.key.toOption

theorem keysOf_cons {e : Edge} {k : EdgeKey} (hk : e.key = .ok k) (es : List Edge) :
    keysOf (e :: es) = k :: keysOf es :=
  List.filterMap_cons_some (congrArg Except.toOption hk)

theorem mem_keysOf {e : Edge} {es : List Edge} {k : EdgeKey} (he : e ∈ es) (hk : e.key = .ok k) : k ∈ keysOf es :=
  List.mem_filterMap.2 ⟨e, he, congrArg Except.toOption hk⟩

theorem edgesWith_eq (es : List Edge) (x : Graph.Edges) : edgesWith es x = (keysOf es).foldl Graph.Edges.put x := by
  unfold edgesWith keysOf
  induction es generalizing x with
  | nil => rfl
  | cons e es ih =>
    rw [List.foldl_cons, ih, List.filterMap_cons]
    cases e.key <;> rfl

theorem key_cases (e : Edge) :
    (∃ s t, asKey e.source = .ok s ∧ asKey e.target = .ok t ∧ e.key = .ok (s, t, e.type)) ∨
      (∃ f, e.key = .error f) ∧ ((∃ f, asKey e.source = .error f) ∨
        ∃ s f, asKey e.source = .ok s ∧ asKey e.target = .error f) := by
  unfold Edge.key
  cases asKey e.source with
  | error f => exact .inr ⟨⟨f, rfl⟩, .inl ⟨f, rfl⟩⟩
  | ok s =>
    cases asKey e.target with
    | error f => exact .inr ⟨⟨f, rfl⟩, .inr ⟨s, f, rfl, rfl⟩⟩
    | ok t => exact .inl ⟨s, t, rfl, rfl, rfl⟩

theorem link_ok_iff (e : Edge) (x : Graph.Engine) :
    ((Graph.Engine.link e).on x).1 = .ok () ↔ ∃ k, e.key = .ok k := by
  simp only [Graph.Engine.link, Act.on_bind, Act.on_liftOutcome, Act.on_modify]
  rcases key_cases e with ⟨s, t, hs, ht, hk⟩ | ⟨⟨f, hk⟩, ⟨g, hs⟩ | ⟨s, g, hs, ht⟩⟩
  · simp [hs, ht, hk]
  · simp [hs, hk]
  · simp [hs, ht, hk]

theorem ready_link (e : Edge) (x : Graph.Engine) : ((Graph.Engine.link e).on x).2.ready = x.ready := by
  simp only [Graph.Engine.link, Act.on_bind, Act.on_liftOutcome, Act.on_modify]
  rcases key_cases e with ⟨s, t, hs, ht, -⟩ | ⟨-, ⟨g, hs⟩ | ⟨s, g, hs, ht⟩⟩
  · simp [hs, ht, Graph.Engine.linkKey]
  · simp [hs]
  · simp [hs, ht]

theorem ready_linkAll : ∀ (es : List Edge) (x : Graph.Engine), (linkAll es x).ready = x.ready
  | [], _ => rfl
  | e :: es, x => (ready_linkAll es _).trans (ready_link e x)

theorem links_on : ∀ (es : List Edge) (x : Graph.Engine),
    let r := (es.forM Graph.Engine.link).on x
    (r.1 = .ok () ↔ Keyed es) ∧ (r.1 = .ok () → r.2 = linkAll es x)
  | [], x => ⟨⟨fun _ e he => absurd he List.not_mem_nil, fun _ => rfl⟩, fun _ => rfl⟩
  | e :: es, x => by
    have hok := link_ok_iff e x
    have hall : linkAll (e :: es) x = linkAll es ((Graph.Engine.link e).on x).2 := rfl
    have hkeyed : Keyed (e :: es) ↔ (∃ k, e.key = .ok k) ∧ Keyed es := List.forall_mem_cons
    simp only [Act.on_forM_cons, Act.on_bind, hall, hkeyed]
    generalize (Graph.Engine.link e).on x = r at hok ⊢
    obtain ⟨o, y⟩ := r
    cases o with
    | error f =>
      have hno : ¬ ∃ k, e.key = .ok k := fun h => by simpa using hok.2 h
      simp [hno]
    | ok u => simpa [hok.1 rfl] using links_on es y

theorem putEdges_on : ∀ (es : List Edge) (x : Graph.Store),
    let r := (es.forM Graph.Store.putEdge).on x
    (r.1 = .ok () ↔ Keyed es) ∧ (r.1 = .ok () → r.2 = { x with edges := edgesWith es x.edges })
  | [], x => ⟨⟨fun _ e he => absurd he List.not_mem_nil, fun _ => rfl⟩, fun _ => rfl⟩
  | e :: es, x => by
    have hkeyed : Keyed (e :: es) ↔ (∃ k, e.key = .ok k) ∧ Keyed es := List.forall_mem_cons
    simp only [Act.on_forM_cons, Act.on_bind, Graph.Store.putEdge, Act.on_liftOutcome, Act.on_modify, hkeyed]
    cases hk : e.key with
    | error f => simp
    | ok k =>
      have hall : edgesWith (e :: es) x.edges = edgesWith es (x.putKey k).edges := by
        simp [edgesWith, hk, Graph.Store.putKey]
      rw [hall]
      simpa [Graph.Store.putKey] using putEdges_on es (x.putKey k)

theorem require_ok {x : Graph.Engine} (h : x.ready = true) (operation : String) : x.require operation = .ok () := by
  simp [Graph.Engine.require, h, pure, Except.pure]

theorem require_error {x : Graph.Engine} (h : x.ready = false) (operation : String) :
    x.require operation = .error (.engineNotReady operation) := by
  simp [Graph.Engine.require, h, throw, throwThe, MonadExceptOf.throw]

/-- Edges are all written or none of them is, as long as their ends are keys. -/
theorem storeEdges_on (es : List Edge) (a : Atlas) :
    let r := (storeEdges es).on a
    (r.1 = .ok () ↔ Keyed es ∧ (es ≠ [] → a.engine.ready = true ∧ a.serves .putEdges = true)) ∧
      (r.1 = .ok () → r.2 = { a with
        engine := linkAll es a.engine, store := { a.store with edges := edgesWith es a.store.edges } }) ∧
      (∃ engine edges, r.2 = { a with engine, store := { a.store with edges } }) ∧
      (Keyed es → r.1 ≠ .ok () → r.2.store = a.store) := by
  cases es with
  | nil =>
    refine ⟨⟨fun _ => ⟨fun e he => absurd he List.not_mem_nil, fun h => absurd rfl h⟩, fun _ => rfl⟩, fun _ => rfl,
      ⟨a.engine, a.store.edges, rfl⟩, fun _ h => absurd rfl h⟩
  | cons e es =>
    obtain ⟨hlink, hlinked⟩ := links_on (e :: es) a.engine
    obtain ⟨hput, hedges⟩ := putEdges_on (e :: es) a.store
    simp only [storeEdges, addEdges, writeThrough, putEdges, inEngine, inStore, List.isEmpty_cons,
      Bool.false_eq_true, reduceIte, Act.on_bind, Act.on_get, Act.on_liftOutcome, Act.on_within, Act.on_attempt,
      on_serving]
    cases hready : a.engine.ready with
    | false =>
      rw [require_error hready]
      exact ⟨by simp, fun h => (by cases h), ⟨a.engine, a.store.edges, rfl⟩, fun _ _ => rfl⟩
    | true =>
      rw [require_ok hready]
      dsimp only
      generalize ((e :: es).forM Graph.Engine.link).on a.engine = r at hlink hlinked ⊢
      obtain ⟨o, engine⟩ := r
      cases o with
      | error f =>
        have hno : ¬ Keyed (e :: es) := fun h => (by cases hlink.2 h)
        exact ⟨by simp [hno], fun h => (by cases h), ⟨engine, a.store.edges, rfl⟩, fun h => absurd h hno⟩
      | ok u =>
        have hk := hlink.1 rfl
        obtain rfl : engine = linkAll (e :: es) a.engine := hlinked rfl
        cases hs : a.serves .putEdges with
        | false =>
          obtain ⟨f, hf⟩ := check_eq_error hs
          have hf : check { a with engine := linkAll (e :: es) a.engine } .putEdges = .error f := hf
          simp only [hf]
          exact ⟨by simp, fun h => (by cases h), ⟨_, a.store.edges, rfl⟩, fun _ _ => rfl⟩
        | true =>
          have hf : check { a with engine := linkAll (e :: es) a.engine } .putEdges = .ok () := check_eq_ok hs
          simp only [hf]
          have hr := hedges (hput.2 hk)
          generalize ((e :: es).forM Graph.Store.putEdge).on a.store = r at hput hr ⊢
          obtain ⟨o, store⟩ := r
          obtain rfl : o = .ok () := hput.2 hk
          obtain rfl : store = _ := hr
          exact ⟨by simp [hk], fun _ => rfl, ⟨_, _, rfl⟩, fun _ h => absurd rfl h⟩

end SourceAtlas.Atlas
