import SourceAtlas.Proofs.RoundTrips
import SourceAtlas.Proofs.Sessions
import SourceAtlas.Proofs.Traces

/-!
# What deleting a workspace leaves

The rows of a workspace are found through its repositories, and these are known
from the documents that were stored since the store was read last. A repository
without such a document keeps its rows.
-/

namespace SourceAtlas

open Json (Value Record Key)
open Act (Keeps)

/-! ## What documents tell of workspaces -/

/-- The workspace of the repository of a chunk, unless one of them has no name. -/
def Chunk.tenancy (c : Chunk) : List (Key × Value) :=
  if (Value.str c.payload.context.repo).truthy && (Value.str c.payload.context.workspace).truthy then
    [(.str c.payload.context.repo, .str c.payload.context.workspace)]
  else []

theorem Chunk.mem_tenancy (c : Chunk) (e : Key × Value) :
    e ∈ c.tenancy ↔ (Value.str c.payload.context.repo).truthy = true ∧
    (Value.str c.payload.context.workspace).truthy = true ∧
      e = (.str c.payload.context.repo, .str c.payload.context.workspace) := by
  unfold tenancy
  split
  · rename_i h
    rw [Bool.and_eq_true] at h
    simp [h]
  · rename_i h
    rw [Bool.and_eq_true] at h
    simp only [List.not_mem_nil, false_iff]
    exact fun h' => h ⟨h'.1, h'.2.1⟩

theorem Chunk.tenancy_congr {c d : Chunk} (hrepo : c.payload.context.repo = d.payload.context.repo)
    (hworkspace : c.payload.context.workspace = d.payload.context.workspace) : c.tenancy = d.tenancy := by
  unfold tenancy
  rw [hrepo, hworkspace]

theorem Chunk.context_of_document {c d : Chunk} (h : c.toDocument = d.toDocument) :
    c.payload.context.repo = d.payload.context.repo ∧
    c.payload.context.workspace = d.payload.context.workspace := by
  have hrepo : Value.str c.payload.context.repo = .str d.payload.context.repo :=
    congrArg (Record.get · "repo_id") h
  have hworkspace : Value.str c.payload.context.workspace = .str d.payload.context.workspace :=
    congrArg (Record.get · "workspace_id") h
  exact ⟨Value.str.inj hrepo, Value.str.inj hworkspace⟩

theorem Chunk.ofRepo_toDocument (c : Chunk) (repo : Key) :
    Document.ofRepo repo.toValue c.toDocument = true ↔ repo = .str c.payload.context.repo := by
  have hrepo : Document.ofRepo repo.toValue c.toDocument = (c.file.1 == repo) := Part.repo_document .symbols c repo
  rw [hrepo, Chunk.file, Key.str_beq]

theorem Chunk.ofWorkspace_toDocument (c : Chunk) (workspace : Value) :
    Document.ofWorkspace workspace c.toDocument = true ↔ workspace = .str c.payload.context.workspace :=
  Value.str_same _ _

def tenancies (cs : List Chunk) : List (Key × Value) := cs.flatMap Chunk.tenancy

theorem Chunk.storable (c : Chunk) : Document.Storable c.toDocument := by
  refine ⟨c.referable, fun repo workspace hrepo _ => ?_⟩
  have hcontent : Document.content? c.toDocument "repo_id" =
      (some (.str c.payload.context.repo)).filter Value.truthy := rfl
  rw [hcontent, Option.filter_eq_some_iff] at hrepo
  rw [← Option.some.inj hrepo.1]
  rfl

namespace Graph.Store

theorem workspaceOf_put {c : Chunk} {x y : Store} (h : (put (.obj c.toDocument)).on x = (.ok (), y)) :
    y.workspaceOf = x.workspaceOf.insertAll c.tenancy := by
  have hrepo : Document.content? c.toDocument "repo_id" =
      (some (.str c.payload.context.repo)).filter Value.truthy := rfl
  have hworkspace : Document.content? c.toDocument "workspace_id" =
      (some (.str c.payload.context.workspace)).filter Value.truthy := rfl
  unfold put inSymbols at h
  rw [c.idOf_toDocument] at h
  simp only [Act.on_bind, Act.on_liftOutcome, Act.on_within, asRecord, pure, Except.pure, hrepo, hworkspace,
    Option.filter_some] at h
  unfold Chunk.tenancy
  generalize (Symbols.put c.key c.toDocument).on x.symbols = r at h
  obtain ⟨o, symbols⟩ := r
  cases o with
  | error f => cases h
  | ok u =>
    cases hr : (Value.str c.payload.context.repo).truthy <;>
      cases hw : (Value.str c.payload.context.workspace).truthy <;>
      (simp only [hr, hw] at h; obtain ⟨-, rfl⟩ := Prod.mk.inj h; rfl)

theorem workspaceOf_putAll {cs : List Chunk} {x y : Store}
    (h : (putAll (cs.map fun c => .obj c.toDocument)).on x = (.ok (), y)) :
    y.workspaceOf = x.workspaceOf.insertAll (tenancies cs) := by
  induction cs generalizing x with
  | nil =>
    obtain ⟨-, rfl⟩ := Prod.mk.inj h
    rfl
  | cons c cs ih =>
    obtain ⟨u, m, hput, hrest⟩ := Act.bind_ok h
    rw [ih hrest, workspaceOf_put hput, ← OrderedMap.insertAll_append]
    rfl

/-! ## What a call does to a store -/

/-- `y` is `x` without some documents and then with those of some chunks, which also told of their
workspaces. -/
def Refilled (cs : List Chunk) (x y : Store) : Prop :=
  ∃ p, y.symbols.documents = (x.symbols.documents.keep p).insertAll (documentEntries cs) ∧
    y.workspaceOf = x.workspaceOf.insertAll (tenancies cs)

def Referable (x : Store) : Prop := ∀ k d, x.symbols.documents.get? k = some d → d.Referable

variable {x y : Store} {cs : List Chunk}

theorem Refilled.refl (x : Store) : Refilled [] x x :=
  ⟨fun _ => true, (OrderedMap.keep_true _).symm, rfl⟩

theorem Refilled.referable (hx : x.Referable) (h : Refilled [] x y) : y.Referable := by
  intro k d hd
  obtain ⟨p, hp, -⟩ := h
  rw [hp] at hd
  exact hx k d (OrderedMap.of_get?_keep hd).1

theorem refilled_deleteFile (hx : x.Referable) (repo path : Value) :
    Keeps (Refilled [] x) (deleteFile repo path) := by
  intro y hy
  have hyr := hy.referable hx
  obtain ⟨p, hp, hworkspaces⟩ := hy
  obtain ⟨hok, hdocuments, -⟩ := deleteFile_on repo path y
  have hdocuments := hdocuments (hok.2 fun k d hd _ => hyr k d hd)
  refine ⟨fun d => p d && !Document.ofFile repo path d, ?_, ?_⟩
  · rw [hdocuments, hp]
    exact OrderedMap.keep_keep _ _ _
  · rw [← hworkspaces]
    unfold deleteFile inSymbols
    rw [Act.on_bind, Act.on_within]
    generalize (Symbols.drop (Document.ofFile repo path)).on y.symbols = r
    obtain ⟨o, z⟩ := r
    cases o <;> rfl

theorem Refilled.putAll (hx : x.Referable) (h : Refilled [] x y) (cs : List Chunk) :
    Refilled cs x ((putAll (cs.map fun c => .obj c.toDocument)).on y).2 := by
  have hadmits : Admits y.symbols.documents cs := fun c _ d hd => h.referable hx c.key d hd
  obtain ⟨p, hp, hworkspaces⟩ := h
  obtain ⟨hok, hdocuments, -⟩ := putAll_chunks cs y
  have hput := hok.2 hadmits
  refine ⟨p, ?_, ?_⟩
  · rw [hdocuments hput, hp]
    rfl
  · rw [workspaceOf_putAll (Prod.ext hput rfl), hworkspaces]
    rfl

/-! ## What a restart does to a store -/

theorem workspaceOf_load {data : Value} {ds : List Value} (hdata : part data "symbols" = .ok ds)
    (h : (load data).on x = (.ok (), y)) :
    ∃ m, (putAll ds).on {} = (.ok (), m) ∧ y.workspaceOf = m.workspaceOf := by
  obtain ⟨_, _, hset, h⟩ := Act.bind_ok h
  cases hset
  obtain ⟨_, _, hds, h⟩ := Act.bind_ok h
  rw [hdata] at hds
  cases hds
  obtain ⟨_, m, hput, h⟩ := Act.bind_ok h
  refine ⟨m, hput, ?_⟩
  -- the edges and rows that are read after the documents tell of no workspaces
  refine Keeps.secures (P := fun z => z.workspaceOf = m.workspaceOf)
    (.bind (.ofOutcome _) fun es => ?_) m y () rfl h
  refine .bind (.forM (fun v => .bind (.ofOutcome _) fun k => .modify fun z hz => ?_) es) fun _ => ?_
  · exact hz
  · refine .bind (.ofOutcome _) fun rows =>
      .forM (fun v => .bind (.ofOutcome _) fun r => .modify fun z hz => ?_) rows
    exact hz

theorem idOf_of_chunks (h : x.symbols.documents.entries = documentEntries cs) :
    ∀ e ∈ x.symbols.documents.entries, Document.idOf (.obj e.2) = .ok e.1 := by
  intro e he
  rw [h] at he
  obtain ⟨c, -, rfl⟩ := List.mem_map.1 he
  exact c.idOf_toDocument

theorem filed_of_chunks (h : x.symbols.documents.entries = documentEntries cs) : Filed x.symbols.documents := by
  have hids := idOf_of_chunks h
  constructor
  · intro e he
    rw [Document.id_eq (hids e he)]
    exact BEq.rfl
  · intro e he
    rw [Document.id_eq (hids e he)]
    exact hids e he

/-- A store of chunks is read back with the same documents, and these tell of their workspaces again. -/
theorem load_of_chunks {data : Record} (hx : x.symbols.documents.entries = documentEntries cs)
    (hdata : x.toRecord = .ok data) (y : Store) :
    ∃ z, (load (.obj data)).on y = (.ok (), z) ∧ z.symbols.documents = x.symbols.documents ∧
      z.workspaceOf = OrderedMap.insertAll .empty (tenancies cs) := by
  obtain ⟨hok, hcopied⟩ := load_written (filed_of_chunks hx) hdata y
  have hstorable : x.AllStorable := by
    intro e he
    rw [hx] at he
    obtain ⟨c, -, rfl⟩ := List.mem_map.1 he
    exact c.storable
  obtain ⟨z, hz⟩ := hok.2 hstorable
  refine ⟨z, hz, ?_, ?_⟩
  · apply OrderedMap.ext_entries
    rw [(hcopied z hz).documents, OrderedMap.rekeyed]
    refine (List.map_congr_left fun e he => ?_).trans (List.map_id _)
    rw [Document.id_eq (idOf_of_chunks hx e he)]
    rfl
  · obtain ⟨ks, -, rfl⟩ := of_toRecord hdata
    have hsymbols : part (.obj [("symbols", .list (x.symbols.documents.values.map .obj)),
        ("edges", .list (ks.map fun k => .obj (keyRecord k))),
        ("metadata", .list (x.ledger.values.map LedgerRow.toValue))]) "symbols" =
        .ok (cs.map fun c => .obj c.toDocument) := by
      have hvalues : x.symbols.documents.values.map Value.obj = cs.map fun c => .obj c.toDocument := by
        simp [OrderedMap.values, hx, documentEntries, Function.comp_def]
      rw [← hvalues]
      rfl
    obtain ⟨m, hput, hworkspaces⟩ := workspaceOf_load hsymbols hz
    rw [hworkspaces, workspaceOf_putAll hput]

/-! ## What deleting a workspace does to a store -/

theorem deleteWorkspace_on (hx : x.Referable) (workspace : Value) :
    ∃ n y, (deleteWorkspace workspace).on x = (.ok n, y) ∧
      y.symbols.documents = x.symbols.documents.keep (!Document.ofWorkspace workspace ·) ∧
      ∀ file, y.ledger.get? file =
        if (x.workspaceOf.get? file.1).any (·.same workspace) then none else x.ledger.get? file := by
  have hreferable : ∀ k d,
      x.symbols.documents.get? k = some d → Document.ofWorkspace workspace d = true → d.Referable :=
    fun k d hd _ => hx k d hd
  obtain ⟨refs, hrefs⟩ := (Symbols.drop_ok_iff (Document.ofWorkspace workspace) x.symbols).2 hreferable
  have hdocuments := Symbols.documents_drop hreferable
  have hknown : ∀ repo : Key, (x.workspaceOf.filter fun _ w => w.same workspace).keys.contains repo =
      (x.workspaceOf.get? repo).any (·.same workspace) := by
    intro repo
    rw [OrderedMap.contains_keys]
    show ((x.workspaceOf.keep (·.same workspace)).get? repo).isSome = _
    rw [OrderedMap.get?_keep, Option.isSome_filter]
  unfold deleteWorkspace inSymbols
  simp only [Act.on_bind, Act.on_within, Act.on_modify]
  generalize (Symbols.drop (Document.ofWorkspace workspace)).on x.symbols = r at hrefs hdocuments
  obtain ⟨o, symbols⟩ := r
  obtain rfl : o = .ok refs := hrefs
  refine ⟨_, _, rfl, hdocuments, fun file => ?_⟩
  show (x.ledger.filter fun key _ => _).get? file = _
  rw [OrderedMap.get?_filter _ fun i j _ hij => by rw [contains_congr _ ((beq_pair _ _).1 hij).1], hknown]
  cases (x.workspaceOf.get? file.1).any (·.same workspace) with
  | true => cases x.ledger.get? file <;> rfl
  | false => cases x.ledger.get? file <;> rfl

end Graph.Store

namespace Atlas

open Graph.Store (Refilled)
open Search (Components)

variable {a b : Atlas} {parse : Parser} {o : Origin}

theorem refilled_dropFile {x : Graph.Store} (hx : x.Referable) (file : FileKey) :
    Keeps (fun a => Refilled [] x a.store) (dropFile file) := by
  refine .bind (.discard (.bind (keeps_serving _ _) fun _ => ?_)) fun _ => .bind (.discard ?_) fun _ => ?_
  · exact Keeps.part (Graph.Store.refilled_deleteFile hx _ _) (fun a ha => ha) fun a s _ hs => hs
  · exact .bind (keeps_serving _ _) fun _ => .within _ fun a s ha => ha
  · exact .bind (keeps_serving _ _) fun _ => .modify fun a ha => ha

theorem store_putSymbols (documents : List Value) (a : Atlas) :
    ((putSymbols documents).on a).2.store =
      if a.serves .putSymbols then ((Graph.Store.putAll documents).on a.store).2 else a.store := by
  unfold putSymbols
  rw [Act.on_bind, on_serving]
  cases hs : a.serves .putSymbols with
  | false =>
    obtain ⟨f, hf⟩ := check_eq_error hs
    rw [hf]
    rfl
  | true =>
    rw [check_eq_ok hs]
    rfl

theorem store_writeChunks (cs : List Chunk) (vs : List Components) (a : Atlas) :
    ((writeChunks cs vs).on a).2.store = if a.serves .putSymbols then
      ((Graph.Store.putAll (cs.map fun c => .obj c.toDocument)).on a.store).2 else a.store := by
  cases cs with
  | nil => exact (ite_self _).symm
  | cons c cs =>
    obtain ⟨o, vectors, hvectors, -⟩ := on_putVectors (asKey_of_mem_pointEntries (c :: cs) vs) a
    rw [map_snd_pointEntries] at hvectors
    simp only [writeChunks, List.isEmpty_cons, Bool.false_eq_true, reduceIte, on_together_cons,
      on_together_nil, hvectors]
    obtain ⟨o', texts, htexts, -⟩ := on_addTexts (c :: cs) ((putSymbols _).on { a with vectors }).2
    rw [htexts]
    exact store_putSymbols _ { a with vectors }

theorem refilled_storeChunks (ha : a.store.Referable) (cs : List Chunk) (vs : List Components)
    (rows : List Graph.LedgerRow) :
    ∃ ds, ds ⊆ cs ∧ Refilled ds a.store ((storeChunks cs vs rows).on a).2.store := by
  rw [on_storeChunks, Act.on_bind]
  have hdropped := Keeps.forM (fun r => keeps_removeStale r (refilled_dropFile ha r.file)) rows a (.refl a.store)
  generalize (rows.forM removeStale).on a = r at hdropped
  obtain ⟨o, b⟩ := r
  cases o with
  | error f => exact ⟨[], List.nil_subset _, hdropped⟩
  | ok u =>
    have hwritten : ∃ ds, ds ⊆ cs ∧ Refilled ds a.store ((writeChunks cs vs).on b).2.store := by
      rw [store_writeChunks]
      split
      · exact ⟨cs, List.Subset.refl _, hdropped.putAll ha cs⟩
      · exact ⟨[], List.nil_subset _, hdropped⟩
    obtain ⟨ds, hds, hwritten⟩ := hwritten
    refine ⟨ds, hds, ?_⟩
    have hrows : Keeps (fun m => Refilled ds a.store m.store) (rows.forM putRow) := by
      refine .forM (fun r => .bind (keeps_serving _ _) fun _ => .modify fun m hm => ?_) rows
      exact hm
    dsimp only
    rw [Act.on_bind]
    generalize (writeChunks cs vs).on b = r at hwritten
    obtain ⟨o, c⟩ := r
    cases o with
    | error f => exact hwritten
    | ok u => exact hrows c hwritten

theorem refilled_indexText (ha : a.store.Referable) (parse : Parser) (o : Origin) (text : String) :
    ∃ ds, (∀ c ∈ ds, Chunk.IsFrom o c) ∧ Refilled ds a.store ((indexText parse o text true).on a).2.store := by
  cases hy : yield? parse o text a with
  | none =>
    rw [indexText_of_no_yield hy]
    exact ⟨[], fun c hc => absurd hc List.not_mem_nil, .refl _⟩
  | some found =>
    obtain ⟨y, vs⟩ := found
    obtain ⟨row, -, hchunks, -⟩ := row_of_yield? hy
    obtain ⟨engine, edges, hafter⟩ := indexText_of_yield hy
    obtain ⟨ds, hds, hstored⟩ := refilled_storeChunks ha y.chunks vs y.rows
    rw [hafter]
    exact ⟨ds, fun c hc => (hchunks c (hds hc)).1, hstored⟩

/-! ## Tenancies -/

/-- What calls for any workspaces lead to, the newest first, with the stores that there were since
the store was read last. Any call may fail. Between calls the store may be written and read back,
and everything else may change. -/
inductive Tenancy (parse : Parser) : List Call → List Graph.Store → Atlas → Prop
  | start (a : Atlas) : Tenancy parse [] [{}] { a with store := {} }
  | world {calls : List Call} {stores : List Graph.Store} {a : Atlas}
      (h : Tenancy parse calls stores a) (b : Atlas) :
      Tenancy parse calls stores { b with store := a.store }
  | call {calls : List Call} {stores : List Graph.Store} {a : Atlas} (h : Tenancy parse calls stores a) (o : Origin)
      (text : String) :
      Tenancy parse (⟨a, o, text⟩ :: calls) (((indexText parse o text true).on a).2.store :: stores)
        ((indexText parse o text true).on a).2
  | restart {calls : List Call} {stores : List Graph.Store} {a : Atlas}
      (h : Tenancy parse calls stores a) {data : Record}
      (hdata : a.store.toRecord = .ok data) (other : Graph.Store) :
      Tenancy parse calls [((Graph.Store.load (.obj data)).on other).2]
        { a with store := ((Graph.Store.load (.obj data)).on other).2 }

def Exclusive (calls : List Call) : Prop :=
  ∀ c ∈ calls, ∀ d ∈ calls,
  c.origin.repo.same d.origin.repo = true → c.origin.workspace.same d.origin.workspace = true

instance (calls : List Call) : Decidable (Exclusive calls) := inferInstanceAs (Decidable (∀ c ∈ calls, _))

def HasChunk (x : Graph.Store) (c : Chunk) : Prop := (c.key, c.toDocument) ∈ x.symbols.documents.entries

def OwnedBy (calls : List Call) (x : Graph.Store) : Prop :=
  ∀ e ∈ x.symbols.documents.entries, ∃ c, (∃ t ∈ calls, Chunk.IsFrom t.origin c) ∧ e = (c.key, c.toDocument)

/-- The workspaces of repositories are known just from the documents of some stores. -/
structure Informed (calls : List Call) (stores : List Graph.Store) (x : Graph.Store) : Prop where
  owned : ∀ s ∈ stores, OwnedBy calls s
  present : x ∈ stores
  source : ∀ r w, x.workspaceOf.get? r = some w → ∃ s ∈ stores, ∃ c, HasChunk s c ∧ ∃ j,
    (j, w) ∈ c.tenancy ∧ (j == r) = true
  target : ∀ s ∈ stores, ∀ c, HasChunk s c → ∀ e ∈ c.tenancy, (x.workspaceOf.get? e.1).isSome = true

variable {calls : List Call} {stores : List Graph.Store} {x y : Graph.Store}

theorem OwnedBy.mono {ts : List Call} (h : OwnedBy calls x) (hsub : calls ⊆ ts) : OwnedBy ts x := by
  intro e he
  obtain ⟨c, ⟨t, ht, hc⟩, hec⟩ := h e he
  exact ⟨c, ⟨t, hsub ht, hc⟩, hec⟩

theorem OwnedBy.referable (h : OwnedBy calls x) : x.Referable := by
  intro k d hd
  obtain ⟨j, hj, -⟩ := OrderedMap.mem_of_get? hd
  obtain ⟨c, -, hec⟩ := h _ hj
  rw [(Prod.mk.inj hec).2]
  exact c.referable

theorem Informed.start : Informed [] [{}] {} where
  owned s hs e he := by
    rw [List.mem_singleton.1 hs] at he
    cases he
  present := List.mem_singleton_self _
  source r w h := by cases h
  target s hs c hc := by
    rw [List.mem_singleton.1 hs] at hc
    cases hc

theorem Chunk.IsFrom.tenancy_eq {c d : Chunk} (hc : Chunk.IsFrom o c) (hd : Chunk.IsFrom o d) :
    c.tenancy = d.tenancy := by
  apply Chunk.tenancy_congr
  · exact Value.str.inj (hc.repo.symm.trans hd.repo)
  · exact Value.str.inj (hc.workspace.symm.trans hd.workspace)

theorem hasChunk_of_refilled {ds : List Chunk} (hxy : Refilled ds x y) {c : Chunk} (hc : HasChunk y c) :
    HasChunk x c ∨ ∃ d ∈ ds, c.toDocument = d.toDocument := by
  obtain ⟨p, hp, -⟩ := hxy
  unfold HasChunk at hc
  rw [hp] at hc
  rcases OrderedMap.mem_insertAll hc with hc | ⟨f, hf, hvalue, -⟩
  · exact .inl (List.mem_filter.1 hc).1
  · obtain ⟨d, hd, rfl⟩ := List.mem_map.1 hf
    exact .inr ⟨d, hd, hvalue⟩

theorem exists_hasChunk {ds : List Chunk} (hxy : Refilled ds x y) (hds : ds ≠ []) : ∃ d ∈ ds, HasChunk y d := by
  obtain ⟨p, hp, -⟩ := hxy
  obtain ⟨c, hc⟩ := List.exists_mem_of_ne_nil ds hds
  have hentry : (c.key, c.toDocument) ∈ documentEntries ds := List.mem_map_of_mem hc
  -- of the chunks with this id the last one is there
  obtain ⟨f, hf, hkey, hget⟩ := (x.symbols.documents.keep p).get?_insertAll_of_mem hentry
  obtain ⟨d, hd, rfl⟩ := List.mem_map.1 hf
  obtain ⟨k, hk, hkc⟩ := OrderedMap.mem_of_get? hget
  refine ⟨d, hd, ?_⟩
  have hkd : k = d.key := Chunk.eq_key (BEq.trans hkc (BEq.symm hkey))
  unfold HasChunk
  rw [hp, ← hkd]
  exact hk

theorem OwnedBy.refill {t : Call} {ds : List Chunk} (h : OwnedBy calls x) (hds : ∀ c ∈ ds, Chunk.IsFrom t.origin c)
    (hxy : Refilled ds x y) : OwnedBy (t :: calls) y := by
  obtain ⟨p, hp, -⟩ := hxy
  unfold OwnedBy
  rw [hp]
  have hentries : ∀ e ∈ documentEntries ds, ∃ c ∈ ds, (c.key, c.toDocument) = e := fun e he => List.mem_map.1 he
  refine OrderedMap.forall_insertAll (fun e he => ?_) (fun e he => ?_) fun e he k hk => ?_
  · exact h.mono (List.subset_cons_self _ _) e (List.mem_filter.1 he).1
  · obtain ⟨c, hc, rfl⟩ := hentries e he
    exact ⟨c, ⟨t, List.mem_cons_self, hds c hc⟩, rfl⟩
  · obtain ⟨c, -, rfl⟩ := hentries e he
    exact Chunk.eq_key hk

theorem Informed.call {t : Call} {ds : List Chunk} (h : Informed calls stores x)
    (hds : ∀ c ∈ ds, Chunk.IsFrom t.origin c)
    (hxy : Refilled ds x y) : Informed (t :: calls) (y :: stores) y := by
  have hworkspaces : y.workspaceOf = x.workspaceOf.insertAll (tenancies ds) := hxy.choose_spec.2
  constructor
  case owned =>
    intro s hs
    rcases List.mem_cons.1 hs with rfl | hs
    · exact (h.owned x h.present).refill hds hxy
    · exact (h.owned s hs).mono (List.subset_cons_self _ _)
  case present => exact List.mem_cons_self
  case source =>
    intro r w hrw
    rw [hworkspaces] at hrw
    rcases OrderedMap.mem_of_get?_insertAll hrw with ⟨j, hj, hjr⟩ | hrw
    · -- the chunk that told this may be replaced by one with its id, which tells the same
      obtain ⟨c, hc, hjc⟩ := List.mem_flatMap.1 hj
      obtain ⟨d, hd, hhas⟩ := exists_hasChunk hxy (List.ne_nil_of_mem hc)
      rw [(hds c hc).tenancy_eq (hds d hd)] at hjc
      exact ⟨y, List.mem_cons_self, d, hhas, j, hjc, hjr⟩
    · obtain ⟨s, hs, htold⟩ := h.source r w hrw
      exact ⟨s, List.mem_cons_of_mem _ hs, htold⟩
  case target =>
    intro s hs c hc e he
    rw [hworkspaces]
    have hold : ∀ s ∈ stores, HasChunk s c → ((x.workspaceOf.insertAll (tenancies ds)).get? e.1).isSome = true :=
      fun s hs hc => OrderedMap.isSome_get?_insertAll (h.target s hs c hc e he)
    rcases List.mem_cons.1 hs with rfl | hs
    · rcases hasChunk_of_refilled hxy hc with hc | ⟨d, hd, hsame⟩
      · exact hold x h.present hc
      · obtain ⟨hrepo, hworkspace⟩ := Chunk.context_of_document hsame
        rw [Chunk.tenancy_congr hrepo hworkspace] at he
        obtain ⟨f, -, -, hget⟩ := x.workspaceOf.get?_insertAll_of_mem (List.mem_flatMap.2 ⟨d, hd, he⟩)
        exact Option.isSome_of_eq_some hget
    · exact hold s hs hc

theorem Informed.restart {data : Record} (h : Informed calls stores x) (hdata : x.toRecord = .ok data)
    (other : Graph.Store) :
    Informed calls [((Graph.Store.load (.obj data)).on other).2] ((Graph.Store.load (.obj data)).on other).2 := by
  have howned := h.owned x h.present
  obtain ⟨cs, -, hcs⟩ := exists_chunks howned
  obtain ⟨z, hz, hdocuments, hworkspaces⟩ := Graph.Store.load_of_chunks hcs hdata other
  rw [hz]
  dsimp only
  have hchunks : z.symbols.documents.entries = documentEntries cs := by rw [hdocuments, hcs]
  constructor
  case owned =>
    intro s hs
    rw [List.mem_singleton.1 hs]
    unfold OwnedBy
    rw [hdocuments]
    exact howned
  case present => exact List.mem_singleton_self _
  case source =>
    intro r w hrw
    rw [hworkspaces] at hrw
    rcases OrderedMap.mem_of_get?_insertAll hrw with ⟨j, hj, hjr⟩ | hrw
    · obtain ⟨c, hc, hjc⟩ := List.mem_flatMap.1 hj
      have hhas : HasChunk z c := by
        unfold HasChunk
        rw [hchunks]
        exact List.mem_map_of_mem hc
      exact ⟨z, List.mem_singleton_self _, c, hhas, j, hjc, hjr⟩
    · cases hrw
  case target =>
    intro s hs c hc e he
    rw [List.mem_singleton.1 hs, HasChunk, hchunks] at hc
    obtain ⟨d, hd, hsame⟩ := List.mem_map.1 hc
    obtain ⟨hrepo, hworkspace⟩ := Chunk.context_of_document (Prod.mk.inj hsame).2
    rw [← Chunk.tenancy_congr hrepo hworkspace] at he
    rw [hworkspaces]
    obtain ⟨f, -, -, hget⟩ := OrderedMap.get?_insertAll_of_mem .empty (List.mem_flatMap.2 ⟨d, hd, he⟩)
    exact Option.isSome_of_eq_some hget

theorem Tenancy.informed (h : Tenancy parse calls stores a) : Informed calls stores a.store := by
  induction h with
  | start a => exact .start
  | world _ b ih => exact ih
  | @call calls stores a _ o text ih =>
    obtain ⟨ds, hds, hstored⟩ := refilled_indexText (ih.owned _ ih.present).referable parse o text
    exact ih.call hds hstored
  | restart _ hdata other ih => exact ih.restart hdata other

/-! ## Rows that can be found -/

/-- Whether the rows of a repository are found when a workspace is deleted: both have a name, and
since the last restart there was a document of the repository. -/
def Found (stores : List Graph.Store) (workspace : Value) (repo : Key) : Prop :=
  workspace.truthy = true ∧ repo.toValue.truthy = true ∧
    ∃ s ∈ stores, ∃ k d, s.symbols.documents.get? k = some d ∧ Document.ofRepo repo.toValue d = true

theorem OwnedBy.of_hasChunk (h : OwnedBy calls x) {c : Chunk} (hc : HasChunk x c) :
    ∃ t ∈ calls, t.origin.repo = .str c.payload.context.repo ∧
    t.origin.workspace = .str c.payload.context.workspace := by
  obtain ⟨d, ⟨t, ht, hd⟩, hsame⟩ := h _ hc
  obtain ⟨hrepo, hworkspace⟩ := Chunk.context_of_document (Prod.mk.inj hsame).2
  rw [hrepo, hworkspace]
  exact ⟨t, ht, hd.repo, hd.workspace⟩

theorem OwnedBy.exists_chunk (h : OwnedBy calls x) {k : Key} {d : Document}
    (hd : x.symbols.documents.get? k = some d) :
    ∃ c, HasChunk x c ∧ d = c.toDocument := by
  obtain ⟨j, hj, -⟩ := OrderedMap.mem_of_get? hd
  obtain ⟨c, -, hsame⟩ := h _ hj
  obtain ⟨rfl, rfl⟩ := Prod.mk.inj hsame
  exact ⟨c, hj, rfl⟩

theorem Exclusive.workspace_eq (hone : Exclusive calls) (hx : OwnedBy calls x) {c : Chunk}
    (hc : HasChunk x c) {t : Call}
    (ht : t ∈ calls) (hrepo : t.origin.repo.same (.str c.payload.context.repo) = true) :
    t.origin.workspace = .str c.payload.context.workspace := by
  obtain ⟨u, hu, hurepo, huworkspace⟩ := hx.of_hasChunk hc
  rw [Value.same_str] at hrepo
  have hsame := hone u hu t ht (by rw [hurepo, hrepo, Value.str_same])
  rw [huworkspace, Value.str_same] at hsame
  exact hsame

/-- What is known of the workspace of a repository comes from its documents. -/
theorem Informed.known_iff (h : Informed calls stores x) (hone : Exclusive calls) (repo : Key) (workspace : Value) :
    (x.workspaceOf.get? repo).any (·.same workspace) = true ↔
      ∃ s ∈ stores, ∃ c, HasChunk s c ∧ (repo, workspace) ∈ c.tenancy := by
  constructor
  · intro hany
    obtain ⟨w, hw, hsame⟩ := (Option.any_eq_true _ _).1 hany
    obtain ⟨s, hs, c, hc, j, hj, hjr⟩ := h.source repo w hw
    obtain ⟨-, -, htold⟩ := (c.mem_tenancy _).1 hj
    obtain ⟨rfl, rfl⟩ := Prod.mk.inj htold
    rw [Key.str_beq] at hjr
    rw [Value.str_same] at hsame
    rw [hjr, hsame]
    exact ⟨s, hs, c, hc, hj⟩
  · rintro ⟨s, hs, c, hc, htold⟩
    obtain ⟨w, hw⟩ := Option.isSome_iff_exists.1 (h.target s hs c hc _ htold)
    obtain ⟨s', hs', d, hd, j, hj, hjr⟩ := h.source _ w hw
    obtain ⟨-, -, hc'⟩ := (c.mem_tenancy _).1 htold
    obtain ⟨-, -, hd'⟩ := (d.mem_tenancy _).1 hj
    obtain ⟨rfl, rfl⟩ := Prod.mk.inj hc'
    obtain ⟨rfl, rfl⟩ := Prod.mk.inj hd'
    obtain ⟨u, hu, hurepo, huworkspace⟩ := (h.owned s' hs').of_hasChunk hd
    have hrepo := hone.workspace_eq (h.owned s hs) hc hu
      (by rw [hurepo, Value.same_str]; exact congrArg Key.toValue ((Key.beq_str _ _).1 hjr))
    rw [hw, Option.any_some, ← huworkspace, hrepo, Value.str_same]

theorem Informed.found_iff (h : Informed calls stores x) (hone : Exclusive calls) {t : Call}
    (ht : t ∈ calls) {repo : Key}
    {workspace : Value} (hrepo : t.origin.repo.same repo.toValue = true)
    (hworkspace : t.origin.workspace.same workspace = true) :
    Found stores workspace repo ↔ (x.workspaceOf.get? repo).any (·.same workspace) = true := by
  rw [h.known_iff hone]
  constructor
  · rintro ⟨hw, hr, s, hs, k, d, hd, hofRepo⟩
    obtain ⟨c, hc, rfl⟩ := (h.owned s hs).exists_chunk hd
    obtain rfl := (c.ofRepo_toDocument repo).1 hofRepo
    have hcall := hone.workspace_eq (h.owned s hs) hc ht hrepo
    rw [hcall, Value.str_same] at hworkspace
    obtain rfl := hworkspace
    exact ⟨s, hs, c, hc, (c.mem_tenancy _).2 ⟨hr, hw, rfl⟩⟩
  · rintro ⟨s, hs, c, hc, htold⟩
    obtain ⟨hr, hw, hsame⟩ := (c.mem_tenancy _).1 htold
    obtain ⟨rfl, rfl⟩ := Prod.mk.inj hsame
    exact ⟨hw, hr, s, hs, c.key, c.toDocument, OrderedMap.get?_of_mem hc, (c.ofRepo_toDocument _).2 rfl⟩

/-- Deleting a workspace removes its documents. The rows of a repository that was indexed for it go
just if a document of the repository was there since the last restart; repositories of other
workspaces keep their documents and rows. -/
theorem Tenancy.vacated (h : Tenancy parse calls stores a) (hone : Exclusive calls)
    (hserves : a.serves .deleteWorkspace = true) (workspace : Value) :
    ∃ n b, (deleteWorkspace workspace).on a = (.ok n, b) ∧
      b.store.symbols.documents = a.store.symbols.documents.keep (!Document.ofWorkspace workspace ·) ∧
      ∀ t ∈ calls, ∀ file : FileKey, t.origin.repo.same file.1.toValue = true →
        (t.origin.workspace.same workspace = true →
          (Found stores workspace file.1 → b.store.ledger.get? file = none) ∧
          (¬ Found stores workspace file.1 → b.store.ledger.get? file = a.store.ledger.get? file)) ∧
        (t.origin.workspace.same workspace = false →
          b.store.ledger.get? file = a.store.ledger.get? file ∧
          ∀ k d, Document.ofRepo file.1.toValue d = true →
            (b.store.symbols.documents.get? k = some d ↔ a.store.symbols.documents.get? k = some d)) := by
  have hinformed := h.informed
  have howned := hinformed.owned a.store hinformed.present
  obtain ⟨n, y, hdelete, hdocuments, hledger⟩ := Graph.Store.deleteWorkspace_on howned.referable workspace
  refine ⟨n, { a with store := y }, ?_, hdocuments,
    fun t ht file hrepo => ⟨fun hsame => ?_, fun hother => ⟨?_, fun k d hd => ?_⟩⟩⟩
  · simp [deleteWorkspace, inStore, Act.on_bind, check_eq_ok hserves, hdelete]
  · rw [hinformed.found_iff hone ht hrepo hsame]
    exact ⟨fun hknown => (hledger file).trans (if_pos hknown),
      fun hunknown => (hledger file).trans (if_neg hunknown)⟩
  · refine (hledger file).trans (if_neg fun hknown => ?_)
    obtain ⟨s, hs, c, hc, htold⟩ := (hinformed.known_iff hone _ _).1 hknown
    obtain ⟨-, -, hchunk⟩ := (c.mem_tenancy _).1 htold
    obtain ⟨hkey, rfl⟩ := Prod.mk.inj hchunk
    rw [hkey] at hrepo
    rw [hone.workspace_eq (hinformed.owned s hs) hc ht hrepo, Bool.eq_false_iff] at hother
    exact hother ((Value.str_same _ _).2 rfl)
  · show y.symbols.documents.get? k = some d ↔ _
    rw [hdocuments, OrderedMap.get?_keep, Option.filter_eq_some_iff, and_iff_left_iff_imp]
    intro hk
    obtain ⟨c, hc, rfl⟩ := howned.exists_chunk hk
    rw [(c.ofRepo_toDocument file.1).1 hd] at hrepo
    rw [hone.workspace_eq howned hc ht hrepo, Bool.eq_false_iff] at hother
    rw [Bool.not_eq_true', Bool.eq_false_iff, ne_eq, c.ofWorkspace_toDocument]
    exact fun hsame => hother ((Value.str_same _ _).2 hsame)

/-! A file with a function, and one with nothing in it. -/

/-- The row of a file with a function goes with its workspace. -/
theorem Tenancy.vacated_of_function :
    let a := (Sample.index Sample.function Sample.atlas).2
    Tenancy Sample.parse [⟨Sample.atlas, Sample.origin, Sample.function⟩] [a.store, {}] a ∧
      (a.store.ledger.get? (.str "repo", .str "a.py")).isSome = true ∧
      ∃ n b, (deleteWorkspace "ws").on a = (.ok n, b) ∧ b.store.ledger.get? (.str "repo", .str "a.py") = none := by
  intro a
  have htenancy : Tenancy Sample.parse [⟨Sample.atlas, Sample.origin, Sample.function⟩] [a.store, {}] a :=
    .call (.start Sample.atlas) Sample.origin Sample.function
  have hany : (a.store.symbols.documents.entries.any fun e => Document.ofRepo "repo" e.2) = true := by
    decide +kernel
  obtain ⟨e, he, hrepo⟩ := List.any_eq_true.1 hany
  have hfound : Found [a.store, {}] "ws" (.str "repo") :=
    ⟨rfl, rfl, a.store, List.mem_cons_self, e.1, e.2, OrderedMap.get?_of_mem he, hrepo⟩
  obtain ⟨n, b, hdelete, -, hrows⟩ := htenancy.vacated (by decide +kernel) (by decide +kernel) "ws"
  obtain ⟨hgone, -⟩ := (hrows _ List.mem_cons_self (.str "repo", .str "a.py") rfl).1 rfl
  exact ⟨htenancy, by decide +kernel, n, b, hdelete, hgone hfound⟩

/-- The row of an empty file stays when the workspace is deleted that it was indexed for. -/
theorem row_stays_of_empty_file : ∃ calls stores a n b, Tenancy Sample.parse calls stores a ∧ Exclusive calls ∧
    (deleteWorkspace "ws").on a = (.ok n, b) ∧ ∃ t ∈ calls, t.origin.workspace = "ws" ∧ ∃ file : FileKey,
      t.origin.repo = file.1.toValue ∧ (b.store.ledger.get? file).isSome = true := by
  have hdelete : ((deleteWorkspace "ws").on (Sample.index "" Sample.atlas).2).1.toBool = true := by decide +kernel
  refine ⟨_, _, _, _, _, .call (.start Sample.atlas) Sample.origin "", by decide +kernel, Act.on_eq_ok 0 hdelete,
    _, List.mem_cons_self, rfl, (.str "repo", .str "a.py"), rfl, by decide +kernel⟩

end Atlas

end SourceAtlas
