import SourceAtlas.Proofs.Losses
import SourceAtlas.Proofs.References
import SourceAtlas.Proofs.Twins

/-!
# Restarts that nobody notices

An atlas that was closed and started again on all of its snapshots holds what
it held, in the same order, and answers every later call as if it had never
been closed. What is looked up by reference needs references that told the
symbols apart all along: a symbol that went took its reference with it, and
only a restart gives that back to another symbol that had it as well.
-/

namespace SourceAtlas

open Json (Value Record Key)
open Act (Keeps Respects)

/-! ## References throughout a session -/

/-- The symbols that are stored at one time or another: once changed files are dropped, and again
with each symbol that is added. -/
def moments : List Turn → List (List Chunk)
  | [] => []
  | .stored y :: ts => y.chunks.scanl storeChunk ((remains .symbols ts).filter (outlasts ts y)) ++ moments ts
  | .restarted _ :: ts => moments ts

/-- No two symbols are stored with the same reference at the same time. -/
def Distinguished (ts : List Turn) : Prop := ∀ cs ∈ moments ts, DistinctRefs cs

instance (ts : List Turn) : Decidable (Distinguished ts) :=
  inferInstanceAs (Decidable (∀ cs ∈ moments ts, DistinctRefs cs))

theorem Distinguished.remains {ts : List Turn} (h : Distinguished ts) : DistinctRefs (remains .symbols ts) := by
  induction ts with
  | nil => exact .nil
  | cons t ts ih =>
    cases t with
    | stored y =>
      apply h
      rw [SourceAtlas.remains, ← List.getLast_scanl (by simp)]
      exact List.mem_append_left _ (List.getLast_mem _)
    | restarted kept =>
      rw [SourceAtlas.remains]
      split
      · exact ih h
      · exact .nil

/-- A new chunk cannot share its reference with others than those that it replaces. -/
theorem DistinctRefs.snoc {cs : List Chunk} {c : Chunk} (h : DistinctRefs cs)
    (h' : DistinctRefs (storeChunk cs c)) :
    DistinctRefs (cs ++ [c]) := by
  have hnew : ∀ d ∈ cs, d.payload.ref = c.payload.ref → d.id = c.id := by
    intro d hd href
    by_cases hid : d.id = c.id
    · exact hid
    · refine h' d (List.mem_append_left _ (List.mem_filter.2 ⟨hd, ?_⟩)) c
        (List.mem_append_right _ List.mem_cons_self) href
      rwa [bne_iff_ne]
  intro d hd e he href
  rcases List.mem_append.1 hd with hd | hd
  · rcases List.mem_append.1 he with he | he
    · exact h d hd e he href
    · rw [List.mem_singleton.1 he] at href ⊢
      exact hnew d hd href
  · rw [List.mem_singleton.1 hd] at href ⊢
    rcases List.mem_append.1 he with he | he
    · exact (hnew e he href.symm).symm
    · rw [List.mem_singleton.1 he]

namespace Graph

open Symbols (Indexed)

variable {cs : List Chunk}

theorem Symbols.Indexed.storeChunk {x y : Symbols} {c : Chunk} (h : Indexed cs x) (hrefs : DistinctRefs cs)
    (hrefs' : DistinctRefs (storeChunk cs c)) (hlists : Lists .symbols x.documents cs)
    (hok : (Symbols.put c.key c.toDocument).on x = (.ok (), y)) :
    Indexed (storeChunk cs c) y ∧ Lists .symbols y.documents (storeChunk cs c) := by
  have hdocuments : y.documents = x.documents.insert c.key c.toDocument := by
    have hput := Symbols.documents_put (congrArg Prod.fst hok)
    rwa [hok] at hput
  have hlists' : Lists .symbols y.documents (SourceAtlas.storeChunk cs c) := by
    rw [hdocuments]
    exact hlists.insert c
  have hafter := Indexed.put (hrefs.snoc hrefs') (List.mem_append_right cs List.mem_cons_self) x
    (h.mono (List.subset_append_left cs [c]))
  rw [hok] at hafter
  exact ⟨hafter.of_owned fun k doc hk => (hlists' k doc).1 hk, hlists'⟩

/-- Chunks are put one after the other. -/
theorem Store.of_putAll_cons {c : Chunk} {ds : List Chunk} {x z : Store}
    (h : (putAll ((c :: ds).map fun c => .obj c.toDocument)).on x = (.ok (), z)) :
    ∃ y : Store, (Symbols.put c.key c.toDocument).on x.symbols = (.ok (), y.symbols) ∧
      (putAll (ds.map fun c => .obj c.toDocument)).on y = (.ok (), z) := by
  obtain ⟨_, y, hput, hrest⟩ := Act.bind_ok h
  obtain ⟨hresult, hsymbols, -⟩ := on_put_chunk c x
  rw [hput] at hresult hsymbols
  exact ⟨y, Prod.ext hresult.symm hsymbols.symm, hrest⟩

theorem Store.indexed_of_putAll {ds : List Chunk} (hrefs : ∀ m ∈ ds.scanl storeChunk cs, DistinctRefs m)
    {x z : Store} (h : Indexed cs x.symbols) (hlists : Lists .symbols x.symbols.documents cs)
    (hok : (putAll (ds.map fun c => .obj c.toDocument)).on x = (.ok (), z)) :
    Indexed (ds.foldl storeChunk cs) z.symbols := by
  induction ds generalizing cs x with
  | nil =>
    obtain ⟨-, rfl⟩ := Prod.mk.inj hok
    exact h
  | cons d ds ih =>
    rw [List.scanl_cons] at hrefs
    obtain ⟨hfirst, hrest⟩ := List.forall_mem_cons.1 hrefs
    obtain ⟨y, hput, hok⟩ := of_putAll_cons hok
    have hnext : DistinctRefs (storeChunk cs d) := by
      apply hrest
      cases ds <;> simp
    obtain ⟨hindexed, hlists⟩ := h.storeChunk hfirst hnext hlists hput
    exact ih hrest hindexed hlists hok

end Graph

namespace Atlas

variable {a b c : Atlas} {y : Index.Yield} {ts : List Turn}

/-! ## What becomes of the symbols -/

theorem keeps_indexed_dropFile {us : List Chunk} (hrefs : DistinctRefs us) (file : FileKey) :
    Keeps (fun a => a.store.symbols.Indexed us) (dropFile file) := by
  have hdrop := Graph.Symbols.Indexed.drop hrefs (Document.ofFile file.1.toValue file.2.toValue)
  have hdelete : Keeps (fun x => x.symbols.Indexed us) (Graph.Store.deleteFile file.1.toValue file.2.toValue) := by
    refine .bind (fun x hx => ?_) fun _ => .pure _
    exact hdrop x.symbols hx
  refine .bind (.discard (.bind (keeps_serving _ _) fun _ a ha => hdelete a.store ha)) fun _ => ?_
  refine .bind (.discard (.bind (keeps_serving _ _) fun _ => ?_)) fun _ =>
    .bind (keeps_serving _ _) fun _ => .modify fun a ha => ha
  exact .within _ fun _ _ h => h

theorem of_together_cons {x : Act Atlas Unit} {xs : List (Act Atlas Unit)}
    (h : (together (x :: xs)).on a = (.ok (), b)) :
    ∃ m, x.on a = (.ok (), m) ∧ (together xs).on m = (.ok (), b) := by
  rw [on_together_cons] at h
  obtain ⟨hok, hend⟩ := Prod.mk.inj h
  split at hok
  · cases hok
  · rename_i hx
    exact ⟨_, Prod.ext hx rfl, Prod.ext hok hend⟩

theorem of_writeChunks {cs : List Chunk} {vs : List Search.Components}
    (h : (writeChunks cs vs).on a = (.ok (), b)) :
    (Graph.Store.putAll (cs.map fun c => .obj c.toDocument)).on a.store = (.ok (), b.store) := by
  unfold writeChunks at h
  split at h
  · rename_i hnil
    obtain rfl := List.isEmpty_iff.1 hnil
    obtain ⟨-, rfl⟩ := Prod.mk.inj h
    rfl
  · obtain ⟨m, hvectors, h⟩ := of_together_cons h
    obtain ⟨n, hsymbols, h⟩ := of_together_cons h
    obtain ⟨p, htexts, h⟩ := of_together_cons h
    obtain ⟨-, rfl⟩ := Prod.mk.inj h
    have hvectors := of_serving_bind hvectors
    have hsymbols := of_serving_bind hsymbols
    have htexts := of_serving_bind htexts
    obtain ⟨-, rfl⟩ := Prod.mk.inj hvectors
    obtain ⟨hput, rfl⟩ := Prod.mk.inj hsymbols
    obtain ⟨-, rfl⟩ := Prod.mk.inj htexts
    exact Prod.ext hput rfl

/-- What storing does to the symbols: changed files are dropped, and then the chunks are put. -/
theorem symbols_of_persist (h : (persist y).on a = (.ok (), b)) : ∃ m n : Atlas,
    (y.rows.forM removeStale).on a = (.ok (), m) ∧
    m.store.symbols.documents = a.store.symbols.documents.keep (!staleDocument a.store.ledger y.rows ·) ∧
    (Graph.Store.putAll (y.chunks.map fun c => .obj c.toDocument)).on m.store = (.ok (), n.store) ∧
    b.store.symbols = n.store.symbols := by
  obtain ⟨vs, hvs, -⟩ := of_persist h
  rw [on_persist hvs] at h
  obtain ⟨_, d, hstore, hedges⟩ := Act.bind_ok h
  rw [on_storeChunks] at hstore
  obtain ⟨_, m, hremove, hstore⟩ := Act.bind_ok hstore
  obtain ⟨_, n, hwrite, hrows⟩ := Act.bind_ok hstore
  refine ⟨m, n, hremove, ?_, of_writeChunks hwrite, ?_⟩
  · obtain ⟨-, hwithout⟩ := removeRows_on y.rows a
    rw [hremove] at hwithout
    exact (hwithout rfl).symbols
  · obtain ⟨-, hend⟩ := on_putRows y.rows n
    obtain ⟨-, -, ⟨engine, edges, hlinked⟩, -⟩ := storeEdges_on y.edges d
    rw [hrows] at hend
    rw [hedges] at hlinked
    have hbefore : d.store.symbols = n.store.symbols := congrArg (·.store.symbols) (hend rfl)
    have hafter : b.store.symbols = d.store.symbols := congrArg (·.store.symbols) hlinked
    rw [hafter, hbefore]

/-- Storing goes through the moments that it is told to go through. -/
theorem indexed_of_persist (h : Tracked a ts) (hindexed : a.store.symbols.Indexed (remains .symbols ts))
    (hy : Fits a y) (hrefs : Distinguished (.stored y :: ts)) (hp : (persist y).on a = (.ok (), b)) :
    b.store.symbols.Indexed (remains .symbols (.stored y :: ts)) := by
  have hbefore : DistinctRefs (remains .symbols ts) :=
    Distinguished.remains fun cs hcs => hrefs cs (List.mem_append_right _ hcs)
  obtain ⟨m, n, hremove, hkept, hput, hsame⟩ := symbols_of_persist hp
  have hdropped : m.store.symbols.Indexed (remains .symbols ts) := by
    have hkeeps := Keeps.forM (fun r => keeps_removeStale r (keeps_indexed_dropFile hbefore r.file))
      y.rows a hindexed
    rwa [hremove] at hkeeps
  have hleft : Lists .symbols m.store.symbols.documents ((remains .symbols ts).filter (outlasts ts y)) := by
    rw [hkept]
    refine (h.lists .symbols).keep fun c _ => ?_
    rw [staleDocument_eq hy h.rows, Bool.not_not]
  have hindexed := hdropped.of_owned fun k doc hk => (hleft k doc).1 hk
  rw [hsame]
  exact Graph.Store.indexed_of_putAll (fun cs hcs => hrefs cs (List.mem_append_left _ hcs)) hindexed hleft hput

/-- Throughout a session in which references tell the symbols apart, each symbol is found by its own. -/
theorem Session.indexed (h : Session a ts) (hrefs : Distinguished ts) :
    a.store.symbols.Indexed (remains .symbols ts) := by
  induction h with
  | @start plan disk faults a hpersists hnew hserves hok =>
    obtain ⟨b, hstart, hb, -, -, -⟩ := start_on (regular_open plan disk) hpersists (loads_nothing hnew) hserves
    obtain ⟨-, rfl⟩ := Prod.mk.inj (hstart.symm.trans hok)
    refine hb.store.indexed [] .nil fun e he => ?_
    cases he
  | world _ disk faults ih => exact ih hrefs
  | @index a b ts y h hok ih =>
    obtain ⟨hy, hp⟩ := persist_of_indexes hok
    obtain ⟨-, -, htracked⟩ := h.running
    exact indexed_of_persist htracked (ih fun cs hcs => hrefs cs (List.mem_append_right _ hcs)) hy hrefs hp
  | @restart a b c ts kept disk faults h hclose hfound hserves hok ih =>
    obtain ⟨hrunning, hpersists, htracked⟩ := h.running
    obtain ⟨data, -, f, g, files, -, -, -, rfl⟩ := of_close hpersists hclose
    obtain ⟨b', hstart, hb, -, -, -⟩ := start_on hrunning.toRegular hpersists hfound hserves
    obtain ⟨-, rfl⟩ := Prod.mk.inj (hstart.symm.trans hok)
    refine hb.store.indexed _ hrefs.remains fun e he => ?_
    rw [remnant, settled_symbols] at he
    rw [SourceAtlas.remains]
    split at he
    · rename_i hkept
      rw [if_pos hkept]
      obtain ⟨c, hc, hkey, hdoc⟩ := (htracked.lists .symbols e.1 e.2).1 (OrderedMap.get?_of_mem he)
      exact ⟨c, hc, Prod.ext hkey hdoc⟩
    · cases he

/-! ## What comes after a restart -/

/-- The edges that are read back are those that were written. -/
theorem Restored.contains_keys (h : Restored a b) (k : EdgeKey) :
    b.store.edges.keys.contains k = a.store.edges.keys.contains k := by
  obtain ⟨ks, hks, hedges⟩ := h.store.edges
  have hnone : ({} : Graph.Edges).keys.contains k = false := rfl
  rw [hedges, Graph.Edges.contains_foldl_put, hnone, Bool.or_false, Bool.eq_iff_iff,
    List.contains_iff_exists_mem_beq, List.contains_iff_exists_mem_beq]
  simp only [hks.mem_iff]

theorem Restored.holds (h : Restored a b) (ha : Running a) (hb : Running b) :
    ∃ p, a.engine.Holds p ∧ b.engine.Holds p ∧ ∀ k, p k = true → Graph.Named k := by
  refine ⟨_, ha.mirrored.holds, hb.mirrored.holds.congr fun k => ?_, fun k hk => ?_⟩
  · rw [h.contains_keys]
  · rw [List.contains_nil, Bool.or_false] at hk
    obtain ⟨j, hj, hkj⟩ := List.contains_iff_exists_mem_beq.1 hk
    exact ((ha.usual j hj).of_beq hkj).named

/-- What was read back answers as what was written does. -/
theorem Restored.twin (h : Restored a b) (ha : Running a) (hb : Running b) {refs : Prop}
    (hrefs : refs → a.store.symbols.idOfRef.Agrees b.store.symbols.idOfRef) :
    Twin refs { a with disk := b.disk, faults := b.faults } b where
  plan := h.plan.symm
  disk := rfl
  faults := rfl
  vectors := by
    have hfields : ∀ {x y : Search.VectorIndex},
      x.dimensions = y.dimensions → x.points = y.points → x.table = y.table →
        x = y := by
      rintro ⟨_, _, _⟩ ⟨_, _, _⟩ rfl rfl rfl
      rfl
    exact hfields h.dimensions.symm h.points.symm (ha.table.trans h.table.symm)
  store := ⟨⟨h.store.documents.symm, hrefs⟩, h.store.ledger.symm⟩
  texts := by
    obtain ⟨hk1, hb'⟩ := ha.parameters
    obtain ⟨hk1', hb''⟩ := h.parameters
    refine ⟨h.texts.symm, fun id => ?_, ?_, ?_⟩
    · rw [ha.counted, h.counted, h.texts]
    · rw [hk1, hk1', h.plan]
    · rw [hb', hb'', h.plan]
  engine := ⟨ha.mirrored.ready.trans hb.mirrored.ready.symm, ha.plain, hb.plain, h.holds ha hb⟩

/-! ## Later calls -/

inductive Request where
  | index (parse : Parser) (origin : Origin) (text : String) (keep : Bool)
  | texts (query workspace : Value) (filters : Search.Filters) (limit : Value)
  | vectors (vector workspace : Value) (filters : Search.Filters) (limit : Value)
  | hybrid (query workspace topK : Value) (filters : Search.Filters) (weights : Option (Search.Signals Float))

inductive Answer where
  | file (result : Index.FileResult)
  | texts (hits : List (Search.TextHit Float))
  | vectors (hits : List Search.VectorHit)
  | fused (hits : List (Search.Fused Float))

namespace Request

def act : Request → Act Atlas Answer
  | .index parse o text keep => do pure (.file (← indexText parse o text keep))
  | .texts query workspace filters limit => do pure (.texts (← searchTexts query workspace filters limit))
  | .vectors vector workspace filters limit => do pure (.vectors (← searchVectors vector workspace filters limit))
  | .hybrid query workspace topK filters weights => do
    pure (.fused (← searchHybrid query workspace topK filters weights))

def looksUp : Request → Bool
  | .hybrid .. => true
  | _ => false

theorem respects_act {refs : Prop} (r : Request) (hrefs : r.looksUp = true → refs) :
    Respects (Twin refs) r.act := by
  cases r with
  | index parse o text keep => exact .bind (respects_indexText parse o text keep) fun _ => .pure _
  | texts query workspace filters limit =>
    exact .bind (respects_searchTexts query workspace filters limit) fun _ => .pure _
  | vectors vector workspace filters limit =>
    exact .bind (respects_searchVectors vector workspace filters limit) fun _ => .pure _
  | hybrid query workspace topK filters weights =>
    exact .bind (respects_searchHybrid (hrefs rfl) query workspace topK filters weights) fun _ => .pure _

theorem on_index {parse : Parser} {o : Origin} {text : String} {keep : Bool} {x : Index.FileResult}
    (h : (indexText parse o text keep).on a = (.ok x, b)) :
    (Request.index parse o text keep).act.on a = (.ok (.file x), b) :=
  Act.on_bind_ok h

end Request

structure Visit where
  request : Request
  disk : Disk
  faults : List (Operation × Failure) := []

def replies : List Visit → Atlas → List (Outcome Answer)
  | [], _ => []
  | v :: vs, a =>
    let (answer, b) := v.request.act.on { a with disk := v.disk, faults := v.faults }
    answer :: replies vs b

theorem replies_cons (v : Visit) (vs : List Visit) (a : Atlas) : replies (v :: vs) a =
    (v.request.act.on { a with disk := v.disk, faults := v.faults }).1 ::
      replies vs (v.request.act.on { a with disk := v.disk, faults := v.faults }).2 := rfl

theorem replies_elsewhere (visits : List Visit) (a : Atlas) (disk : Disk) (faults : List (Operation × Failure)) :
    replies visits { a with disk, faults } = replies visits a := by
  cases visits <;> rfl

theorem Twin.replies {refs : Prop} (h : Twin refs a b) {visits : List Visit}
    (hrefs : ∀ v ∈ visits, v.request.looksUp = true → refs) : replies visits a = replies visits b := by
  induction visits generalizing a b with
  | nil => rfl
  | cons v vs ih =>
    obtain ⟨hv, hvs⟩ := List.forall_mem_cons.1 hrefs
    obtain ⟨hanswer, hafter⟩ := v.request.respects_act hv _ _ (h.elsewhere v.disk v.faults)
    rw [replies_cons, replies_cons, hanswer, ih hafter hvs]

/-- After a restart that finds what closing wrote, everything is as it was, and every request gets
the answer that it would have got without the restart. -/
theorem Session.restart_transparent {disk : Disk} {faults : List (Operation × Failure)} (h : Session a ts)
    (hclose : close.on a = (.ok (), c)) (hread : Finds a disk fun _ => true)
    (hserves : Startable { c with disk, faults }) :
    ∃ b, Atlas.start.on (reopen { c with disk, faults }) = (.ok (), b) ∧
      b.store.symbols.documents = a.store.symbols.documents ∧
      b.store.ledger.values = a.store.ledger.values ∧
      b.vectors.points = a.vectors.points ∧
      b.texts.documents = a.texts.documents ∧
      (∀ k, b.engine.out.joins k = a.engine.out.joins k ∧ b.engine.inbound.joins k = a.engine.inbound.joins k) ∧
      ∀ visits : List Visit, (∀ v ∈ visits, v.request.looksUp = true → Distinguished ts) →
        replies visits b = replies visits a := by
  obtain ⟨ha, hpersists, -⟩ := h.running
  obtain ⟨data, -, f, g, files, -, -, -, hc⟩ := of_close hpersists hclose
  have hc : { c with disk, faults } = { a with disk, faults } := by rw [hc]
  rw [hc] at hserves ⊢
  obtain ⟨b, hstart, hrestored, hb, rfl, rfl⟩ := start_on ha.toRegular hpersists hread hserves
  have hrestored : Restored a b := hrestored
  refine ⟨b, hstart, hrestored.store.documents, hrestored.store.rows, hrestored.points,
    hrestored.texts, fun k => ?_,
    fun visits hvisits => ?_⟩
  · obtain ⟨p, hleft, hright, -⟩ := hrestored.holds ha hb
    exact ⟨(hright.out k).trans (hleft.out k).symm,
      (hright.inbound (k.2.1, k.1, k.2.2)).trans (hleft.inbound (k.2.1, k.1, k.2.2)).symm⟩
  · -- references lead to the same symbols if they told them apart all along
    have hrefs : Distinguished ts → a.store.symbols.idOfRef.Agrees b.store.symbols.idOfRef := by
      intro hdistinguished
      have hleft := h.indexed hdistinguished
      have hright := hrestored.store.indexed (remains .symbols ts) hdistinguished.remains fun e he => by
        obtain ⟨c, hc, hkey, hdoc⟩ := hleft.owned e.1 e.2 (OrderedMap.get?_of_mem he)
        exact ⟨c, hc, Prod.ext hkey hdoc⟩
      exact hleft.agrees hright hrestored.store.documents.symm
    rw [← (hrestored.twin ha hb hrefs).replies hvisits, replies_elsewhere]

def functionVisits (filters : Search.Filters) (weights : Option (Search.Signals Float)) : List Visit := [
  { request := .index Sample.parse Sample.origin Sample.function true, disk := Sample.disk },
  { request := .hybrid "f" "ws" (.int 5) filters weights, disk := Sample.disk }]

/-- The function is found unchanged after a restart, and searches for it answer as without one. -/
theorem Session.function_after_restart : ∃ b ts,
    Atlas.start.on (reopen { Sample.closed.2 with disk := Sample.closed.2.disk, faults := [] }) = (.ok (), b) ∧
    Session Sample.written.2 ts ∧ Distinguished ts ∧ b.store.symbols.documents.size = 1 ∧
    ∀ filters weights, replies (functionVisits filters weights) b =
      replies (functionVisits filters weights) Sample.written.2 ∧
      (replies (functionVisits filters weights) b).head? = some (.ok (.file (.unchanged .python))) := by
  have hclose : Sample.closed.1.toBool = true := by decide +kernel
  have hclose := Act.on_eq_ok () hclose
  have hread := finds_of_close (by decide +kernel) (by decide +kernel) hclose
  have hserves : Startable { Sample.closed.2 with disk := Sample.closed.2.disk, faults := [] } :=
    ⟨rfl, rfl, rfl, fun _ => rfl⟩
  have hdistinguished : Distinguished [.stored (Sample.written.1.toOption.getD .unsupported).yield] := by
    decide +kernel
  obtain ⟨b, hstart, hdocuments, -, -, -, -, hreplies⟩ := session_written.restart_transparent hclose hread hserves
  refine ⟨b, _, hstart, session_written, hdistinguished, ?_, fun filters weights => ?_⟩
  · rw [hdocuments]
    decide +kernel
  · have hsame := hreplies (functionVisits filters weights) fun _ _ _ => hdistinguished
    have hanswer : (Sample.index Sample.function { Sample.written.2 with disk := Sample.disk, faults := [] }).1 =
        .ok (.unchanged .python) := eq_unchanged (by decide +kernel)
    refine ⟨hsame, ?_⟩
    rw [hsame, functionVisits, replies_cons, List.head?_cons, Request.on_index (eq_of_fst hanswer)]

end Atlas

end SourceAtlas
