import SourceAtlas.Proofs.FileEdges
import SourceAtlas.Proofs.Reloading

/-!
# Closing and starting

Closing writes a snapshot of each part, and starting reads those that there
are. Without the snapshot of the vectors or of the texts, the ledger is
dropped while the symbols and edges stay.
-/

namespace SourceAtlas

open Json (Value Record Key)
open Snapshot (versioned)

/-! ## Snapshots of the parts -/

namespace Part

def snapshot : Part → String
  | .symbols => Atlas.storeName
  | .vectors => Atlas.vectorsName
  | .texts => Atlas.textsName

def fileName (part : Part) : String := part.snapshot ++ Snapshot.suffix

theorem isFileName (part : Part) : FileTree.IsFileName part.fileName := by
  cases part <;> exact ⟨by decide, by decide +kernel⟩

theorem fileName_ne {p q : Part} (h : p ≠ q) : p.fileName ≠ q.fileName := by
  cases p <;> cases q <;> first | exact absurd rfl h | decide

theorem ofString_fileName (part : Part) : Text.Path.ofString part.fileName = ⟨"", [part.fileName]⟩ := by
  cases part <;> decide +kernel

end Part

theorem Disk.snapshotPath_eq {disk : Disk} (hroot : disk.directory.root = "") (part : Part) :
    disk.snapshotPath part.snapshot = FileTree.fileIn disk.directory.segments part.fileName := by
  have hjoin : disk.snapshotPath part.snapshot = disk.directory.join (.ofString part.fileName) := rfl
  have hplace : disk.directory.join ⟨"", [part.fileName]⟩ =
      ⟨disk.directory.root, disk.directory.segments ++ [part.fileName]⟩ := rfl
  rw [hjoin, part.ofString_fileName, hplace, hroot]
  rfl

namespace Atlas

variable {a b x : Atlas} {part : Part} {kept : Part → Bool} {disk : Disk} {faults : List (Operation × Failure)}

def saved (a : Atlas) : Part → Outcome Record
  | .symbols => a.store.toRecord
  | .vectors => pure a.vectors.toRecord
  | .texts => pure a.texts.toRecord

/-- A disk has the snapshots of an atlas that were kept, as they were written, and no others. -/
def Finds (a : Atlas) (disk : Disk) (kept : Part → Bool) : Prop :=
  ∀ part, ∃ data, a.saved part = .ok data ∧ Snapshot.load disk.files (disk.snapshotPath part.snapshot) =
    .ok (if kept part then some (versioned data) else none)

/-! ## Closing -/

theorem of_saveSnapshot {name : String} {data : Outcome Record} (hpersists : a.plan.persists = true)
    (h : (saveSnapshot name data).on a = (.ok (), b)) : ∃ r files, data = .ok r ∧
      a.disk.files.write (a.disk.snapshotPath name) (.record (versioned r)) = .ok files ∧
      b = { a with disk := { a.disk with files } } := by
  obtain ⟨_, _, hget, h⟩ := Act.bind_ok h
  cases hget
  rw [if_pos hpersists] at h
  obtain ⟨files, m, hsave, hset⟩ := Act.bind_ok h
  obtain ⟨hsaved, hsame⟩ := Act.of_ofOutcome hsave
  obtain ⟨r, hr, hwrite⟩ := bind_eq_ok.1 hsaved
  exact ⟨r, files, hr, Snapshot.of_save hwrite, hsame ▸ (Prod.mk.inj hset).2.symm⟩

theorem of_saveTexts (h : saveTexts.on a = (.ok (), b)) :
    (saveSnapshot textsName (pure a.texts.toRecord)).on a = (.ok (), b) := by
  rw [saveTexts, Act.on_bind, Act.on_get] at h
  exact h

theorem of_closeVectors (h : closeVectors.on a = (.ok (), b)) :
    (saveSnapshot vectorsName (pure a.vectors.toRecord)).on a = (.ok (), b) := by
  have h := of_serving_bind h
  have h := of_serving_bind h
  rw [Act.on_bind, Act.on_get] at h
  exact h

theorem of_closeStore (h : closeStore.on a = (.ok (), b)) :
    (saveSnapshot storeName a.store.toRecord).on a = (.ok (), b) := by
  have h := of_serving_bind h
  have h := of_serving_bind h
  rw [Act.on_bind, Act.on_get] at h
  exact h

/-- Closing writes the texts, the vectors and the store, one after the other, and nothing else. -/
theorem of_close (hpersists : a.plan.persists = true) (h : close.on a = (.ok (), b)) :
    ∃ data : Part → Record, (∀ part, a.saved part = .ok (data part)) ∧ ∃ f g files,
      a.disk.files.write (a.disk.snapshotPath textsName) (.record (versioned (data .texts))) = .ok f ∧
      f.write (a.disk.snapshotPath vectorsName) (.record (versioned (data .vectors))) = .ok g ∧
      g.write (a.disk.snapshotPath storeName) (.record (versioned (data .symbols))) = .ok files ∧
      b = { a with disk := { a.disk with files } } := by
  obtain ⟨_, m, htexts, h⟩ := Act.bind_ok h
  obtain ⟨_, n, hvectors, hstore⟩ := Act.bind_ok h
  obtain ⟨t, f, ht, hf, rfl⟩ := of_saveSnapshot hpersists (of_saveTexts htexts)
  obtain ⟨v, g, hv, hg, rfl⟩ := of_saveSnapshot (by exact hpersists) (of_closeVectors hvectors)
  obtain ⟨s, files, hs, hfiles, rfl⟩ := of_saveSnapshot (by exact hpersists) (of_closeStore hstore)
  refine ⟨fun | .symbols => s | .vectors => v | .texts => t, fun part => ?_, f, g, files, hf, hg, hfiles, rfl⟩
  cases part with
  | symbols => exact hs
  | vectors => exact hv
  | texts => exact ht

/-- In a directory of the tree, closing leaves what starting reads. -/
theorem finds_of_close (hpersists : a.plan.persists = true) (hroot : a.disk.directory.root = "")
    (h : close.on a = (.ok (), b)) : Finds a b.disk fun _ => true := by
  obtain ⟨data, hdata, f, g, files, hf, hg, hfiles, rfl⟩ := of_close hpersists h
  have htexts := Disk.snapshotPath_eq hroot .texts
  have hvectors := Disk.snapshotPath_eq hroot .vectors
  have hstore := Disk.snapshotPath_eq hroot .symbols
  simp only [Part.snapshot] at htexts hvectors hstore
  rw [htexts] at hf
  rw [hvectors] at hg
  rw [hstore] at hfiles
  have hpath : ∀ part : Part, Disk.snapshotPath { a.disk with files } part.snapshot =
      FileTree.fileIn a.disk.directory.segments part.fileName := fun part => Disk.snapshotPath_eq hroot part
  intro part
  refine ⟨data part, hdata part, ?_⟩
  rw [if_pos rfl, hpath]
  apply Snapshot.load_of_find
  cases part with
  | symbols => exact FileTree.find_of_write (Part.isFileName _) hfiles
  | vectors =>
    have hfound := FileTree.find_of_write (Part.isFileName _) hg
    exact FileTree.find_of_write_beside (Part.isFileName _) (Part.isFileName _)
      (Part.fileName_ne (by simp)) hfiles hfound
  | texts =>
    have hfound := FileTree.find_of_write (Part.isFileName _) hf
    have hfound := FileTree.find_of_write_beside (Part.isFileName _) (Part.isFileName .texts)
      (Part.fileName_ne (by simp)) hg hfound
    exact FileTree.find_of_write_beside (Part.isFileName _) (Part.isFileName _)
      (Part.fileName_ne (by simp)) hfiles hfound

/-! ## Starting -/

structure Startable (a : Atlas) : Prop where
  store : a.serves .loadStore = true
  vectors : a.serves .loadVectors = true
  prepare : a.serves .prepareVectors = true
  edges : ∀ t, a.serves (.readEdges t) = true

theorem on_loadSnapshot {name : String} {restore : Value → Act Atlas Unit} {data : Record} {found : Bool}
    (hpersists : x.plan.persists = true)
    (hload : Snapshot.load x.disk.files (x.disk.snapshotPath name) = .ok (if found then some data else none)) :
    (loadSnapshot name restore).on x =
      if found then (restore (.obj data) >>= fun _ => pure true).on x else (.ok false, x) := by
  cases found <;>
    simp [loadSnapshot, Act.on_bind, hpersists, hload]

theorem on_loadStore (hfound : Finds a x.disk kept) (hpersists : x.plan.persists = true)
    (hserves : x.serves .loadStore = true) (hempty : x.store = {}) (hdocuments : OfChunks a.store.symbols.documents)
    (hrows : a.store.ledger.Keyed) : ∃ store, loadStore.on x = (.ok (kept .symbols), { x with store }) ∧
      Graph.Store.Reread (if kept .symbols then a.store else {}) store := by
  obtain ⟨data, hdata, hload⟩ := hfound .symbols
  simp only [Part.snapshot] at hload
  simp only [loadStore, Act.on_bind, on_serving, check_eq_ok hserves]
  rw [on_loadSnapshot hpersists hload]
  cases kept .symbols with
  | false => exact ⟨x.store, rfl, hempty ▸ .empty⟩
  | true =>
    obtain ⟨store, hstore, hreread⟩ := Graph.Store.load_saved hdocuments hrows hdata x.store
    refine ⟨store, ?_, hreread⟩
    simp only [reduceIte, inStore, Act.on_bind, Act.on_within, hstore, Act.on_pure]

theorem on_loadVectors (hfound : Finds a x.disk kept) (hpersists : x.plan.persists = true)
    (hserves : x.serves .loadVectors = true) (htable : x.vectors.table = none)
    (hdimensions : a.vectors.dimensions = .null → x.vectors.dimensions = .null)
    (hpoints : PointsOfChunks a.vectors.points) :
    ∃ vectors, loadVectors.on x = (.ok (kept .vectors), { x with vectors }) ∧
      vectors.points = (if kept .vectors then a.vectors else x.vectors).points ∧
      vectors.dimensions = (if kept .vectors then a.vectors else x.vectors).dimensions ∧ vectors.table = none := by
  obtain ⟨data, hdata, hload⟩ := hfound .vectors
  obtain rfl := pure_eq_ok.1 hdata
  simp only [Part.snapshot] at hload
  simp only [loadVectors, Act.on_bind, on_serving, check_eq_ok hserves]
  rw [on_loadSnapshot hpersists hload]
  cases kept .vectors with
  | false => exact ⟨x.vectors, rfl, rfl, rfl, htable⟩
  | true =>
    simp only [reduceIte, inVectors, Act.on_bind, Act.on_within, Search.VectorIndex.load_saved hpoints, Act.on_pure]
    refine ⟨_, rfl, rfl, ?_, rfl⟩
    cases hknown : a.vectors.dimensions with
    | null => exact hdimensions hknown
    | _ => rfl

theorem on_loadTexts (hfound : Finds a x.disk kept) (hpersists : x.plan.persists = true)
    (hcounted : x.texts.Counted)
    (hdocuments : OfChunks a.texts.documents) : ∃ texts, loadTexts.on x = (.ok (kept .texts), { x with texts }) ∧
      texts.documents = (if kept .texts then a.texts else x.texts).documents ∧ texts.Counted ∧
      texts.k1 = x.texts.k1 ∧ texts.b = x.texts.b := by
  obtain ⟨data, hdata, hload⟩ := hfound .texts
  obtain rfl := pure_eq_ok.1 hdata
  simp only [Part.snapshot] at hload
  rw [loadTexts, on_loadSnapshot hpersists hload]
  cases kept .texts with
  | false => exact ⟨x.texts, rfl, rfl, hcounted, rfl, rfl⟩
  | true =>
    obtain ⟨texts, htexts, hread⟩ := Search.TextIndex.load_saved hdocuments x.texts
    refine ⟨texts, ?_, hread⟩
    simp only [reduceIte, inTexts, Act.on_bind, Act.on_within, htexts, Act.on_pure]

/-! ## What a start restores -/

structure Regular (a : Atlas) : Prop where
  documents : OfChunks a.store.symbols.documents
  points : PointsOfChunks a.vectors.points
  texts : OfChunks a.texts.documents
  counted : a.texts.Counted
  rows : a.store.ledger.Keyed
  table : a.vectors.table = none
  dimensions : a.vectors.dimensions = .null → a.plan.dimensions = .null
  parameters : a.texts.k1 = a.plan.k1 ∧ a.texts.b = a.plan.b
  sound : a.store.edges.Sound
  usual : ∀ k ∈ a.store.edges.keys, Graph.Usual k

structure Running (a : Atlas) : Prop extends Regular a where
  mirrored : Mirrored a []
  plain : a.engine.out.Plain

/-- A store whose rows go if something else was lost. -/
def settled (kept : Part → Bool) (store : Graph.Store) : Graph.Store :=
  if kept .symbols && !(kept .vectors && kept .texts) then { store with ledger := .empty } else store

def remnant (a : Atlas) (kept : Part → Bool) : Atlas :=
  { a with
    store := settled kept (if kept .symbols then a.store else {})
    vectors := if kept .vectors then a.vectors else { dimensions := a.plan.dimensions }
    texts := if kept .texts then a.texts else { k1 := a.plan.k1, b := a.plan.b } }

structure Restored (a b : Atlas) : Prop where
  plan : b.plan = a.plan
  store : Graph.Store.Reread a.store b.store
  points : b.vectors.points = a.vectors.points
  dimensions : b.vectors.dimensions = a.vectors.dimensions
  table : b.vectors.table = none
  texts : b.texts.documents = a.texts.documents
  counted : b.texts.Counted
  parameters : b.texts.k1 = b.plan.k1 ∧ b.texts.b = b.plan.b

theorem regular_open (plan : Plan) (disk : Disk) : Regular (Atlas.open plan disk) where
  documents := .empty
  points e he := by cases he
  texts := .empty
  counted k := rfl
  rows e he := by cases he
  table := rfl
  dimensions h := h
  parameters := ⟨rfl, rfl⟩
  sound := .empty
  usual k hk := by cases hk

/-- The engine that starts on the edges of files has each reference with one type. -/
theorem plain_start (hsound : a.store.edges.Sound) (hreads : ∀ t, a.serves (.readEdges t) = true)
    (husual : ∀ k ∈ a.store.edges.keys, Graph.Usual k) : (startEngine.on a).2.engine.out.Plain := by
  have hread : (EdgeType.all.map fun t => (t, a.edgesOfType t)) =
      EdgeType.all.map fun t => (t, .ok (a.store.edges.ofType t)) :=
    List.map_congr_left fun t _ => by rw [edgesOfType_eq (hreads t)]
  have hengine : (startEngine.on a).2.engine.out = (a.store.edges.listed.foldl Graph.Engine.linkKey {}).out := by
    show (Graph.Engine.ofPairs _).out = _
    rw [hread, Graph.Engine.ofPairs, List.flatMap_map]
    rfl
  rw [hengine]
  refine Graph.Engine.plain_foldl_linkKey (fun k hk => ?_) .empty
  have hcontains := contains_of_mem hk
  rw [hsound.contains_listed] at hcontains
  obtain ⟨j, hj, hkj⟩ := List.contains_iff_exists_mem_beq.1 hcontains
  exact (husual j hj).of_beq hkj

theorem usual_foldl_put {ks : List EdgeKey} (hks : ∀ k ∈ ks, Graph.Usual k) {e : Graph.Edges}
    (he : ∀ k ∈ e.keys, Graph.Usual k) : ∀ k ∈ (ks.foldl Graph.Edges.put e).keys, Graph.Usual k := by
  induction ks generalizing e with
  | nil => exact he
  | cons j ks ih =>
    obtain ⟨hj, hks⟩ := List.forall_mem_cons.1 hks
    refine ih hks fun k hk => ?_
    rw [Graph.Edges.keys_put] at hk
    split at hk
    · exact he k hk
    · rcases List.mem_append.1 hk with hk | hk
      · exact he k hk
      · exact List.mem_singleton.1 hk ▸ hj

theorem running_start (h : Regular a) (hreads : ∀ t, a.serves (.readEdges t) = true) :
    Running (startEngine.on a).2 where
  toRegular := ⟨h.documents, h.points, h.texts, h.counted, h.rows, h.table, h.dimensions,
    h.parameters, h.sound, h.usual⟩
  mirrored := mirrored_start h.sound hreads
  plain := plain_start h.sound hreads h.usual

theorem Regular.settled (h : Regular a) (kept : Part → Bool) :
    Regular { a with store := settled kept a.store } := by
  unfold Atlas.settled
  split
  · exact ⟨h.documents, h.points, h.texts, h.counted, fun e he => absurd he List.not_mem_nil, h.table, h.dimensions,
      h.parameters, h.sound, h.usual⟩
  · exact h

theorem Regular.remnant (h : Regular a) (kept : Part → Bool) : Regular (a.remnant kept) := by
  have hnew := regular_open a.plan a.disk
  refine Regular.settled (a := { a with
    store := if kept .symbols then a.store else {}
    vectors := if kept .vectors then a.vectors else { dimensions := a.plan.dimensions }
    texts := if kept .texts then a.texts else { k1 := a.plan.k1, b := a.plan.b } }) ?_ kept
  constructor
  · cases kept .symbols
    exacts [hnew.documents, h.documents]
  · cases kept .vectors
    exacts [hnew.points, h.points]
  · cases kept .texts
    exacts [hnew.texts, h.texts]
  · cases kept .texts
    exacts [hnew.counted, h.counted]
  · cases kept .symbols
    exacts [hnew.rows, h.rows]
  · cases kept .vectors
    exacts [hnew.table, h.table]
  · cases kept .vectors
    exacts [hnew.dimensions, h.dimensions]
  · cases kept .texts
    exacts [hnew.parameters, h.parameters]
  · cases kept .symbols
    exacts [hnew.sound, h.sound]
  · cases kept .symbols
    exacts [hnew.usual, h.usual]

theorem Restored.regular (h : Regular a) (hb : Restored a b) : Regular b := by
  obtain ⟨ks, hks, hedges⟩ := hb.store.edges
  constructor
  · rw [hb.store.documents]
    exact h.documents
  · rw [hb.points]
    exact h.points
  · rw [hb.texts]
    exact h.texts
  · exact hb.counted
  · exact hb.store.keyed
  · exact hb.table
  · rw [hb.dimensions, hb.plan]
    exact h.dimensions
  · exact hb.parameters
  · rw [hedges]
    exact Graph.Edges.Sound.empty.foldl_put ks
  · rw [hedges]
    apply usual_foldl_put
    · intro k hk
      exact h.usual k (hks.mem_iff.1 hk)
    · intro k hk
      cases hk

theorem reread_settled {x z : Graph.Store} (h : Graph.Store.Reread x z) (kept : Part → Bool) :
    Graph.Store.Reread (settled kept x) (settled kept z) := by
  unfold settled
  split
  · exact ⟨h.documents, h.edges, rfl, .refl _, fun e he => absurd he List.not_mem_nil, h.indexed⟩
  · exact h

theorem on_start {store : Graph.Store} {vectors : Search.VectorIndex} {texts : Search.TextIndex Float}
    (hstore : loadStore.on x = (.ok (kept .symbols), { x with store }))
    (hvectors : loadVectors.on { x with store } = (.ok (kept .vectors), { x with store, vectors }))
    (htexts : loadTexts.on { x with store, vectors } = (.ok (kept .texts), { x with store, vectors, texts }))
    (hserves : x.serves .prepareVectors = true) :
    start.on x = startEngine.on { x with store := settled kept store, vectors, texts } := by
  have hcheck : ∀ store, check { x with store, vectors, texts } .prepareVectors = .ok () := fun store =>
    check_eq_ok (a := { x with store, vectors, texts }) hserves
  rw [start, Act.on_bind_ok hstore, Act.on_bind_ok hvectors, Act.on_bind_ok htexts]
  unfold settled
  cases kept .symbols && !(kept .vectors && kept .texts) with
  | true =>
    have hreset : (discard resetLedger : Act Atlas Unit).on { x with store, vectors, texts } =
        (.ok (), { x with store := { store with ledger := .empty }, vectors, texts }) := rfl
    simp only [reduceIte, hreset, Act.on_bind, on_serving, hcheck]
  | false => simp only [Bool.false_eq_true, reduceIte, Act.on_bind, on_serving, hcheck]

/-- Starting on what closing has left gives back what was kept. -/
theorem start_on (h : Regular a) (hpersists : a.plan.persists = true) (hfound : Finds a disk kept)
    (hserves : Startable { a with disk, faults }) :
    ∃ b, start.on (reopen { a with disk, faults }) = (.ok (), b) ∧ Restored (a.remnant kept) b ∧ Running b ∧
      b.disk = disk ∧ b.faults = faults := by
  obtain ⟨store, hstore, hreread⟩ := on_loadStore (x := reopen { a with disk, faults }) hfound hpersists
    hserves.store rfl h.documents h.rows
  obtain ⟨vectors, hvectors, hpoints, hdimensions, htable⟩ :=
    on_loadVectors (x := { reopen { a with disk, faults } with store }) hfound hpersists hserves.vectors rfl
      h.dimensions h.points
  obtain ⟨texts, htexts, hdocuments, hcounted, hparameters⟩ :=
    on_loadTexts (x := { reopen { a with disk, faults } with store, vectors }) hfound hpersists
      (regular_open a.plan disk).counted h.texts
  have hrestored : Restored (a.remnant kept)
      { reopen { a with disk, faults } with store := settled kept store, vectors, texts } :=
    ⟨rfl, reread_settled hreread kept, hpoints, hdimensions, htable, hdocuments, hcounted, hparameters⟩
  refine ⟨_, on_start hstore hvectors htexts hserves.prepare, ?_, ?_, rfl, rfl⟩
  · exact ⟨rfl, hrestored.store, hpoints, hdimensions, htable, hdocuments, hcounted, hparameters⟩
  · exact running_start (hrestored.regular (h.remnant kept)) hserves.edges

end Atlas

end SourceAtlas
