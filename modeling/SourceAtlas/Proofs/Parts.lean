import Mathlib.Data.Set.Basic
import SourceAtlas.Proofs.Batches

/-!
# The three parts of an atlas

The graph store, the vector index and the text index seen in one way: by id,
documents that say which file they belong to.
-/

namespace SourceAtlas

open Json (Value Key)
open Search (Components)

inductive Part where
  | symbols | vectors | texts

def Part.document : Part → Chunk → Document
  | .vectors, c => c.payload.toRecord
  | .symbols, c | .texts, c => c.toDocument

def Part.entries (part : Part) (cs : List Chunk) : List (Key × Document) :=
  cs.map fun c => (c.key, part.document c)

theorem Part.inFile_document (part : Part) (c : Chunk) (file : FileKey) :
    Document.inFile file (part.document c) = true ↔ file = c.file := by
  cases part with
  | vectors => exact c.inFile_payload file
  | _ => exact c.inFile_toDocument file

theorem Part.repo_document (part : Part) (c : Chunk) (repo : Key) :
    Document.ofRepo repo.toValue (part.document c) = (c.file.1 == repo) := by
  have h : (Value.str c.payload.context.repo).same repo.toValue = (c.file.1 == repo) :=
    Key.same_toValue c.file.1 repo
  cases part <;> exact h

namespace Atlas

variable {a b : Atlas}

def held (a : Atlas) : Part → OrderedMap Key Document
  | .symbols => a.store.symbols.documents
  | .vectors => a.vectors.points.mapValues (·.payload)
  | .texts => a.texts.documents

def idsOf (a : Atlas) (part : Part) (file : FileKey) : Set Key :=
  {k | ∃ d, (a.held part).get? k = some d ∧ Document.inFile file d = true}

theorem Alike.held (h : Alike a b) (part : Part) : (a.held part).Agrees (b.held part) := by
  cases part with
  | symbols => exact h.symbols
  | vectors => exact h.points.mapValues _
  | texts => exact h.texts

theorem map_pointEntries : ∀ {cs : List Chunk} {vs : List Components}, cs.length = vs.length →
    (pointEntries cs vs).map (fun e => (e.1, e.2.payload)) = Part.entries .vectors cs
  | [], [], _ => rfl
  | c :: _, _ :: _, h => congrArg ((c.key, c.payload.toRecord) :: ·) (map_pointEntries (Nat.succ.inj h))

theorem exists_pointEntry {cs : List Chunk} {vs : List Components} (hlen : cs.length = vs.length) {c : Chunk}
    (hc : c ∈ cs) : ∃ e ∈ pointEntries cs vs, e.1 = c.key := by
  have hmem : (c.key, c.payload.toRecord) ∈ Part.entries .vectors cs := List.mem_map_of_mem hc
  rw [← map_pointEntries hlen] at hmem
  obtain ⟨e, he, hkey⟩ := List.mem_map.1 hmem
  exact ⟨e, he, (Prod.mk.inj hkey).1⟩

theorem Holds.held {y : Index.Yield} {vs : List Components} (h : Holds a y vs b)
    (hlen : y.chunks.length = vs.length)
    (part : Part) : (b.held part).Agrees
      (((a.held part).keep (!staleDocument a.store.ledger y.rows ·)).insertAll (part.entries y.chunks)) := by
  cases part with
  | symbols =>
    rw [Atlas.held, h.symbols]
    exact .refl _
  | texts =>
    rw [Atlas.held, h.texts]
    exact .refl _
  | vectors =>
    rw [Atlas.held, h.points, Atlas.held, ← OrderedMap.mapValues_keep, ← map_pointEntries hlen]
    exact OrderedMap.mapValues_insertAll _ _ _

/-- Under the id of a chunk there is a chunk of the same id. -/
theorem Holds.get?_key {y : Index.Yield} {vs : List Components} (h : Holds a y vs b)
    (hlen : y.chunks.length = vs.length) (part : Part) {c : Chunk} (hc : c ∈ y.chunks) :
    ∃ e ∈ y.chunks, (b.held part).get? c.key = some (part.document e) := by
  have hmem : (c.key, part.document c) ∈ part.entries y.chunks := List.mem_map_of_mem hc
  obtain ⟨f, hf, -, hget⟩ := OrderedMap.get?_insertAll_of_mem
    ((a.held part).keep (!staleDocument a.store.ledger y.rows ·)) hmem
  obtain ⟨e, he, rfl⟩ := List.mem_map.1 hf
  exact ⟨e, he, (h.held hlen part c.key).trans hget⟩

theorem Holds.get?_row {y : Index.Yield} {vs : List Components} {row : Graph.LedgerRow} (h : Holds a y vs b)
    (hrows : y.rows = [row]) : b.store.ledger.get? row.file = some row := by
  rw [h.ledger, hrows]
  show (a.store.ledger.put row).get? row.file = _
  rw [Graph.Ledger.get?_put, if_pos BEq.rfl]

theorem length_of_embedChunks {cs : List Chunk} {vs : List Components} (h : a.embedChunks cs = .ok vs) :
    cs.length = vs.length :=
  ((embedChunks_ok_iff cs vs a).1 h).2.length_eq

/-! ## Rewriting the entries of a file -/

/-- Some entries of a file are dropped from a part, and some chunks are added. -/
def RewrittenIn (part : Part) (a b : Atlas) (file : FileKey) (cs : List Chunk) : Prop :=
  ∃ (dropped : Document → Bool) (es : List (Key × Document)),
    (∀ d, dropped d = true → Document.inFile file d = true) ∧ es ⊆ part.entries cs ∧
    (b.held part).Agrees (((a.held part).keep (!dropped ·)).insertAll es)

def Rewritten (a b : Atlas) (file : FileKey) (cs : List Chunk) : Prop := ∀ part, RewrittenIn part a b file cs

variable {file : FileKey} {cs : List Chunk}

theorem RewrittenIn.of_keep {part : Part} {dropped : Document → Bool}
    (hdropped : ∀ d, dropped d = true → Document.inFile file d = true)
    (h : b.held part = (a.held part).keep (!dropped ·)) : RewrittenIn part a b file cs :=
  ⟨dropped, [], hdropped, List.nil_subset _, by
    rw [h]
    exact .refl _⟩

theorem RewrittenIn.of_eq {part : Part} (h : b.held part = a.held part) : RewrittenIn part a b file cs := by
  have hnone : ∀ d : Document, (fun _ => false : Document → Bool) d = true → Document.inFile file d = true :=
    fun d hd => by cases hd
  exact .of_keep hnone (h.trans (OrderedMap.keep_true _).symm)

theorem Rewritten.cases (h : Rewritten a b file cs) {part : Part} {k : Key} {d : Document}
    (hd : (b.held part).get? k = some d) :
    (∃ c ∈ cs, k = c.key ∧ d = part.document c) ∨ (a.held part).get? k = some d := by
  obtain ⟨dropped, es, -, hes, hagrees⟩ := h part
  rw [hagrees k] at hd
  rcases OrderedMap.mem_of_get?_insertAll hd with ⟨j, hj, hjk⟩ | hd
  · obtain ⟨c, hc, he⟩ := List.mem_map.1 (hes hj)
    obtain ⟨rfl, rfl⟩ := Prod.mk.inj he
    exact .inl ⟨c, hc, (c.key_beq k).1 hjk, rfl⟩
  · exact .inr (OrderedMap.of_get?_keep hd).1

theorem Rewritten.elsewhere (h : Rewritten a b file cs) {part : Part} {k : Key} (hkeys : ∀ c ∈ cs, k ≠ c.key)
    (hfile : ∀ d, (a.held part).get? k = some d → Document.inFile file d = false) :
    (b.held part).get? k = (a.held part).get? k := by
  obtain ⟨dropped, es, hdropped, hes, hagrees⟩ := h part
  have hother : ∀ e ∈ es, ¬ (e.1 == k) = true := fun e he heq => by
    obtain ⟨c, hc, rfl⟩ := List.mem_map.1 (hes he)
    exact hkeys c hc ((c.key_beq k).1 heq)
  rw [hagrees k, OrderedMap.get?_insertAll_of_not_mem _ hother, OrderedMap.get?_keep]
  cases hd : (a.held part).get? k with
  | none => rfl
  | some d =>
    have hkept : dropped d = false := Bool.eq_false_iff.2 fun htrue => by
      have hin := hdropped d htrue
      rw [hfile d hd] at hin
      cases hin
    simp [Option.filter_some, hkept]

theorem Holds.rewritten {y : Index.Yield} {vs : List Components} {row : Graph.LedgerRow} (h : Holds a y vs b)
    (hlen : y.chunks.length = vs.length) (hrows : y.rows = [row]) : Rewritten a b row.file y.chunks := by
  intro part
  refine ⟨staleDocument a.store.ledger y.rows, part.entries y.chunks, fun d hd => ?_, List.Subset.refl _,
    h.held hlen part⟩
  rw [staleDocument, hrows, List.any_cons, List.any_nil, Bool.or_false, Bool.and_eq_true] at hd
  exact hd.2

end Atlas

end SourceAtlas
