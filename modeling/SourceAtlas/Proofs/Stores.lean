import SourceAtlas.Graph.Store
import SourceAtlas.Proofs.Chunks
import SourceAtlas.Search.TextIndex
import SourceAtlas.Search.VectorIndex

/-!
# Writing to the three stores

What adding and deleting does to the graph store, to the vector index and to
the text index, and when it succeeds. Points are added up to the first whose
vector does not have the right length.
-/

namespace SourceAtlas

open Json (Value Record Key)

/-- The documents under the ids of some chunks can be replaced. -/
def Admits (documents : OrderedMap Key Document) (cs : List Chunk) : Prop :=
  ∀ c ∈ cs, ∀ d, documents.get? c.key = some d → Document.Referable d

def documentEntries (cs : List Chunk) : List (Key × Document) := cs.map fun c => (c.key, c.toDocument)

theorem documentEntries_cons (c : Chunk) (cs : List Chunk) :
    documentEntries (c :: cs) = (c.key, c.toDocument) :: documentEntries cs := rfl

theorem referable_of_mem_documentEntries {cs : List Chunk} {k : Key} {d : Document}
    (h : (k, d) ∈ documentEntries cs) : Document.Referable d := by
  obtain ⟨c, -, he⟩ := List.mem_map.1 h
  rw [← (Prod.mk.inj he).2]
  exact c.referable

theorem Admits.insert {documents : OrderedMap Key Document} {cs : List Chunk} (h : Admits documents cs)
    (c : Chunk) : Admits (documents.insert c.key c.toDocument) cs := by
  intro e he d hd
  rw [OrderedMap.get?_insert] at hd
  split at hd
  · exact Option.some.inj hd ▸ c.referable
  · exact h e he d hd

def Graph.LedgerRow.file (r : Graph.LedgerRow) : FileKey := (r.repo, r.path)

theorem Graph.Ledger.get?_put (l : Graph.Ledger) (r : Graph.LedgerRow) (file : FileKey) :
    (l.put r).get? file = if (r.file == file) = true then some r else l.get? file :=
  OrderedMap.get?_insert ..

/-! ## The graph store -/

namespace Graph.Store

def SameLinks (x y : Store) : Prop := y.edges = x.edges ∧ y.ledger = x.ledger

theorem on_put_chunk (c : Chunk) (x : Store) :
    let r := (Symbols.put c.key c.toDocument).on x.symbols
    ((put (.obj c.toDocument)).on x).1 = r.1 ∧ ((put (.obj c.toDocument)).on x).2.symbols = r.2 ∧
      SameLinks x ((put (.obj c.toDocument)).on x).2 := by
  unfold put inSymbols SameLinks
  rw [c.idOf_toDocument]
  simp only [Act.on_bind, Act.on_liftOutcome, Act.on_within, asRecord, pure, Except.pure]
  generalize (Symbols.put c.key c.toDocument).on x.symbols = r
  obtain ⟨o, y⟩ := r
  cases o with
  | error f => exact ⟨rfl, rfl, rfl, rfl⟩
  | ok u =>
    dsimp only
    split
    · rename_i repo workspace hcontent
      have hrepo : ∃ k, asKey repo = .ok k := by
        have h := (Prod.mk.inj hcontent).1
        rw [Document.content?, Option.filter_eq_some_iff] at h
        exact ⟨.str c.payload.context.repo, by rw [← Option.some.inj h.1]; rfl⟩
      obtain ⟨k, hk⟩ := hrepo
      rw [hk]
      exact ⟨rfl, rfl, rfl, rfl⟩
    · exact ⟨rfl, rfl, rfl, rfl⟩

/-- Chunks are stored one by one, up to the first that would replace a document with a bad
reference. -/
theorem putAll_chunks : ∀ (cs : List Chunk) (x : Store),
    let r := (putAll (cs.map fun c => .obj c.toDocument)).on x
    (r.1 = .ok () ↔ Admits x.symbols.documents cs) ∧
      (r.1 = .ok () → r.2.symbols.documents = x.symbols.documents.insertAll (documentEntries cs)) ∧
      SameLinks x r.2
  | [], x => ⟨⟨fun _ c hc => absurd hc List.not_mem_nil, fun _ => rfl⟩, fun _ => rfl, rfl, rfl⟩
  | c :: cs, x => by
    obtain ⟨hr, hs, hl⟩ := on_put_chunk c x
    have hok := Symbols.put_ok_iff c.key c.toDocument x.symbols
    have hd : _ → _ := @Symbols.documents_put c.key c.toDocument x.symbols
    rw [← hr] at hok hd
    rw [← hs] at hd
    simp only [putAll, List.map_cons, Act.on_forM_cons, Act.on_bind]
    generalize (put (.obj c.toDocument)).on x = r at hok hd hl ⊢
    obtain ⟨o, y⟩ := r
    cases o with
    | error f =>
      refine ⟨⟨fun h => (by cases h), fun h => ?_⟩, fun h => (by cases h), hl⟩
      exact hok.2 ⟨h c List.mem_cons_self, c.referable⟩
    | ok u =>
      have hc := (hok.1 rfl).1
      obtain ⟨ih, ihd, ihl⟩ := putAll_chunks cs y
      have hy := hd rfl
      dsimp only at hy hl ⊢
      refine ⟨ih.trans ⟨fun h => ?_, fun h => ?_⟩, fun h => ?_, ihl.1.trans hl.1, ihl.2.trans hl.2⟩
      · refine List.forall_mem_cons.2 ⟨hc, fun e he d hed => ?_⟩
        by_cases hk : (c.key == e.key) = true
        · rw [← OrderedMap.get?_congr _ hk] at hed
          exact hc d hed
        · exact h e he d (by rw [hy, OrderedMap.get?_insert, if_neg hk]; exact hed)
      · rw [hy]
        exact Admits.insert (fun e he => h e (List.mem_cons_of_mem _ he)) c
      · rw [documentEntries_cons, OrderedMap.insertAll_cons, ← hy]
        exact ihd h

theorem deleteFile_on (repo path : Value) (x : Store) :
    let r := (deleteFile repo path).on x
    let p := Document.ofFile repo path
    ((∃ n, r.1 = .ok n) ↔ ∀ k d, x.symbols.documents.get? k = some d → p d = true → d.Referable) ∧
      ((∃ n, r.1 = .ok n) → r.2.symbols.documents = x.symbols.documents.keep (!p ·)) ∧ SameLinks x r.2 := by
  have hok := Symbols.drop_ok_iff (Document.ofFile repo path) x.symbols
  have hd := Symbols.documents_drop (p := Document.ofFile repo path) (x := x.symbols)
  rw [← hok] at hd
  simp only [deleteFile, inSymbols, Act.on_bind, Act.on_within]
  generalize (Symbols.drop (Document.ofFile repo path)).on x.symbols = r at hok hd ⊢
  obtain ⟨o, y⟩ := r
  cases o with
  | error f => exact ⟨by simpa using hok, fun ⟨n, hn⟩ => (by cases hn), rfl, rfl⟩
  | ok refs => exact ⟨by simpa using hok, fun _ => hd ⟨refs, rfl⟩, rfl, rfl⟩

theorem deleteRepo_ok {repo : Key} {x y : Store} {n : Nat} (h : (deleteRepo repo.toValue).on x = (.ok n, y)) :
    y.symbols.documents = x.symbols.documents.keep (!Document.ofRepo repo.toValue ·) ∧
      y.ledger = x.ledger.filter fun key _ => !key.1.toValue.same repo.toValue := by
  have hok := Symbols.drop_ok_iff (Document.ofRepo repo.toValue) x.symbols
  have hd := Symbols.documents_drop (p := Document.ofRepo repo.toValue) (x := x.symbols)
  rw [← hok] at hd
  simp only [deleteRepo, inSymbols, Act.on_bind, Act.on_within, Act.on_modify, Act.on_liftOutcome,
    asKey_toValue] at h
  generalize (Symbols.drop (Document.ofRepo repo.toValue)).on x.symbols = r at hd h
  obtain ⟨o, z⟩ := r
  cases o with
  | error f => cases h
  | ok refs =>
    obtain ⟨-, rfl⟩ := Prod.mk.inj h
    exact ⟨hd ⟨refs, rfl⟩, rfl⟩

end Graph.Store

/-! ## The vector index -/

namespace Search.VectorIndex

def lengthAfter (dimensions : Value) : List (Key × VectorPoint) → Value
  | [] => dimensions
  | e :: _ => match dimensions with
    | .null => .int e.2.vector.length
    | n => n

/-- The entries before the first whose vector is of another length. -/
def accepted (dimensions : Value) (es : List (Key × VectorPoint)) : List (Key × VectorPoint) :=
  es.takeWhile fun e => (lengthAfter dimensions es).same (.int e.2.vector.length)

theorem lengthAfter_lengthAfter (dimensions : Value) (e : Key × VectorPoint)
    (es fs : List (Key × VectorPoint)) :
    lengthAfter (lengthAfter dimensions (e :: es)) fs = lengthAfter dimensions (e :: es) := by
  cases fs with
  | nil => rfl
  | cons f fs => cases dimensions <;> rfl

def expected (dimensions : Value) (p : VectorPoint) : Value :=
  match dimensions with
  | .null => .int p.vector.length
  | n => n

theorem on_put_point (p : VectorPoint) (ps : List VectorPoint) (x : VectorIndex) :
    (put (p :: ps)).on x = if (expected x.dimensions p).same (.int p.vector.length) then
        match asKey p.id with
        | .error f => (.error f, { x with dimensions := expected x.dimensions p })
        | .ok id => (put ps).on { x with dimensions := expected x.dimensions p, points := x.points.insert id p }
      else
        (.error (wrongLength "upsert" (expected x.dimensions p) p.vector.length),
          { x with dimensions := expected x.dimensions p }) := by
  by_cases hfit : (expected x.dimensions p).same (.int p.vector.length) = true
  all_goals
    obtain ⟨dimensions, points, table⟩ := x
    -- which dimensions are expected shows once the shape of those that there are is known
    cases dimensions <;> simp only [expected] at hfit <;> cases hid : asKey p.id <;>
      simp [put, Act.on_bind, expected, hid, hfit]

theorem on_put_cons {e : Key × VectorPoint} (ps : List VectorPoint) (x : VectorIndex)
    (hid : asKey e.2.id = .ok e.1) :
    (put (e.2 :: ps)).on x = if (lengthAfter x.dimensions [e]).same (.int e.2.vector.length) then
        (put ps).on { x with dimensions := lengthAfter x.dimensions [e], points := x.points.insert e.1 e.2 }
      else
        (.error (wrongLength "upsert" (lengthAfter x.dimensions [e]) e.2.vector.length),
          { x with dimensions := lengthAfter x.dimensions [e] }) := by
  have hlength : lengthAfter x.dimensions [e] = expected x.dimensions e.2 := by
    cases x.dimensions <;> rfl
  rw [on_put_point, hid, hlength]

theorem put_points : ∀ (es : List (Key × VectorPoint)) (x : VectorIndex), (∀ e ∈ es, asKey e.2.id = .ok e.1) →
    let r := (put (es.map Prod.snd)).on x
    (r.1 = .ok () ↔ accepted x.dimensions es = es) ∧
      r.2.points = x.points.insertAll (accepted x.dimensions es) ∧
      r.2.dimensions = lengthAfter x.dimensions es
  | [], x, _ => ⟨⟨fun _ => rfl, fun _ => rfl⟩, rfl, rfl⟩
  | e :: es, x, hid => by
    obtain ⟨hid, hids⟩ := List.forall_mem_cons.1 hid
    have hlen : lengthAfter x.dimensions [e] = lengthAfter x.dimensions (e :: es) := rfl
    have hstep : accepted x.dimensions (e :: es) =
        if (lengthAfter x.dimensions (e :: es)).same (.int e.2.vector.length) then
          e :: accepted (lengthAfter x.dimensions (e :: es)) es else [] := by
      rw [accepted, List.takeWhile_cons, accepted, lengthAfter_lengthAfter]
    rw [List.map_cons, on_put_cons _ x hid, hstep, hlen]
    cases hfit : (lengthAfter x.dimensions (e :: es)).same (.int e.2.vector.length) with
    | false => exact ⟨⟨fun h => (by cases h), fun h => (by cases h)⟩, rfl, rfl⟩
    | true =>
      obtain ⟨ih, ihp, ihd⟩ := put_points es
        { x with dimensions := lengthAfter x.dimensions (e :: es), points := x.points.insert e.1 e.2 } hids
      refine ⟨ih.trans ?_, ihp, ihd.trans (lengthAfter_lengthAfter ..)⟩
      simp

theorem delete_on (p : Document → Bool) (x : VectorIndex) :
    ∃ n y, (delete p).on x = (.ok n, y) ∧ y.points = x.points.keep (!p ·.payload) ∧
      y.dimensions = x.dimensions :=
  ⟨_, _, rfl, rfl, rfl⟩

end Search.VectorIndex

/-! ## The text index -/

namespace Search.TextIndex

theorem addAll_chunks : ∀ (cs : List Chunk) (x : TextIndex Float),
    let r := (addAll (cs.map fun c => .obj c.toDocument)).on x
    r.1 = .ok () ∧ r.2.documents = x.documents.insertAll (documentEntries cs)
  | [], _ => ⟨rfl, rfl⟩
  | c :: cs, x => addAll_chunks cs
      { x with documents := x.documents.insert c.key c.toDocument
               terms := x.terms.insert c.key (termsOf c.toDocument) }

end Search.TextIndex

end SourceAtlas
