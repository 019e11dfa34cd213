import SourceAtlas.Proofs.Parts

/-!
# Storing that fails halfway

What a failure while chunks and their row are stored leaves behind. What was
stored of the file goes before anything is written, and its row is written
last, so a row can outlive the entries it stands for.
-/

namespace SourceAtlas.Atlas

open Json (Value Key)
open Search (Components)
open Search.VectorIndex (accepted lengthAfter)

variable {a m : Atlas} {row : Graph.LedgerRow} {cs : List Chunk} {vs : List Components} {f : Failure}

/-! ## Where storing can stop -/

def replaced (a : Atlas) (row : Graph.LedgerRow) (d : Document) : Bool :=
  stale a.store.ledger row && Document.inFile row.file d

/-- What is left when storing chunks with their row fails. -/
inductive Interrupted (a : Atlas) (row : Graph.LedgerRow) (cs : List Chunk) (vs : List Components) : Atlas → Prop
  | early (hearly : a.serves .getRow = false ∨ stale a.store.ledger row = true ∧ a.serves .deleteFile = false) :
      Interrupted a row cs vs a
  | halfway {m : Atlas} (hrow : a.serves .getRow = true) (hstale : stale a.store.ledger row = true)
      (hfile : a.serves .deleteFile = true) (hdropped : PartlyWithout (replaced a row) a m) :
      Interrupted a row cs vs m
  | late {m : Atlas} (hrow : a.serves .getRow = true)
      (hdropped : stale a.store.ledger row = true → Droppable a row.file) (hframe : Frame a m)
      (symbols : m.store.symbols.documents = if a.serves .putSymbols then
        (a.store.symbols.documents.keep (!replaced a row ·)).insertAll (documentEntries cs)
        else a.store.symbols.documents.keep (!replaced a row ·))
      (points : m.vectors.points = if a.serves .putVectors then
        (a.vectors.points.keep (!replaced a row ·.payload)).insertAll
          (accepted a.vectors.dimensions (pointEntries cs vs))
        else a.vectors.points.keep (!replaced a row ·.payload))
      (texts : m.texts.documents = if a.serves .addTexts then
        (a.texts.documents.keep (!replaced a row ·)).insertAll (documentEntries cs)
        else a.texts.documents.keep (!replaced a row ·))
      (dimensions : m.vectors.dimensions = if a.serves .putVectors then
        lengthAfter a.vectors.dimensions (pointEntries cs vs) else a.vectors.dimensions) : Interrupted a row cs vs m

theorem removeStale_error (hclean : stale a.store.ledger row = true → Clean a row.file)
    (h : (removeStale row).on a = (.error f, m)) :
    Interrupted a row cs vs m := by
  rw [on_removeStale] at h
  cases hrow : a.serves .getRow with
  | false =>
    obtain ⟨g, hg⟩ := check_eq_error hrow
    rw [hg] at h
    obtain rfl : a = m := (Prod.mk.inj h).2
    exact .early (.inl hrow)
  | true =>
    rw [check_eq_ok hrow] at h
    dsimp only at h
    by_cases hstale : stale a.store.ledger row = true
    · rw [if_pos hstale] at h
      have hr := dropFile_on row.file (hclean hstale)
      simp only [h] at hr
      cases hfile : a.serves .deleteFile with
      | false =>
        simp only [hfile, Bool.false_eq_true, reduceIte] at hr
        obtain rfl : m = a := hr.2
        exact .early (.inr ⟨hstale, hfile⟩)
      | true =>
        simp only [hfile, reduceIte] at hr
        cases hrest : a.serves .deleteFileVectors && a.serves .deleteTexts with
        | false =>
          simp only [hrest, Bool.false_eq_true, reduceIte] at hr
          have hreplaced : replaced a row = Document.inFile row.file := by
            funext d
            rw [replaced, hstale, Bool.true_and]
          exact .halfway hrow hstale hfile (hreplaced ▸ hr.2)
        | true =>
          simp only [hrest, reduceIte] at hr
          cases hr.1
    · rw [if_neg hstale] at h
      cases h

/-- Where storing stops, and with what. -/
theorem storeChunks_error (hclean : stale a.store.ledger row = true → Clean a row.file)
    (hadmits : Admits a.store.symbols.documents cs)
    (h : (storeChunks cs vs [row]).on a = (.error f, m)) : Interrupted a row cs vs m := by
  obtain ⟨hok, hw⟩ := removeStale_on row a
  simp only [on_storeChunks, Act.on_bind, Act.on_forM_cons, Act.on_forM_nil] at h
  generalize hremoved : (removeStale row).on a = r at hok hw h
  obtain ⟨o, b⟩ := r
  cases o with
  | error g =>
    obtain rfl : b = m := (Prod.mk.inj h).2
    exact removeStale_error hclean hremoved
  | ok u =>
    obtain ⟨hrow, hdrop⟩ := hok.1 rfl
    have hw : Without (replaced a row) a b := hw rfl
    obtain ⟨hframe, -, hsymbols, hpoints, hdimensions, htexts⟩ := writeChunks_on cs vs b
    have hsymbols := hsymbols ((admits_of_without hw fun k d hd hp => by
      rw [replaced, Bool.and_eq_true] at hp
      exact (hdrop hp.1).clean k d hd hp.2).2 hadmits)
    rw [hw.dimensions] at hpoints hdimensions
    simp only [hw.serves, hw.symbols, hw.points, hw.texts] at hsymbols hpoints hdimensions htexts
    dsimp only at h
    generalize (writeChunks cs vs).on b = x at hframe hsymbols hpoints hdimensions htexts h
    obtain ⟨o, c⟩ := x
    -- writing the row changes nothing when it fails
    obtain rfl : c = m := by
      cases o with
      | error g => exact (Prod.mk.inj h).2
      | ok u =>
        dsimp only at h
        cases hput : c.serves .putRow with
        | true =>
          rw [on_putRow hput] at h
          cases h
        | false =>
          obtain ⟨g, hg⟩ := on_putRow_error hput row
          rw [hg] at h
          exact (Prod.mk.inj h).2
    exact .late hrow hdrop (hw.toFrame.trans hframe) hsymbols hpoints htexts hdimensions

/-! ## What that means for the parts -/

def written (a : Atlas) (cs : List Chunk) (vs : List Components) : Part → List (Key × Document)
  | .symbols => if a.serves .putSymbols then Part.entries .symbols cs else []
  | .vectors => if a.serves .putVectors then
      (accepted a.vectors.dimensions (pointEntries cs vs)).map (fun e => (e.1, e.2.payload)) else []
  | .texts => if a.serves .addTexts then Part.entries .texts cs else []

theorem written_subset (hlen : cs.length = vs.length) (part : Part) : written a cs vs part ⊆ part.entries cs := by
  cases part with
  | symbols =>
    rw [written]
    split
    · exact List.Subset.refl _
    · exact List.nil_subset _
  | vectors =>
    rw [written, ← map_pointEntries hlen]
    split
    · exact List.map_subset _ (List.takeWhile_sublist _).subset
    · exact List.nil_subset _
  | texts =>
    rw [written]
    split
    · exact List.Subset.refl _
    · exact List.nil_subset _

/-- An id is written to all parts if they take chunks and its vector is accepted. -/
theorem written_iff (hlen : cs.length = vs.length) (k : Key) :
    (∀ part, ∃ e ∈ written a cs vs part, e.1 = k) ↔
      Writable a ∧ ∃ e ∈ accepted a.vectors.dimensions (pointEntries cs vs), e.1 = k := by
  constructor
  · intro h
    obtain ⟨e, he, -⟩ := h .symbols
    obtain ⟨p, hp, rfl⟩ := h .vectors
    obtain ⟨t, ht, -⟩ := h .texts
    simp only [written, List.mem_ite_nil_right] at he hp ht
    obtain ⟨q, hq, rfl⟩ := List.mem_map.1 hp.2
    exact ⟨⟨hp.1, he.1, ht.1⟩, q, hq, rfl⟩
  · rintro ⟨hw, p, hp, rfl⟩ part
    have hmem : (p.1, p.2.payload) ∈ written a cs vs .vectors := by
      rw [written, if_pos hw.points]
      exact List.mem_map_of_mem hp
    obtain ⟨c, hc, hkey⟩ := List.mem_map.1 (written_subset hlen .vectors hmem)
    have hentry : (c.key, part.document c) ∈ part.entries cs := List.mem_map_of_mem hc
    have hkey := (Prod.mk.inj hkey).1
    cases part with
    | symbols => exact ⟨_, by rw [written, if_pos hw.documents]; exact hentry, hkey⟩
    | vectors => exact ⟨_, hmem, rfl⟩
    | texts => exact ⟨_, by rw [written, if_pos hw.texts]; exact hentry, hkey⟩

theorem held_of_late
    (symbols : m.store.symbols.documents = if a.serves .putSymbols then
      (a.store.symbols.documents.keep (!replaced a row ·)).insertAll (documentEntries cs)
      else a.store.symbols.documents.keep (!replaced a row ·))
    (points : m.vectors.points = if a.serves .putVectors then
      (a.vectors.points.keep (!replaced a row ·.payload)).insertAll
        (accepted a.vectors.dimensions (pointEntries cs vs))
      else a.vectors.points.keep (!replaced a row ·.payload))
    (texts : m.texts.documents = if a.serves .addTexts then
      (a.texts.documents.keep (!replaced a row ·)).insertAll (documentEntries cs)
      else a.texts.documents.keep (!replaced a row ·)) (part : Part) :
    (m.held part).Agrees (((a.held part).keep (!replaced a row ·)).insertAll (written a cs vs part)) := by
  cases part with
  | symbols =>
    rw [held, symbols, held, written]
    split <;> exact .refl _
  | texts =>
    rw [held, texts, held, written]
    split <;> exact .refl _
  | vectors =>
    rw [held, points, held, written, ← OrderedMap.mapValues_keep]
    split
    · exact OrderedMap.mapValues_insertAll _ _ _
    · exact .refl _

theorem Interrupted.frame (h : Interrupted a row cs vs m) : Frame a m := by
  cases h with
  | early => exact .refl a
  | halfway _ _ _ hdropped => exact hdropped.toFrame
  | late _ _ hframe => exact hframe

theorem Interrupted.rewritten (h : Interrupted a row cs vs m) (hlen : cs.length = vs.length) :
    Rewritten a m row.file cs := by
  have hreplaced : ∀ d, replaced a row d = true → Document.inFile row.file d = true := fun d hd => by
    rw [replaced, Bool.and_eq_true] at hd
    exact hd.2
  cases h with
  | early => exact fun part => .of_eq rfl
  | halfway _ _ _ hdropped =>
    intro part
    cases part with
    | symbols => exact .of_keep hreplaced hdropped.symbols
    | vectors =>
      have hpoints := hdropped.points
      split at hpoints
      · refine .of_keep hreplaced ?_
        rw [held, hpoints, held, ← OrderedMap.mapValues_keep]
      · refine .of_eq ?_
        rw [held, hpoints, held]
    | texts =>
      refine .of_eq ?_
      rw [held, hdropped.texts, held]
  | late _ _ _ symbols points texts _ => exact fun part =>
      ⟨replaced a row, written a cs vs part, hreplaced, written_subset hlen part,
        held_of_late symbols points texts part⟩

/-! ## Calls that may fail -/

/-- What a text yields when it is indexed, with its vectors, unless nothing is stored of it. -/
def yield? (parse : Parser) (o : Origin) (text : String) (a : Atlas) : Option (Index.Yield × List Components) :=
  match a.examine parse o text with
  | .ok (.indexed _ y) => (a.embedChunks y.chunks).toOption.map (y, ·)
  | _ => none

theorem yield?_eq_some {parse : Parser} {o : Origin} {text : String} {y : Index.Yield} :
    yield? parse o text a = some (y, vs) ↔
      (∃ language, a.examine parse o text = .ok (.indexed language y)) ∧ a.embedChunks y.chunks = .ok vs := by
  unfold yield?
  split
  · rename_i language z hx
    rw [hx]
    cases hvs : a.embedChunks z.chunks with
    | error f =>
      simp only [Except.toOption, Option.map_none, reduceCtorEq, Except.ok.injEq, Index.FileResult.indexed.injEq,
        false_iff,
        not_and, forall_exists_index, and_imp]
      rintro _ _ rfl h
      rw [hvs] at h
      cases h
    | ok us =>
      simp only [Except.toOption, Option.map_some, Option.some.injEq, Prod.mk.injEq, Except.ok.injEq,
        Index.FileResult.indexed.injEq]
      constructor
      · rintro ⟨rfl, rfl⟩
        exact ⟨⟨language, rfl, rfl⟩, hvs⟩
      · rintro ⟨⟨_, _, rfl⟩, h⟩
        exact ⟨rfl, Except.ok.inj (hvs.symm.trans h)⟩
  · rename_i hno
    simp only [reduceCtorEq, false_iff, not_and, forall_exists_index]
    exact fun language hx => absurd hx (hno language y)

theorem indexText_of_no_yield {parse : Parser} {o : Origin} {text : String} (h : yield? parse o text a = none) :
    ((indexText parse o text true).on a).2 = a := by
  cases hx : a.examine parse o text with
  | error f => rw [on_indexText_error hx]
  | ok x =>
    by_cases hskip : ∀ language y, x ≠ .indexed language y
    · rw [on_indexText_ok hx hskip]
    · simp only [ne_eq, not_forall, not_not] at hskip
      obtain ⟨language, y, rfl⟩ := hskip
      cases hvs : a.embedChunks y.chunks with
      | ok vs =>
        have hsome := yield?_eq_some.2 ⟨⟨language, hx⟩, hvs⟩
        rw [h] at hsome
        cases hsome
      | error f => rw [on_indexText_indexed hx, on_persist_error hvs]

/-- After chunks and rows only edges are stored. -/
theorem indexText_of_yield {parse : Parser} {o : Origin} {text : String} {y : Index.Yield}
    (h : yield? parse o text a = some (y, vs)) : ∃ engine edges,
      ((indexText parse o text true).on a).2 =
        { ((storeChunks y.chunks vs y.rows).on a).2 with
          engine, store := { ((storeChunks y.chunks vs y.rows).on a).2.store with edges } } := by
  obtain ⟨⟨language, hx⟩, hvs⟩ := yield?_eq_some.1 h
  rw [on_indexText_indexed hx, on_persist hvs, Act.on_bind]
  generalize (storeChunks y.chunks vs y.rows).on a = r
  obtain ⟨o, m⟩ := r
  cases o with
  | error f => exact ⟨m.engine, m.store.edges, rfl⟩
  | ok u =>
    obtain ⟨-, -, ⟨engine, edges, hedges⟩, -⟩ := storeEdges_on y.edges m
    refine ⟨engine, edges, ?_⟩
    rw [← hedges]
    dsimp only
    generalize (storeEdges y.edges).on m = r
    obtain ⟨o, b⟩ := r
    cases o <;> rfl

end SourceAtlas.Atlas
