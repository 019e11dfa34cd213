import SourceAtlas.Proofs.Interruptions

/-!
# Calls that may fail

What is left of a file after any calls for one workspace, of which any may fail
anywhere. Content that is reported as unchanged is in all three parts as long as
the newest call that reached the entries of the file also recorded its row.
-/

namespace SourceAtlas.Atlas

open Json (Value Key)
open Search (Components)
open Search.VectorIndex (accepted lengthAfter)

/-! ## Calls -/

structure Call where
  before : Atlas
  origin : Origin
  text : String

/-- What calls for one workspace lead to, the newest first. Between calls files, time, faults and
the engine may change. -/
inductive Trace (parse : Parser) (workspace : Value) : List Call → Atlas → Prop
  | start (plan : Plan) (disk : Disk) : Trace parse workspace [] (Atlas.open plan disk)
  | world {calls : List Call} {a : Atlas} (h : Trace parse workspace calls a) (disk : Disk) (engine : Graph.Engine)
      (faults : List (Operation × Failure)) : Trace parse workspace calls { a with disk, engine, faults }
  | call {calls : List Call} {a : Atlas} {o : Origin} (h : Trace parse workspace calls a)
      (hworkspace : o.workspace = workspace) (text : String) :
      Trace parse workspace (⟨a, o, text⟩ :: calls) ((indexText parse o text true).on a).2

def Call.yield? (parse : Parser) (c : Call) : Option (Index.Yield × List Components) :=
  Atlas.yield? parse c.origin c.text c.before

/-- The chunks that calls have tried to store. -/
def chunksOf (parse : Parser) (calls : List Call) : List Chunk :=
  calls.flatMap fun c => match c.yield? parse with
    | some (y, _) => y.chunks
    | none => []

/-- A call that gets to the entries of a file. -/
structure Reach where
  before : Atlas
  row : Graph.LedgerRow
  chunks : List Chunk
  vectors : List Components

/-- Whether the entries of the file are dropped, or there is nothing to drop. -/
def Reach.enters (r : Reach) : Bool :=
  r.before.serves .getRow && (!stale r.before.store.ledger r.row || r.before.serves .deleteFile)

/-- The ids that are in all three parts when the call ends. -/
def Reach.leaves (r : Reach) : List Key :=
  if (!stale r.before.store.ledger r.row || (r.before.serves .deleteFileVectors && r.before.serves .deleteTexts)) &&
      r.before.serves .putSymbols && r.before.serves .putVectors && r.before.serves .addTexts then
    (accepted r.before.vectors.dimensions (pointEntries r.chunks r.vectors)).map Prod.fst
  else []

def Reach.records (r : Reach) : Bool := ((storeChunks r.chunks r.vectors [r.row]).on r.before).1.toBool

def Call.reach? (parse : Parser) (file : FileKey) (c : Call) : Option Reach :=
  match c.yield? parse with
  | some (⟨chunks, _, [row]⟩, vectors) =>
    let r : Reach := ⟨c.before, row, chunks, vectors⟩
    if row.file == file && r.enters then some r else none
  | _ => none

def newestReach (parse : Parser) (file : FileKey) (calls : List Call) : Option Reach :=
  calls.findSome? (·.reach? parse file)

def has (a : Atlas) (part : Part) (k : Key) : Prop := ((a.held part).get? k).isSome

variable {parse : Parser} {workspace : Value} {calls : List Call} {a b m : Atlas} {o : Origin} {text : String}
  {row : Graph.LedgerRow} {cs : List Chunk} {y : Index.Yield} {vs : List Components} {file : FileKey}

theorem Reach.enters_iff (r : Reach) : r.enters = true ↔ r.before.serves .getRow = true ∧
    (stale r.before.store.ledger r.row = true → r.before.serves .deleteFile = true) := by
  rw [enters]
  cases stale r.before.store.ledger r.row <;> simp

theorem Reach.mem_leaves (r : Reach) (k : Key) : k ∈ r.leaves ↔
    (stale r.before.store.ledger r.row = true →
      r.before.serves .deleteFileVectors = true ∧ r.before.serves .deleteTexts = true) ∧ Writable r.before ∧
      ∃ e ∈ accepted r.before.vectors.dimensions (pointEntries r.chunks r.vectors), e.1 = k := by
  rw [leaves, writable_iff_serves, List.mem_ite_nil_right, List.mem_map]
  simp only [Bool.and_eq_true, Bool.or_eq_true, Bool.not_eq_true', imp_iff_not_or, Bool.not_eq_true, and_assoc]

theorem reach?_of_no_yield {c : Call} (h : c.yield? parse = none) : c.reach? parse file = none := by
  unfold Call.reach?
  rw [h]

theorem reach?_of_yield {c : Call} (h : c.yield? parse = some (y, vs)) (hrows : y.rows = [row]) :
    c.reach? parse file = if (row.file == file && Reach.enters ⟨c.before, row, y.chunks, vs⟩) = true then
      some ⟨c.before, row, y.chunks, vs⟩ else none := by
  obtain ⟨chunks, edges, rows⟩ := y
  obtain rfl : rows = [row] := hrows
  unfold Call.reach?
  rw [h]

theorem chunksOf_cons_of_no_yield {c : Call} (h : c.yield? parse = none) :
    chunksOf parse (c :: calls) = chunksOf parse calls := by
  rw [chunksOf, List.flatMap_cons, h]
  rfl

theorem chunksOf_cons_of_yield {c : Call} (h : c.yield? parse = some (y, vs)) :
    chunksOf parse (c :: calls) = y.chunks ++ chunksOf parse calls := by
  rw [chunksOf, List.flatMap_cons, h]
  rfl

theorem mem_chunksOf {t : Call} {c : Chunk} (ht : t ∈ calls) (hy : t.yield? parse = some (y, vs))
    (hc : c ∈ y.chunks) : c ∈ chunksOf parse calls :=
  List.mem_flatMap.2 ⟨t, ht, by rw [hy]; exact hc⟩

theorem row_of_yield? (h : yield? parse o text a = some (y, vs)) :
    ∃ row, y.rows = [row] ∧ (∀ c ∈ y.chunks, Chunk.IsFrom o c ∧ c.file = row.file) ∧
      stale a.store.ledger row = (a.store.ledger.get? row.file).isSome := by
  obtain ⟨⟨language, hx⟩, -⟩ := yield?_eq_some.1 h
  obtain ⟨row, hrows, -, -, -, hchunks, hstale⟩ := row_of_examine hx
  exact ⟨row, hrows, hchunks, hstale⟩

/-! ## What holds throughout a trace -/

/-- A row was recorded by some call. Of its chunks there is what the newest call left that got to the
entries of the file. -/
def RowAccounted (parse : Parser) (calls : List Call) (a : Atlas) (file : FileKey) (row : Graph.LedgerRow) : Prop :=
  ∃ t ∈ calls, ∃ y vs r, t.yield? parse = some (y, vs) ∧ y.rows = [row] ∧ newestReach parse file calls = some r ∧
    ∀ c ∈ y.chunks, ((∀ part, a.has part c.key) ↔ c.key ∈ r.leaves) ∧ (r.records = true → c.key ∈ r.leaves)

/-- What there is was stored by some call, and all rows are accounted for. -/
structure Accounted (parse : Parser) (workspace : Value) (calls : List Call) (a : Atlas) : Prop where
  origins : ∀ t ∈ calls, t.origin.workspace = workspace ∧ t.before.plan = a.plan
  owned : ∀ part k d, (a.held part).get? k = some d → ∃ c ∈ chunksOf parse calls, k = c.key ∧ d = part.document c
  recorded : ∀ file row, a.store.ledger.get? file = some row →
    (row.file == file) = true ∧ RowAccounted parse calls a file row

theorem Accounted.start (plan : Plan) (disk : Disk) : Accounted parse workspace [] (Atlas.open plan disk) where
  origins t ht := absurd ht List.not_mem_nil
  owned part k d h := by cases part <;> cases h
  recorded file row h := by cases h

theorem Accounted.congr (h : Accounted parse workspace calls a) (hplan : b.plan = a.plan)
    (hledger : b.store.ledger = a.store.ledger) (hheld : ∀ part, b.held part = a.held part) :
    Accounted parse workspace calls b where
  origins t ht := hplan ▸ h.origins t ht
  owned part k d hd := h.owned part k d (hheld part ▸ hd)
  recorded file row hrow := by
    simp only [RowAccounted, has, hheld]
    exact h.recorded file row (hledger ▸ hrow)

theorem Accounted.referable (h : Accounted parse workspace calls a) {k : Key} {d : Document}
    (hd : a.store.symbols.documents.get? k = some d) : Document.Referable d := by
  obtain ⟨c, -, -, rfl⟩ := h.owned .symbols k d hd
  exact c.referable

theorem Accounted.get?_dropped (h : Accounted parse workspace calls a) (hids : Separated (chunksOf parse calls))
    (hstale : stale a.store.ledger row = true) {c : Chunk} (hc : c ∈ chunksOf parse calls)
    (hfile : c.file = row.file)
    (part : Part) : ((a.held part).keep (!replaced a row ·)).get? c.key = none := by
  rw [OrderedMap.get?_keep, Option.filter_eq_none_iff]
  intro d hd
  obtain ⟨e, he, hkey, rfl⟩ := h.owned part c.key d hd
  have hin := (part.inFile_document e row.file).2 (hfile ▸ hids.file hc he hkey)
  rw [replaced, hstale, hin]
  decide

theorem Accounted.has_elsewhere (h : Accounted parse workspace calls a) (hrewritten : Rewritten a m file cs)
    (hcs : ∀ c ∈ cs, c.file = file) (hids : Separated (cs ++ chunksOf parse calls)) {c : Chunk}
    (hc : c ∈ chunksOf parse calls) (hfile : c.file ≠ file) (part : Part) :
    m.has part c.key ↔ a.has part c.key := by
  rw [has, has, hrewritten.elsewhere (fun e he hkey => ?_) fun d hd => ?_]
  · exact hfile ((hids.file (List.mem_append_right _ hc) (List.mem_append_left _ he) hkey).trans (hcs e he))
  · obtain ⟨e, he, hkey, rfl⟩ := h.owned part c.key d hd
    rw [Bool.eq_false_iff, ne_eq, part.inFile_document]
    have hsame := hids.file (List.mem_append_right _ hc) (List.mem_append_right _ he) hkey
    exact fun hf => hfile (hsame.trans hf.symm)

/-- A call that does not get to the entries of a file leaves them as they are. -/
theorem RowAccounted.keep (h : RowAccounted parse calls a file row) {t : Call} (hreach : t.reach? parse file = none)
    (hhas : ∀ c ∈ chunksOf parse calls, c.file = row.file → ∀ part, m.has part c.key ↔ a.has part c.key) :
    RowAccounted parse (t :: calls) m file row := by
  obtain ⟨t₀, ht₀, y, vs, r, hy, hrows, hr, hkept⟩ := h
  obtain ⟨row', hrows', hchunks, -⟩ := row_of_yield? hy
  obtain rfl : row' = row := List.singleton_inj.1 (hrows'.symm.trans hrows)
  refine ⟨t₀, List.mem_cons_of_mem _ ht₀, y, vs, r, hy, hrows, ?_, fun c hc => ?_⟩
  · rw [newestReach, List.findSome?_cons, hreach]
    exact hr
  · simp only [hhas c (mem_chunksOf ht₀ hy hc) (hchunks c hc).2]
    exact hkept c hc

/-- A call that gets to the entries of a file and does not record its row. -/
theorem RowAccounted.replace (h : RowAccounted parse calls a file row) {t : Call} {r : Reach}
    (hreach : t.reach? parse file = some r) (hrecords : r.records = false)
    (hhas : ∀ c ∈ chunksOf parse calls, c.file = row.file → ((∀ part, m.has part c.key) ↔ c.key ∈ r.leaves)) :
    RowAccounted parse (t :: calls) m file row := by
  obtain ⟨t₀, ht₀, y, vs, _, hy, hrows, -, -⟩ := h
  obtain ⟨row', hrows', hchunks, -⟩ := row_of_yield? hy
  obtain rfl : row' = row := List.singleton_inj.1 (hrows'.symm.trans hrows)
  refine ⟨t₀, List.mem_cons_of_mem _ ht₀, y, vs, r, hy, hrows, ?_, fun c hc => ?_⟩
  · rw [newestReach, List.findSome?_cons, hreach]
  · refine ⟨hhas c (mem_chunksOf ht₀ hy hc) (hchunks c hc).2, fun htrue => ?_⟩
    rw [hrecords] at htrue
    cases htrue

theorem Accounted.origins_cons (h : Accounted parse workspace calls a) (hworkspace : o.workspace = workspace)
    (hplan : m.plan = a.plan) : ∀ t ∈ (⟨a, o, text⟩ : Call) :: calls,
      t.origin.workspace = workspace ∧ t.before.plan = m.plan := by
  intro t ht
  rcases List.mem_cons.1 ht with rfl | ht
  · exact ⟨hworkspace, hplan.symm⟩
  · exact hplan ▸ h.origins t ht

theorem Accounted.owned_cons (h : Accounted parse workspace calls a)
    (hy : Call.yield? parse ⟨a, o, text⟩ = some (y, vs)) (hrewritten : Rewritten a m file y.chunks) (part : Part)
    (k : Key) (d : Document) (hd : (m.held part).get? k = some d) :
    ∃ c ∈ chunksOf parse (⟨a, o, text⟩ :: calls), k = c.key ∧ d = part.document c := by
  rw [chunksOf_cons_of_yield hy]
  rcases hrewritten.cases hd with ⟨c, hc, hk, hd⟩ | hd
  · exact ⟨c, List.mem_append_left _ hc, hk, hd⟩
  · obtain ⟨c, hc, hk, hd⟩ := h.owned part k d hd
    exact ⟨c, List.mem_append_right _ hc, hk, hd⟩

/-! ## Steps -/

theorem Accounted.skip (h : Accounted parse workspace calls a) (hworkspace : o.workspace = workspace)
    (hy : Call.yield? parse ⟨a, o, text⟩ = none) : Accounted parse workspace (⟨a, o, text⟩ :: calls) a where
  origins := h.origins_cons hworkspace rfl
  owned part k d hd := by
    rw [chunksOf_cons_of_no_yield hy]
    exact h.owned part k d hd
  recorded file row hrow := by
    obtain ⟨hsame, hrow⟩ := h.recorded file row hrow
    exact ⟨hsame, hrow.keep (reach?_of_no_yield hy) fun _ _ _ _ => .rfl⟩

theorem Accounted.keep_other (h : Accounted parse workspace calls a)
    (hy : Call.yield? parse ⟨a, o, text⟩ = some (y, vs)) (hrows : y.rows = [row])
    (hids : Separated (chunksOf parse (⟨a, o, text⟩ :: calls))) (hrewritten : Rewritten a m row.file y.chunks)
    (hother : ¬ (row.file == file) = true) {row' : Graph.LedgerRow} (hrow : a.store.ledger.get? file = some row') :
    (row'.file == file) = true ∧ RowAccounted parse (⟨a, o, text⟩ :: calls) m file row' := by
  obtain ⟨row₀, hrows₀, hchunks, -⟩ := row_of_yield? hy
  obtain rfl : row₀ = row := List.singleton_inj.1 (hrows₀.symm.trans hrows)
  rw [chunksOf_cons_of_yield hy] at hids
  obtain ⟨hsame, haccounted⟩ := h.recorded file row' hrow
  refine ⟨hsame, haccounted.keep ?_ fun c hc hfile part => ?_⟩
  · rw [reach?_of_yield hy hrows, if_neg]
    simp [hother]
  · refine h.has_elsewhere hrewritten (fun c hc => (hchunks c hc).2) hids hc (fun heq => hother ?_) part
    rw [← heq, hfile]
    exact hsame

theorem Accounted.complete (h : Accounted parse workspace calls a) (hworkspace : o.workspace = workspace)
    (hy : Call.yield? parse ⟨a, o, text⟩ = some (y, vs))
    (hids : Separated (chunksOf parse (⟨a, o, text⟩ :: calls)))
    (hok : (storeChunks y.chunks vs y.rows).on a = (.ok (), m)) :
    Accounted parse workspace (⟨a, o, text⟩ :: calls) m := by
  obtain ⟨row, hrows, -, -⟩ := row_of_yield? hy
  have hlen := length_of_embedChunks (yield?_eq_some.1 hy).2
  obtain ⟨hiff, hst⟩ := storeChunks_on y vs a
  rw [hok] at hiff hst
  have hstorable : Storable a y vs := hiff.1 rfl
  have hst : StoredChunks a y vs m := hst rfl
  have hrewritten := hst.rewritten hlen hrows
  refine ⟨h.origins_cons hworkspace hst.plan, h.owned_cons hy hrewritten, fun file row' hrow' => ?_⟩
  have hledger : m.store.ledger = a.store.ledger.put row := by rw [hst.ledger, hrows]; rfl
  rw [hledger, Graph.Ledger.get?_put] at hrow'
  split at hrow'
  · rename_i heq
    obtain rfl := Option.some.inj hrow'
    have hrowserves := hstorable.rows (by rw [hrows]; exact List.cons_ne_nil _ _)
    have hdropping := hstorable.dropping row (by rw [hrows]; exact List.mem_singleton_self _)
    have henters : Reach.enters ⟨a, row, y.chunks, vs⟩ = true :=
      (Reach.enters_iff _).2 ⟨hrowserves.1, fun hstale => (hdropping hstale).documents⟩
    refine ⟨heq, ⟨a, o, text⟩, List.mem_cons_self, y, vs, ⟨a, row, y.chunks, vs⟩, hy, hrows, ?_, fun c hc => ?_⟩
    · rw [newestReach, List.findSome?_cons, reach?_of_yield hy hrows, heq, henters]
      rfl
    · have hleaves : c.key ∈ Reach.leaves ⟨a, row, y.chunks, vs⟩ := by
        rw [Reach.mem_leaves, hstorable.lengths]
        have hput := hstorable.chunks (List.ne_nil_of_mem hc)
        exact ⟨fun hstale => ⟨(hdropping hstale).points, (hdropping hstale).texts⟩, hput, exists_pointEntry hlen hc⟩
      refine ⟨⟨fun _ => hleaves, fun _ part => ?_⟩, fun _ => hleaves⟩
      obtain ⟨e, -, hget⟩ := hst.get?_key hlen part hc
      rw [has, hget]
      rfl
  · rename_i hne
    exact h.keep_other hy hrows hids hrewritten hne hrow'

/-- Whether something is found under an id after entries are added to a part that had nothing there. -/
theorem isSome_get?_insertAll {d : OrderedMap Key Document} {c : Chunk} {es : List (Key × Document)}
    (hnone : d.get? c.key = none) : ((d.insertAll es).get? c.key).isSome ↔ ∃ e ∈ es, e.1 = c.key := by
  constructor
  · intro h
    obtain ⟨v, hv⟩ := Option.isSome_iff_exists.1 h
    rcases OrderedMap.mem_of_get?_insertAll hv with ⟨j, hj, hjk⟩ | hv
    · exact ⟨_, hj, (Key.beq_str j c.id).1 hjk⟩
    · rw [hnone] at hv
      cases hv
  · rintro ⟨e, he, hkey⟩
    obtain ⟨f, -, -, hget⟩ := OrderedMap.get?_insertAll_of_mem d he
    rw [← hkey, hget]
    rfl

/-- What an interrupted call leaves of the file whose row it did not get to record. -/
theorem Accounted.keep_own (h : Accounted parse workspace calls a)
    (hy : Call.yield? parse ⟨a, o, text⟩ = some (y, vs)) (hrows : y.rows = [row])
    (hids : Separated (chunksOf parse (⟨a, o, text⟩ :: calls))) {f : Failure}
    (herror : (storeChunks y.chunks vs [row]).on a = (.error f, m)) (hinterrupted : Interrupted a row y.chunks vs m)
    (heq : (row.file == file) = true) {row' : Graph.LedgerRow} (hrow : a.store.ledger.get? file = some row') :
    (row'.file == file) = true ∧ RowAccounted parse (⟨a, o, text⟩ :: calls) m file row' := by
  obtain ⟨row₀, hrows₀, -, hstale⟩ := row_of_yield? hy
  obtain rfl : row₀ = row := List.singleton_inj.1 (hrows₀.symm.trans hrows)
  have hlen := length_of_embedChunks (yield?_eq_some.1 hy).2
  obtain ⟨hsame, haccounted⟩ := h.recorded file row' hrow
  have hstale : stale a.store.ledger row₀ = true := by rw [hstale, OrderedMap.get?_congr _ heq, hrow]; rfl
  have hdropped : ∀ {c : Chunk}, c ∈ chunksOf parse calls → c.file = row'.file → ∀ part,
      ((a.held part).keep (!replaced a row₀ ·)).get? c.key = none := fun {c} hc hcfile part => by
    have hids : Separated (chunksOf parse calls) := hids.mono (by
      rw [chunksOf_cons_of_yield hy]
      exact List.subset_append_right _ _)
    have hfile : (c.file == row₀.file) = true := hcfile ▸ BEq.trans hsame (BEq.symm heq)
    exact h.get?_dropped hids hstale hc ((c.file_beq row₀.file).1 hfile).symm part
  have hrecords : Reach.records ⟨a, row₀, y.chunks, vs⟩ = false := by rw [Reach.records, herror]; rfl
  have hreach := @reach?_of_yield parse row₀ y vs file ⟨a, o, text⟩ hy hrows
  rw [heq, Bool.true_and] at hreach
  refine ⟨hsame, ?_⟩
  cases hinterrupted with
  | early hearly =>
    have henters : Reach.enters ⟨a, row₀, y.chunks, vs⟩ = false := by
      rw [Bool.eq_false_iff, ne_eq, Reach.enters_iff]
      rintro ⟨hget, hdelete⟩
      rcases hearly with hearly | ⟨-, hearly⟩
      · exact Bool.false_ne_true (hearly.symm.trans hget)
      · exact Bool.false_ne_true (hearly.symm.trans (hdelete hstale))
    rw [henters] at hreach
    exact haccounted.keep hreach fun _ _ _ _ => .rfl
  | halfway hget _ hdelete hpartly =>
    rw [(Reach.enters_iff ⟨a, row₀, y.chunks, vs⟩).2 ⟨hget, fun _ => hdelete⟩] at hreach
    refine haccounted.replace hreach hrecords fun c hc hcfile => ⟨fun hall => ?_, fun hleaves => ?_⟩
    · have hsymbols := hall .symbols
      have hgone := hdropped hc hcfile .symbols
      rw [has, held, hpartly.symbols] at hsymbols
      rw [held] at hgone
      rw [hgone] at hsymbols
      cases hsymbols
    · have hserves := ((Reach.mem_leaves _ _).1 hleaves).1 hstale
      exact absurd (hpartly.stopped.symm.trans (Bool.and_eq_true_iff.2 hserves)) Bool.false_ne_true
  | late hget hdelete _ symbols points texts _ =>
    rw [(Reach.enters_iff ⟨a, row₀, y.chunks, vs⟩).2 ⟨hget, fun hst => (hdelete hst).documents⟩] at hreach
    refine haccounted.replace hreach hrecords fun c hc hcfile => ?_
    have hpart : ∀ part, m.has part c.key ↔ ∃ e ∈ written a y.chunks vs part, e.1 = c.key := fun part => by
      rw [has, held_of_late symbols points texts part c.key]
      exact isSome_get?_insertAll (hdropped hc hcfile part)
    simp only [hpart]
    rw [written_iff hlen, Reach.mem_leaves]
    exact ⟨fun hall => ⟨fun hst => ⟨(hdelete hst).points, (hdelete hst).texts⟩, hall⟩, fun hall => hall.2⟩

theorem Accounted.interrupt (h : Accounted parse workspace calls a) (hworkspace : o.workspace = workspace)
    (hy : Call.yield? parse ⟨a, o, text⟩ = some (y, vs)) (hids : Separated (chunksOf parse (⟨a, o, text⟩ :: calls)))
    {f : Failure} (herror : (storeChunks y.chunks vs y.rows).on a = (.error f, m)) :
    Accounted parse workspace (⟨a, o, text⟩ :: calls) m := by
  obtain ⟨row, hrows, -, -⟩ := row_of_yield? hy
  rw [hrows] at herror
  have hinterrupted : Interrupted a row y.chunks vs m :=
    storeChunks_error (fun _ k d hd _ => h.referable hd) (fun c _ d hd => h.referable hd) herror
  have hrewritten := hinterrupted.rewritten (length_of_embedChunks (yield?_eq_some.1 hy).2)
  refine ⟨h.origins_cons hworkspace hinterrupted.frame.plan, h.owned_cons hy hrewritten, fun file row' hrow => ?_⟩
  rw [hinterrupted.frame.ledger] at hrow
  by_cases heq : (row.file == file) = true
  · exact h.keep_own hy hrows hids herror hinterrupted heq hrow
  · exact h.keep_other hy hrows hids hrewritten heq hrow

/-! ## Traces -/

theorem chunksOf_subset_cons (parse : Parser) (t : Call) (calls : List Call) :
    chunksOf parse calls ⊆ chunksOf parse (t :: calls) := by
  rw [chunksOf, chunksOf, List.flatMap_cons]
  exact List.subset_append_right _ _

theorem Trace.accounted (h : Trace parse workspace calls a) (hids : Separated (chunksOf parse calls)) :
    Accounted parse workspace calls a := by
  induction h with
  | start plan disk => exact .start plan disk
  | world h disk engine faults ih => exact (ih hids).congr rfl rfl fun part => by cases part <;> rfl
  | @call calls a o h hworkspace text ih =>
    have ih := ih (hids.mono (chunksOf_subset_cons parse _ calls))
    cases hy : Call.yield? parse ⟨a, o, text⟩ with
    | none =>
      rw [indexText_of_no_yield hy]
      exact ih.skip hworkspace hy
    | some found =>
      obtain ⟨y, vs⟩ := found
      obtain ⟨engine, edges, hb⟩ := indexText_of_yield hy
      rw [hb]
      have hm : Accounted parse workspace (⟨a, o, text⟩ :: calls) ((storeChunks y.chunks vs y.rows).on a).2 := by
        generalize hstored : (storeChunks y.chunks vs y.rows).on a = r
        obtain ⟨x, m⟩ := r
        cases x with
        | ok u => exact ih.complete hworkspace hy hids hstored
        | error f => exact ih.interrupt hworkspace hy hids hstored
      exact hm.congr rfl rfl fun part => by cases part <;> rfl

/-- Chunks of one name have one id if they are of the same file and workspace. -/
theorem Chunk.IsFrom.key_eq {o' : Origin} {c d : Chunk} (h : Chunk.IsFrom o c) (h' : Chunk.IsFrom o' d)
    (hworkspace : o.workspace = o'.workspace) (hfile : c.file = d.file)
    (hname : c.payload.symbolName = d.payload.symbolName) : c.key = d.key := by
  have hw : c.payload.context.workspace = d.payload.context.workspace :=
    Value.str.inj (h.workspace.symm.trans (hworkspace.trans h'.workspace))
  obtain ⟨hr, hp⟩ := Prod.mk.inj hfile
  rw [Chunk.key, Chunk.key, h.id, h'.id, hw, hname, Key.str.inj hr, Key.str.inj hp]

/-- Content that is reported as unchanged is in all three parts just as far as the newest call left
it there that got to the entries of its file. A call that recorded its row left all of it. -/
theorem Trace.unchanged_iff {language : Language} {now : Int} {hash : String}
    (h : Trace parse workspace calls a) (hids : Separated (chunksOf parse calls))
    (hworkspace : o.workspace = workspace)
    (hcontents : ∀ t ∈ calls, t.origin.path = o.path →
      Index.hashBytes a.plan.hash (Text.encode t.text) = Index.hashBytes a.plan.hash (Text.encode text) →
      t.text = text)
    (hok : (indexText parse o text true).on a = (.ok (.unchanged language), b))
    (hy : analyse a.plan now o language text hash (parse o.path text) = .ok y) :
    ∃ repo r, asKey o.repo = .ok repo ∧ newestReach parse (repo, .str o.path) calls = some r ∧
      ∀ c ∈ y.chunks, ((∀ part, b.has part c.key) ↔ c.key ∈ r.leaves) ∧
        (r.records = true → ∀ part, b.has part c.key) := by
  obtain ⟨hx, ⟨-, rfl⟩ | ⟨_, _, hno, -⟩⟩ := of_indexText hok
  case inr => cases hno
  obtain ⟨hlanguage, repo, hrepo, hsome⟩ := examine_unchanged hx
  obtain ⟨row, hrow⟩ := Option.isSome_iff_exists.1 hsome
  rw [Graph.Ledger.unchanged?, Option.filter_eq_some_iff] at hrow
  obtain ⟨hget, hsame⟩ := hrow
  have haccounted := h.accounted hids
  obtain ⟨hfile, t, ht, y₀, vs, r, hty, hrows, hr, hkept⟩ := haccounted.recorded _ row hget
  -- the row was recorded for the same content
  obtain ⟨⟨language₀, hx₀⟩, -⟩ := yield?_eq_some.1 hty
  obtain ⟨row₀, hrows₀, hrepo₀, hpath₀, hhash₀, hchunks₀, -⟩ := row_of_examine hx₀
  obtain rfl : row₀ = row := List.singleton_inj.1 (hrows₀.symm.trans hrows)
  obtain ⟨hlanguage₀, -, hy₀⟩ := examine_indexed hx₀
  obtain ⟨horigin, hplan⟩ := haccounted.origins t ht
  rw [hplan] at hhash₀ hy₀
  have hpath : t.origin.path = o.path := by
    have hkey : (row₀.path == .str o.path) = true := ((beq_pair _ _).1 hfile).2
    rw [Key.beq_str, hpath₀] at hkey
    exact Key.str.inj hkey
  have htext : t.text = text := by
    refine hcontents t ht hpath ?_
    rw [hhash₀, Value.str_same] at hsame
    exact (Value.str.inj hsame).symm
  obtain rfl : language₀ = language := by
    rw [hpath, hlanguage] at hlanguage₀
    exact (Option.some.inj hlanguage₀).symm
  obtain ⟨hnames₀, -, -⟩ := analyse_ok hy₀
  obtain ⟨hnames, hfrom, -⟩ := analyse_ok hy
  rw [htext, hpath, hnames] at hnames₀
  have hnames : y.chunks.map (·.payload.symbolName) = y₀.chunks.map (·.payload.symbolName) := Except.ok.inj hnames₀
  refine ⟨repo, r, hrepo, hr, fun c hc => ?_⟩
  have hname : c.payload.symbolName ∈ y₀.chunks.map (·.payload.symbolName) := hnames ▸ List.mem_map_of_mem hc
  obtain ⟨c₀, hc₀, hname⟩ := List.mem_map.1 hname
  have hcfile : c.file = c₀.file := by
    have hc₀file : (repo, Key.str o.path) = c₀.file := (c₀.file_beq _).1 ((hchunks₀ c₀ hc₀).2 ▸ hfile)
    exact ((hfrom c hc).file_eq hrepo).trans hc₀file
  have hkey := (hfrom c hc).key_eq (hchunks₀ c₀ hc₀).1 (hworkspace.trans horigin.symm) hcfile hname.symm
  rw [hkey]
  exact ⟨(hkept c₀ hc₀).1, fun hrecords => (hkept c₀ hc₀).1.2 ((hkept c₀ hc₀).2 hrecords)⟩

/-! ## A function that is indexed again -/

instance (a : Atlas) (part : Part) (k : Key) : Decidable (a.has part k) :=
  inferInstanceAs (Decidable (((a.held part).get? k).isSome = true))

/-- The second call finds the function unchanged, and it is there. -/
theorem Trace.unchanged_iff_of_function :
    let a := (Sample.index Sample.function Sample.atlas).2
    let b := (Sample.index Sample.function a).2
    Trace Sample.parse "ws" [⟨Sample.atlas, Sample.origin, Sample.function⟩] a ∧
      Sample.index Sample.function a = (.ok (.unchanged .python), b) ∧
      Sample.functionYield.chunks.length = 1 ∧ ∀ c ∈ Sample.functionYield.chunks, ∀ part, b.has part c.key := by
  intro a b
  have htrace := @Trace.call Sample.parse "ws" [] Sample.atlas Sample.origin (.start Sample.plan Sample.disk) rfl
    Sample.function
  have hok : Sample.index Sample.function a = (.ok (.unchanged .python), b) :=
    Prod.ext (eq_unchanged (by decide +kernel)) rfl
  have hids : Separated (chunksOf Sample.parse [⟨Sample.atlas, Sample.origin, Sample.function⟩]) := by
    decide +kernel
  have hplan : Sample.plan = a.plan := ((htrace.accounted hids).origins _ List.mem_cons_self).2
  obtain ⟨repo, r, hrepo, hr, hkept⟩ := htrace.unchanged_iff hids rfl
    (fun t ht _ _ => by rw [List.mem_singleton.1 ht]) hok (hplan ▸ Sample.functionYield_ok)
  obtain rfl : Key.str "repo" = repo := Except.ok.inj hrepo
  have hrecords : (newestReach Sample.parse (.str "repo", .str "a.py")
    [⟨Sample.atlas, Sample.origin, Sample.function⟩]).map Reach.records = some true := by decide +kernel
  have hr : newestReach Sample.parse (.str "repo", .str "a.py")
    [⟨Sample.atlas, Sample.origin, Sample.function⟩] = some r := hr
  rw [hr] at hrecords
  exact ⟨htrace, hok, by decide +kernel, fun c hc => (hkept c hc).2 (Option.some.inj hrecords)⟩

/-- When the row of the emptied file cannot be written, the function is reported as unchanged ever
after, and no part has it. -/
theorem unchanged_without_entries :
    let a₁ := (Sample.index Sample.function Sample.atlas).2
    let a₂ := (Sample.index "" { a₁ with faults := [(.putRow, .mishap .gitCommand)] }).2
    let a₃ : Atlas := { a₂ with faults := [] }
    let b := (Sample.index Sample.function a₃).2
    (∃ calls, Trace Sample.parse "ws" calls a₃) ∧
      Sample.index Sample.function a₃ = (.ok (.unchanged .python), b) ∧
      Sample.functionYield.chunks.length = 1 ∧ ∀ c ∈ Sample.functionYield.chunks, ∀ part, ¬ b.has part c.key := by
  intro a₁ a₂ a₃ b
  have h₁ := @Trace.call Sample.parse "ws" [] Sample.atlas Sample.origin (.start Sample.plan Sample.disk) rfl
    Sample.function
  have h₂ := @Trace.call Sample.parse "ws" _ _ Sample.origin
    (h₁.world a₁.disk a₁.engine [(.putRow, .mishap .gitCommand)]) rfl ""
  have hgone : ∀ c ∈ Sample.functionYield.chunks, ¬ b.has .symbols c.key ∧ ¬ b.has .vectors c.key ∧
    ¬ b.has .texts c.key := by decide +kernel
  refine ⟨⟨_, h₂.world a₂.disk a₂.engine []⟩, Prod.ext (eq_unchanged (by decide +kernel)) rfl, by decide +kernel,
    fun c hc part => ?_⟩
  obtain ⟨hsymbols, hvectors, htexts⟩ := hgone c hc
  cases part <;> assumption

end SourceAtlas.Atlas
