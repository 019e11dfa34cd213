import SourceAtlas.Proofs.RoundTrips

/-!
# Loads that fail

Loading empties the store before it reads. A load that fails leaves what it
read before the fault, whatever there was before: the documents up to the
faulty one, the edges up to the faulty one, and the rows. A document is stored
before its reference and its repository are looked at, so that a faulty one of
these stays, too.
-/

namespace SourceAtlas

open Json (Value Record Key)

/-! ## Reading up to a fault -/

section

variable {α β σ : Type}

/-- How reading a list ends with a failure: some items are read, and of the one at fault something
may be left. -/
inductive UpTo (read : α → Outcome β) (left : α → List β) : List α → Failure → List β → Prop
  | fault {a as f} : read a = .error f → UpTo read left (a :: as) f (left a)
  | next {a as b bs f} : read a = .ok b → UpTo read left as f bs → UpTo read left (a :: as) f (b :: bs)

theorem mapM_or_upTo (read : α → Outcome β) (left : α → List β) :
    ∀ as : List α, (∃ bs, as.mapM read = .ok bs) ∨ ∃ f bs, UpTo read left as f bs
  | [] => .inl ⟨[], rfl⟩
  | a :: as => by
    cases ha : read a with
    | error f => exact .inr ⟨f, _, .fault ha⟩
    | ok b =>
      rcases mapM_or_upTo read left as with ⟨bs, hbs⟩ | ⟨f, bs, hbs⟩
      · refine .inl ⟨b :: bs, ?_⟩
        rw [List.mapM_cons, ha, hbs]
        rfl
      · exact .inr ⟨f, b :: bs, .next ha hbs⟩

/-- Whether an action on an item reads it, where `P` tells of a state what was read, and `Q` what
was read before a fault. -/
structure Act.Takes (P Q : List β → σ → Prop) (read : α → Outcome β) (left : α → List β) (step : α → Act σ Unit) :
    Prop where
  ok : ∀ {a b bs s}, P bs s → read a = .ok b → ∃ t, (step a).on s = (.ok (), t) ∧ P (bs ++ [b]) t
  fault : ∀ {a f bs s}, P bs s → read a = .error f → ∃ t, (step a).on s = (.error f, t) ∧ Q (bs ++ left a) t

variable {P Q : List β → σ → Prop} {read : α → Outcome β} {left : α → List β} {step : α → Act σ Unit}

theorem Act.Takes.all (h : Takes P Q read left step) : ∀ {as : List α} {bs cs : List β} {s : σ}, P bs s →
    as.mapM read = .ok cs → ∃ t, (as.forM step).on s = (.ok (), t) ∧ P (bs ++ cs) t
  | [], bs, cs, s, hs, hcs => by
    obtain rfl := pure_eq_ok.1 hcs
    exact ⟨s, rfl, (List.append_nil bs).symm ▸ hs⟩
  | a :: as, bs, cs, s, hs, hcs => by
    rw [List.mapM_cons] at hcs
    obtain ⟨b, hb, hcs⟩ := bind_eq_ok.1 hcs
    obtain ⟨ds, hds, hcs⟩ := bind_eq_ok.1 hcs
    obtain rfl := pure_eq_ok.1 hcs
    obtain ⟨m, hm, hbm⟩ := h.ok hs hb
    obtain ⟨t, ht, hbt⟩ := h.all hbm hds
    refine ⟨t, ?_, by rwa [List.append_assoc] at hbt⟩
    rw [on_forM_cons, on_bind_ok hm, ht]

theorem Act.Takes.upTo (h : Takes P Q read left step) {as : List α} {cs : List β} {f : Failure}
    (hcs : UpTo read left as f cs) :
    ∀ {bs : List β} {s : σ}, P bs s → ∃ t, (as.forM step).on s = (.error f, t) ∧ Q (bs ++ cs) t := by
  induction hcs with
  | fault ha =>
    intro bs s hs
    obtain ⟨t, ht, hbt⟩ := h.fault hs ha
    refine ⟨t, ?_, hbt⟩
    rw [on_forM_cons, on_bind, ht]
  | next ha _ ih =>
    intro bs s hs
    obtain ⟨m, hm, hbm⟩ := h.ok hs ha
    obtain ⟨t, ht, hbt⟩ := ih hbm
    refine ⟨t, ?_, by rwa [List.append_assoc] at hbt⟩
    rw [on_forM_cons, on_bind_ok hm, ht]

end

/-! ## Documents -/

def Document.enterRef (d : Document) : Outcome Unit :=
  match d.ref? with
  | some ref => discard (asKey ref)
  | none => pure ()

def Document.enterRepo (d : Document) : Outcome Unit :=
  match d.content? "repo_id", d.content? "workspace_id" with
  | some repo, some _ => discard (asKey repo)
  | _, _ => pure ()

def Document.enter (d : Document) : Outcome Unit := do
  d.enterRef
  d.enterRepo

theorem Document.referable_of_enterRef {d : Document} (h : d.enterRef = .ok ()) : d.Referable := by
  intro ref href
  rw [enterRef, href] at h
  obtain ⟨k, hk, -⟩ | ⟨-, f, hf⟩ := asKey_cases ref
  · rw [hk]
    rfl
  · dsimp only at h
    rw [hf] at h
    cases h

namespace Graph

theorem Symbols.on_settle (id : Key) (d : Document) (x : Symbols) : ((settle id d).on x).1 = d.enterRef := by
  unfold settle Document.enterRef
  rw [Act.on_bind, Act.on_modify]
  cases d.ref? with
  | none => rfl
  | some ref =>
    simp only [Act.on_bind, Act.on_liftOutcome]
    cases asKey ref <;> rfl

theorem Symbols.on_put_referable (id : Key) (d : Document) {x : Symbols}
    (h : ∀ e ∈ x.documents.entries, Document.Referable e.2) :
    ∃ y, (put id d).on x = (d.enterRef, y) ∧ y.documents = x.documents.insert id d := by
  refine ⟨((put id d).on x).2, ?_⟩
  rw [on_put]
  cases hp : x.documents.get? id with
  | none => exact ⟨Prod.ext (on_settle id d x) rfl, documents_settle id d x⟩
  | some previous =>
    obtain ⟨k, hk, -⟩ := OrderedMap.mem_of_get? hp
    have hforget := (forget_ok_iff previous x).2 (h _ hk)
    dsimp only
    rw [Act.on_bind_ok (eq_of_fst hforget)]
    refine ⟨Prod.ext (on_settle id d _) rfl, ?_⟩
    rw [documents_settle, documents_forget]

namespace Store

variable {x s t : Store} {data v : Value} {f : Failure} {es : List (Key × Document)} {ks : List EdgeKey}
  {rows : List LedgerRow}

def entryOf (v : Value) : Outcome (Key × Document) := do pure (← Document.idOf v, ← asRecord v)

def storing (v : Value) : Outcome (Key × Document) := do
  let e ← entryOf v
  e.2.enter
  pure e

def entryLeft (v : Value) : List (Key × Document) := (entryOf v).toOption.toList

/-- A store with just these documents, edges and rows, in the order in which they came. -/
structure Consists (x : Store) (es : List (Key × Document)) (ks : List EdgeKey) (rows : List LedgerRow) : Prop where
  documents : x.symbols.documents = OrderedMap.empty.insertAll es
  edges : ∀ k, x.edges.keys.contains k = ks.contains k
  ledger : x.ledger = rows.foldl Ledger.put .empty

structure Alike (x y : Store) : Prop where
  documents : x.symbols.documents = y.symbols.documents
  edges : ∀ k, x.edges.keys.contains k = y.edges.keys.contains k
  ledger : x.ledger = y.ledger

theorem Consists.alike_iff (h : t.Consists es ks rows) : s.Alike t ↔ s.Consists es ks rows := by
  constructor
  · intro hs
    exact ⟨hs.documents.trans h.documents, fun k => (hs.edges k).trans (h.edges k), hs.ledger.trans h.ledger⟩
  · intro hs
    exact ⟨hs.documents.trans h.documents.symm, fun k => (hs.edges k).trans (h.edges k).symm,
      hs.ledger.trans h.ledger.symm⟩

/-! ## Reading documents, edges and rows -/

def noteRepo (d : Document) : Act Store Unit := do
  if let (some repo, some workspace) := (d.content? "repo_id", d.content? "workspace_id") then
    let repo ← asKey repo
    modify fun x => { x with workspaceOf := x.workspaceOf.insert repo workspace }

theorem on_noteRepo (d : Document) (x : Store) :
    ∃ y, (noteRepo d).on x = (d.enterRepo, y) ∧ y.symbols = x.symbols ∧ SameLinks x y := by
  unfold noteRepo Document.enterRepo
  cases d.content? "repo_id" with
  | none => exact ⟨x, rfl, rfl, rfl, rfl⟩
  | some repo =>
    cases d.content? "workspace_id" with
    | none => exact ⟨x, rfl, rfl, rfl, rfl⟩
    | some workspace =>
      dsimp only
      rw [Act.on_bind, Act.on_liftOutcome]
      cases asKey repo with
      | error f => exact ⟨x, rfl, rfl, rfl, rfl⟩
      | ok k => exact ⟨{ x with workspaceOf := x.workspaceOf.insert k workspace }, rfl, rfl, rfl, rfl⟩

theorem on_put_entry {e : Key × Document} (he : entryOf v = .ok e)
    (hx : ∀ e ∈ x.symbols.documents.entries, Document.Referable e.2) :
    ∃ y, (put v).on x = (e.2.enter, y) ∧ y.symbols.documents = x.symbols.documents.insert e.1 e.2 ∧
    SameLinks x y := by
  obtain ⟨id, hid, he⟩ := bind_eq_ok.1 he
  obtain ⟨d, hd, he⟩ := bind_eq_ok.1 he
  obtain rfl := pure_eq_ok.1 he
  obtain ⟨m, hm, hdocuments⟩ := Symbols.on_put_referable id d hx
  have hput : (put v).on x = (inSymbols (Symbols.put id d) >>= fun _ => noteRepo d).on x := by
    unfold put
    rw [Act.on_bind_ok (t := x) (a := id) (by rw [Act.on_liftOutcome, hid]),
      Act.on_bind_ok (t := x) (a := d) (by rw [Act.on_liftOutcome, hd])]
    rfl
  have hin : (inSymbols (Symbols.put id d)).on x = (Document.enterRef d, { x with symbols := m }) := by
    rw [inSymbols, Act.on_within, hm]
  rw [hput, Act.on_bind, hin]
  unfold Document.enter
  cases Document.enterRef d with
  | error f => exact ⟨{ x with symbols := m }, rfl, hdocuments, rfl, rfl⟩
  | ok u =>
    obtain ⟨y, hy, hsymbols, hlinks⟩ := on_noteRepo d { x with symbols := m }
    exact ⟨y, hy, hsymbols ▸ hdocuments, hlinks⟩

def HasDocuments (es : List (Key × Document)) (x : Store) : Prop :=
  x.Consists es [] [] ∧ ∀ e ∈ x.symbols.documents.entries, Document.Referable e.2

theorem Consists.insert (h : x.Consists es [] []) {e : Key × Document} {y : Store}
    (hy : y.symbols.documents = x.symbols.documents.insert e.1 e.2) (hlinks : SameLinks x y) :
    y.Consists (es ++ [e]) [] [] := by
  refine ⟨?_, fun k => hlinks.1 ▸ h.edges k, hlinks.2.trans h.ledger⟩
  rw [hy, h.documents, OrderedMap.insertAll_append]
  rfl

theorem takes_documents : Act.Takes HasDocuments (fun es x => x.Consists es [] []) storing entryLeft put where
  ok {v e es x} hx h := by
    obtain ⟨e', he, h⟩ := bind_eq_ok.1 h
    obtain ⟨_, henter, h⟩ := bind_eq_ok.1 h
    obtain rfl := pure_eq_ok.1 h
    obtain ⟨_, href, -⟩ := bind_eq_ok.1 henter
    obtain ⟨y, hput, hy, hlinks⟩ := on_put_entry he hx.2
    refine ⟨y, henter ▸ hput, hx.1.insert hy hlinks, fun d hd => ?_⟩
    rw [hy] at hd
    rcases OrderedMap.mem_insert hd with hd | ⟨hd, -⟩
    · exact hx.2 d hd
    · exact hd ▸ Document.referable_of_enterRef href
  fault {v f es x} hx h := by
    rcases bind_eq_error.1 h with he | ⟨e, he, h⟩
    · -- without an id nothing is stored
      refine ⟨x, ?_, by rw [entryLeft, he]; exact (List.append_nil es).symm ▸ hx.1⟩
      rcases bind_eq_error.1 he with hid | ⟨id, hid, he⟩
      · rw [put, Act.on_bind, Act.on_liftOutcome, hid]
      · obtain ⟨d, rfl⟩ := obj_of_idOf hid
        cases he
    · have henter : e.2.enter = .error f := by
        rcases bind_eq_error.1 h with henter | ⟨_, -, h⟩
        · exact henter
        · cases h
      obtain ⟨y, hput, hy, hlinks⟩ := on_put_entry he hx.2
      refine ⟨y, henter ▸ hput, ?_⟩
      rw [entryLeft, he]
      exact hx.1.insert hy hlinks

def reading {β : Type} (read : Value → Outcome β) (grow : Store → β → Store) (v : Value) : Act Store Unit := do
  let b ← Act.ofOutcome (read v)
  modify (grow · b)

theorem takes_reading {β : Type} {P : List β → Store → Prop} {read : Value → Outcome β} {grow : Store → β → Store}
    (hgrow : ∀ {bs x} b, P bs x → P (bs ++ [b]) (grow x b)) :
    Act.Takes P P read (fun _ => []) (reading read grow) where
  ok {v b bs x} hx h := ⟨grow x b, by rw [reading, Act.on_bind, Act.on_ofOutcome, h]; rfl, hgrow b hx⟩
  fault {v f bs x} hx h := ⟨x, by rw [reading, Act.on_bind, Act.on_ofOutcome, h], (List.append_nil bs).symm ▸ hx⟩

theorem Consists.putKey (h : x.Consists es ks []) (k : EdgeKey) : (x.putKey k).Consists es (ks ++ [k]) [] := by
  refine ⟨h.documents, fun j => ?_, h.ledger⟩
  have hput := Edges.contains_foldl_put [k] x.edges j
  rw [List.contains_append, ← h.edges, Bool.or_comm]
  exact hput

theorem Consists.putRow (h : x.Consists es ks rows) (r : LedgerRow) :
    (x.putRow r).Consists es ks (rows ++ [r]) := by
  refine ⟨h.documents, h.edges, ?_⟩
  rw [List.foldl_append, ← h.ledger]
  rfl

/-! ## Loading -/

def sectionOf {β : Type} (data : Value) (name : String) (read : Value → Outcome β) : Outcome (List β) := do
  (← part data name).mapM read

/-- A section that cannot be read to its end: there is none, or a member is at fault. -/
def SectionUpTo {β : Type} (data : Value) (name : String) (read : Value → Outcome β) (left : Value → List β)
    (f : Failure) (bs : List β) : Prop :=
  part data name = .error f ∧ bs = [] ∨ ∃ vs, part data name = .ok vs ∧ UpTo read left vs f bs

/-- Where a load stops, with what it has read by then. -/
inductive Stops (data : Value) : Failure → List (Key × Document) → List EdgeKey → List LedgerRow → Prop
  | inDocuments {f : Failure} {es : List (Key × Document)} :
    SectionUpTo data "symbols" storing entryLeft f es → Stops data f es [] []
  | inEdges {f : Failure} {es : List (Key × Document)} {ks : List EdgeKey} :
    sectionOf data "symbols" storing = .ok es → SectionUpTo data "edges" edgeKey (fun _ => []) f ks →
    Stops data f es ks []
  | inRows {f : Failure} {es : List (Key × Document)} {ks : List EdgeKey} {rows : List LedgerRow} :
    sectionOf data "symbols" storing = .ok es → sectionOf data "edges" edgeKey = .ok ks →
    SectionUpTo data "metadata" LedgerRow.ofValue (fun _ => []) f rows → Stops data f es ks rows

theorem sectionOf_or_upTo {β : Type} (data : Value) (name : String) (read : Value → Outcome β)
    (left : Value → List β) :
    (∃ bs, sectionOf data name read = .ok bs) ∨ ∃ f bs, SectionUpTo data name read left f bs := by
  cases hvs : part data name with
  | error f => exact .inr ⟨f, [], .inl ⟨hvs, rfl⟩⟩
  | ok vs =>
    rcases mapM_or_upTo read left vs with ⟨bs, hbs⟩ | ⟨f, bs, hbs⟩
    · exact .inl ⟨bs, by rw [sectionOf, hvs]; exact hbs⟩
    · exact .inr ⟨f, bs, .inr ⟨vs, hvs, hbs⟩⟩

def takeSection (data : Value) (name : String) (step : Value → Act Store Unit) : Act Store Unit := do
  (← Act.ofOutcome (part data name)).forM step

section

variable {β : Type} {P Q : List β → Store → Prop} {name : String} {read : Value → Outcome β} {left : Value → List β}
  {step : Value → Act Store Unit} {bs : List β}

theorem on_takeSection (h : Act.Takes P Q read left step) (hx : P [] x) (hbs : sectionOf data name read = .ok bs) :
    ∃ y, (takeSection data name step).on x = (.ok (), y) ∧ P bs y := by
  obtain ⟨vs, hvs, hbs⟩ := bind_eq_ok.1 hbs
  obtain ⟨y, hy, hP⟩ := h.all hx hbs
  exact ⟨y, by rw [takeSection, Act.on_bind, Act.on_ofOutcome, hvs]; exact hy, hP⟩

theorem on_takeSection_upTo (h : Act.Takes P Q read left step) (hPQ : ∀ bs x, P bs x → Q bs x) (hx : P [] x)
    (hbs : SectionUpTo data name read left f bs) :
    ∃ y, (takeSection data name step).on x = (.error f, y) ∧ Q bs y := by
  rcases hbs with ⟨hvs, rfl⟩ | ⟨vs, hvs, hbs⟩
  · exact ⟨x, by rw [takeSection, Act.on_bind, Act.on_ofOutcome, hvs], hPQ _ _ hx⟩
  · obtain ⟨y, hy, hQ⟩ := h.upTo hbs hx
    exact ⟨y, by rw [takeSection, Act.on_bind, Act.on_ofOutcome, hvs]; exact hy, hQ⟩

end

theorem load_eq (data : Value) : load data = (do
    set ({} : Store)
    takeSection data "symbols" put
    takeSection data "edges" (reading edgeKey putKey)
    takeSection data "metadata" (reading LedgerRow.ofValue putRow)) := by
  have hlift : (liftM (part data "symbols") : Act Store (List Value)) = Act.ofOutcome (part data "symbols") := by
    cases part data "symbols" <;> rfl
  simp only [load, takeSection, bind_assoc, hlift]
  rfl

theorem hasDocuments_empty : HasDocuments [] {} :=
  ⟨⟨rfl, fun _ => rfl, rfl⟩, fun _ he => absurd he List.not_mem_nil⟩

theorem takes_edges (es : List (Key × Document)) :
    Act.Takes (fun ks x => Consists x es ks []) (fun ks x => x.Consists es ks []) edgeKey (fun _ => [])
      (reading edgeKey putKey) :=
  takes_reading fun k hx => hx.putKey k

theorem takes_rows (es : List (Key × Document)) (ks : List EdgeKey) :
    Act.Takes (fun rows x => Consists x es ks rows) (fun rows x => x.Consists es ks rows)
      LedgerRow.ofValue (fun _ => [])
      (reading LedgerRow.ofValue putRow) :=
  takes_reading fun r hx => hx.putRow r

theorem Stops.on_load (h : Stops data f es ks rows) (s : Store) :
    ∃ t, (load data).on s = (.error f, t) ∧ t.Consists es ks rows := by
  have hset : (set ({} : Store) : Act Store Unit).on s = (.ok (), {}) := rfl
  rw [load_eq, Act.on_bind_ok hset]
  cases h with
  | inDocuments hes =>
    obtain ⟨t, ht, hdone⟩ := on_takeSection_upTo takes_documents (fun _ _ hx => hx.1) hasDocuments_empty hes
    exact ⟨t, by rw [Act.on_bind, ht], hdone⟩
  | inEdges hes hks =>
    obtain ⟨m, hm, hread⟩ := on_takeSection takes_documents hasDocuments_empty hes
    obtain ⟨t, ht, hdone⟩ := on_takeSection_upTo (takes_edges es) (fun _ _ hx => hx) hread.1 hks
    exact ⟨t, by rw [Act.on_bind_ok hm, Act.on_bind, ht], hdone⟩
  | inRows hes hks hrows =>
    obtain ⟨m, hm, hread⟩ := on_takeSection takes_documents hasDocuments_empty hes
    obtain ⟨n, hn, hlinked⟩ := on_takeSection (takes_edges es) hread.1 hks
    obtain ⟨t, ht, hdone⟩ := on_takeSection_upTo (takes_rows es ks) (fun _ _ hx => hx) hlinked hrows
    exact ⟨t, by rw [Act.on_bind_ok hm, Act.on_bind_ok hn, ht], hdone⟩

/-- Data that is read to the end is loaded. -/
theorem on_load_whole (hes : sectionOf data "symbols" storing = .ok es)
    (hks : sectionOf data "edges" edgeKey = .ok ks)
    (hrows : sectionOf data "metadata" LedgerRow.ofValue = .ok rows) (s : Store) :
    ∃ t, (load data).on s = (.ok (), t) ∧ t.Consists es ks rows := by
  have hset : (set ({} : Store) : Act Store Unit).on s = (.ok (), {}) := rfl
  obtain ⟨m, hm, hread⟩ := on_takeSection takes_documents hasDocuments_empty hes
  obtain ⟨n, hn, hlinked⟩ := on_takeSection (takes_edges es) hread.1 hks
  obtain ⟨t, ht, hdone⟩ := on_takeSection (takes_rows es ks) hlinked hrows
  exact ⟨t, by rw [load_eq, Act.on_bind_ok hset, Act.on_bind_ok hm, Act.on_bind_ok hn, ht], hdone⟩

/-- A load that fails leaves just what it read before the fault: whatever the store held, it is
intact only if it held the same. -/
theorem failed_load (h : (load data).on s = (.error f, t)) :
    ∃ es ks rows, Stops data f es ks rows ∧ t.Consists es ks rows ∧ (s.Alike t ↔ s.Consists es ks rows) := by
  have hstops : ∀ {g es ks rows}, Stops data g es ks rows →
      ∃ es ks rows, Stops data f es ks rows ∧ t.Consists es ks rows ∧ (s.Alike t ↔ s.Consists es ks rows) := by
    intro g es ks rows hstops
    obtain ⟨u, hu, hdone⟩ := hstops.on_load s
    obtain ⟨hg, rfl⟩ := Prod.mk.inj (h.symm.trans hu)
    obtain rfl := Except.error.inj hg
    exact ⟨es, ks, rows, hstops, hdone, hdone.alike_iff⟩
  rcases sectionOf_or_upTo data "symbols" storing entryLeft with ⟨es, hes⟩ | ⟨g, es, hes⟩
  · rcases sectionOf_or_upTo data "edges" edgeKey fun _ => [] with ⟨ks, hks⟩ | ⟨g, ks, hks⟩
    · rcases sectionOf_or_upTo data "metadata" LedgerRow.ofValue fun _ => [] with ⟨rows, hrows⟩ | ⟨g, rows, hrows⟩
      · obtain ⟨u, hu, -⟩ := on_load_whole hes hks hrows s
        cases (Prod.mk.inj (h.symm.trans hu)).1
      · exact hstops (.inRows hes hks hrows)
    · exact hstops (.inEdges hes hks)
  · exact hstops (.inDocuments hes)

def broken : Value := .obj [("symbols", .list [Sample.symbolOf "3" "k"]),
  ("edges", .list [.obj [("from", "k"), ("to", "f"), ("type", "BAD")]])]

theorem failed_load_over_contents : ∃ f t, (load broken).on (after {} Sample.changes) = (.error f, t) ∧
    ∃ es ks rows, Stops broken f es ks rows ∧ t.Consists es ks rows ∧
      ((after {} Sample.changes).Alike t ↔ (after {} Sample.changes).Consists es ks rows) :=
  ⟨_, _, rfl, failed_load rfl⟩

/-- Two documents, their edges and two rows are gone for an edge that cannot be read. -/
theorem contents_lost : ¬ ∀ (s t : Store) (data : Value) (f : Failure),
    (load data).on s = (.error f, t) → s.Alike t := by
  intro hall
  have hsame := hall (after {} Sample.changes) _ broken _ rfl
  have hsize : (2 : Nat) = 1 := congrArg OrderedMap.size hsame.documents
  cases hsize

end Store

end Graph

end SourceAtlas
