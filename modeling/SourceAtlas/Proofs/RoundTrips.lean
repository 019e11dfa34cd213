import SourceAtlas.Proofs.Reloading
import SourceAtlas.Proofs.StoreStates

/-!
# Round trips of the graph store

A store is written as its documents, its sorted edges and its rows. Reading
them rebuilds everything else, whatever there was before, and what is written
then is the same. A document can be read back unless storing it failed.
-/

namespace SourceAtlas

open Json (Value Record Key)
open Act (Keeps Secures)

/-! ## Documents under their ids -/

def Document.id (d : Document) : Key := (Document.idOf (.obj d)).toOption.getD .null

/-- Whether a document can be stored where there is none with its id. -/
def Document.Storable (d : Document) : Prop :=
  d.Referable ∧ ∀ repo workspace, d.content? "repo_id" = some repo → d.content? "workspace_id" = some workspace →
    (Key.ofValue? repo).isSome

def Filed (m : OrderedMap Key Document) : Prop :=
  m.KeyedBy Document.id ∧ ∀ e ∈ m.entries, Document.idOf (.obj e.2) = .ok e.2.id

theorem Document.id_eq {d : Document} {id : Key} (h : Document.idOf (.obj d) = .ok id) : d.id = id := by
  rw [Document.id, h]
  rfl

theorem obj_of_idOf {v : Value} {id : Key} (h : Document.idOf v = .ok id) : ∃ d, v = .obj d := by
  cases v with
  | obj d => exact ⟨d, rfl⟩
  | _ => cases h

theorem Filed.empty : Filed .empty := by
  constructor <;> intro e he <;> cases he

theorem Filed.insert {m : OrderedMap Key Document} (h : Filed m) {id : Key} {d : Document}
    (hid : Document.idOf (.obj d) = .ok id) : Filed (m.insert id d) := by
  have hd := Document.id_eq hid
  refine ⟨h.1.insert id (hd ▸ BEq.rfl), fun e he => ?_⟩
  rcases OrderedMap.mem_insert he with he | ⟨hv, -⟩
  · exact h.2 e he
  · rw [hv, hd, hid]

theorem Filed.erase {m : OrderedMap Key Document} (h : Filed m) (id : Key) : Filed (m.erase id) := by
  refine ⟨h.1.filter _, fun e he => ?_⟩
  exact h.2 e (List.mem_filter.1 he).1

namespace Graph.Store

theorem on_put_document {id : Key} {d : Document} (hid : Document.idOf (.obj d) = .ok id) (x : Store) :
    let r := (put (.obj d)).on x
    (r.1 = .ok () ↔ (∀ previous, x.symbols.documents.get? id = some previous → previous.Referable) ∧ d.Storable) ∧
      (r.1 = .ok () → r.2.symbols.documents = x.symbols.documents.insert id d) ∧ SameLinks x r.2 := by
  have hok := Symbols.put_ok_iff id d x.symbols
  have hd : _ → _ := @Symbols.documents_put id d x.symbols
  unfold put inSymbols SameLinks Document.Storable
  rw [hid]
  simp only [Act.on_bind, Act.on_liftOutcome, Act.on_within, asRecord, pure, Except.pure]
  generalize (Symbols.put id d).on x.symbols = r at hok hd
  obtain ⟨o, y⟩ := r
  cases o with
  | error f =>
    refine ⟨⟨fun h => (by cases h), fun h => ?_⟩, fun h => (by cases h), rfl, rfl⟩
    exact absurd (hok.2 ⟨h.1, h.2.1⟩) (by simp)
  | ok u =>
    obtain ⟨hprevious, href⟩ := hok.1 rfl
    have hd := hd rfl
    dsimp only at hd ⊢
    split
    · rename_i repo workspace hcontent
      obtain ⟨hrepo, hworkspace⟩ := Prod.mk.inj hcontent
      rw [Act.on_bind, Act.on_liftOutcome]
      obtain ⟨k, hk, hv⟩ | ⟨hk, f, hv⟩ := asKey_cases repo
      · simpa [hv, hd, href, hrepo, hworkspace, hk] using hprevious
      · simp [hv, hrepo, hworkspace, hk]
    · rename_i hnone
      refine ⟨⟨fun _ => ⟨hprevious, href, fun repo workspace hrepo hworkspace => ?_⟩, fun _ => rfl⟩,
        fun _ => hd, rfl, rfl⟩
      exact absurd (Prod.ext hrepo hworkspace) (hnone repo workspace)

theorem on_putAll_documents :
    ∀ (es : List (Key × Document)) (x : Store), (∀ e ∈ es, Document.idOf (.obj e.2) = .ok e.1) →
    ((x.symbols.documents.entries ++ es).Pairwise fun a b => (a.1 == b.1) = false) →
    let r := (putAll (es.map fun e => .obj e.2)).on x
    (r.1 = .ok () ↔ ∀ e ∈ es, e.2.Storable) ∧
      (r.1 = .ok () → r.2.symbols.documents.entries = x.symbols.documents.entries ++ es) ∧ SameLinks x r.2
  | [], x, _, _ => by
    refine ⟨⟨fun _ e he => absurd he List.not_mem_nil, fun _ => rfl⟩, fun _ => ?_, rfl, rfl⟩
    exact (List.append_nil _).symm
  | e :: es, x, hid, hapart => by
    obtain ⟨hide, hids⟩ := List.forall_mem_cons.1 hid
    obtain ⟨hok, hd, hl⟩ := on_put_document hide x
    have hnew : x.symbols.documents.get? e.1 = none := by
      rw [OrderedMap.get?, Option.map_eq_none_iff, List.find?_eq_none]
      intro a ha hae
      exact Bool.false_ne_true (((List.pairwise_append.1 hapart).2.2 a ha e List.mem_cons_self).symm.trans hae)
    have hentries : (x.symbols.documents.insert e.1 e.2).entries = x.symbols.documents.entries ++ [e] :=
      OrderedMap.entries_insertAll x.symbols.documents [e] (hapart.sublist (by simp))
    simp only [hnew, reduceCtorEq, false_implies, implies_true, true_and] at hok
    simp only [putAll, List.map_cons, Act.on_forM_cons, Act.on_bind, List.forall_mem_cons]
    generalize (put (.obj e.2)).on x = r at hok hd hl ⊢
    obtain ⟨o, y⟩ := r
    cases o with
    | error f => exact ⟨⟨fun h => (by cases h), fun h => hok.2 h.1⟩, fun h => (by cases h), hl⟩
    | ok u =>
      have hy := hd rfl
      dsimp only at hok hy hl ⊢
      have hafter : y.symbols.documents.entries ++ es = x.symbols.documents.entries ++ e :: es := by
        rw [hy, hentries, List.append_assoc]
        rfl
      obtain ⟨ih, ihd, ihl⟩ := on_putAll_documents es y hids (hafter ▸ hapart)
      refine ⟨ih.trans ?_, fun h => (ihd h).trans hafter, ihl.1.trans hl.1, ihl.2.trans hl.2⟩
      simp [hok.1 rfl]

/-! ## What every change keeps -/

def Tidy (x : Store) : Prop := Filed x.symbols.documents ∧ x.ledger.Keyed

theorem Tidy.empty : Tidy {} := ⟨.empty, fun _ he => absurd he List.not_mem_nil⟩

theorem tidy_put (document : Value) : Keeps Tidy (put document) := by
  refine .lift_bind fun id hid => .lift_bind fun d hd => ?_
  obtain ⟨c, rfl⟩ := obj_of_idOf hid
  obtain rfl : c = d := pure_eq_ok.1 hd
  have hput : Keeps (fun x => Filed x.documents) (Symbols.put id c) := Symbols.keeps_put fun m hm => hm.insert hid
  refine .bind (hput.part (fun x hx => hx.1) fun x s hx hs => ⟨hs, hx.2⟩) fun _ => ?_
  split
  · exact .bind (.lift _) fun _ => .modify fun x hx => hx
  · exact .pure _

theorem tidy_drop (p : Document → Bool) : Keeps Tidy (inSymbols (Symbols.drop p)) := by
  have hdrop : Keeps (fun x => Filed x.documents) (Symbols.drop p) :=
    Symbols.keeps_drop (fun m id hm => hm.erase id) p
  exact hdrop.part (fun x hx => hx.1) fun x s hx hs => ⟨hs, hx.2⟩

theorem keyed_filter {l : Ledger} (h : l.Keyed) (p : FileKey → LedgerRow → Bool) : Ledger.Keyed (l.filter p) :=
  OrderedMap.KeyedBy.filter (f := LedgerRow.file) h p

theorem tidy_deleteRepo (repo : Value) : Keeps Tidy (deleteRepo repo) := by
  refine .bind (tidy_drop _) fun refs => .bind (.modify fun x hx => ⟨hx.1, keyed_filter hx.2 _⟩) fun _ => ?_
  exact .bind (.lift _) fun _ => .bind (.modify fun x hx => ⟨hx.1, hx.2⟩) fun _ => .pure _

theorem tidy_load (data : Value) : Keeps Tidy (load data) := by
  refine .bind (.modify fun x _ => .empty) fun _ => .bind (.lift _) fun ds => ?_
  refine .bind (.forM tidy_put ds) fun _ => .bind (.ofOutcome _) fun es => ?_
  refine .bind (.forM (fun v => .bind (.ofOutcome _) fun k => .modify fun x hx => ⟨hx.1, hx.2⟩) es) fun _ => ?_
  refine .bind (.ofOutcome _) fun rows => .forM (fun v => .bind (.ofOutcome _) fun r => ?_) rows
  exact .modify fun x hx => ⟨hx.1, hx.2.put r⟩

theorem Change.tidy (c : Change) : Keeps Tidy c.act := by
  cases c with
  | documents all => exact .forM tidy_put all
  | edges all => exact .forM (fun e => .bind (.lift _) fun k => .modify fun x hx => ⟨hx.1, hx.2⟩) all
  | row r => exact .modify fun x hx => ⟨hx.1, hx.2.put r⟩
  | noRows => exact .modify fun x hx => ⟨hx.1, Tidy.empty.2⟩
  | withoutFile repo path => exact .discard (.bind (tidy_drop _) fun _ => .pure _)
  | withoutRepo repo => exact .discard (tidy_deleteRepo repo)
  | withoutWorkspace workspace =>
    exact .discard (.bind (tidy_drop _) fun refs =>
      .bind (.modify fun x hx => ⟨hx.1, keyed_filter hx.2 _⟩) fun _ => .pure _)
  | clear => exact .modify fun x _ => .empty
  | load data => exact tidy_load data

theorem Tidy.after {x : Store} (h : x.Tidy) (cs : List Change) : (x.after cs).Tidy := by
  induction cs generalizing x with
  | nil => exact h
  | cons c cs ih => exact ih (c.tidy x h)

/-! ## What changes that return secure -/

def AllStorable (x : Store) : Prop := ∀ e ∈ x.symbols.documents.entries, e.2.Storable

theorem storable_put (document : Value) : Secures AllStorable (put document) := by
  intro x y u hx h
  obtain ⟨id, m, hid, -⟩ := Act.bind_ok h
  rw [Act.on_liftOutcome] at hid
  have hid := (Prod.mk.inj hid).1
  obtain ⟨d, rfl⟩ := obj_of_idOf hid
  obtain ⟨hok, hdocuments, -⟩ := on_put_document hid x
  rw [h] at hok hdocuments
  intro e he
  rw [hdocuments rfl] at he
  rcases OrderedMap.mem_insert he with he | ⟨hv, -⟩
  · exact hx e he
  · rw [hv]
    exact (hok.1 rfl).2

theorem storable_drop (p : Document → Bool) : Keeps AllStorable (inSymbols (Symbols.drop p)) := by
  have hdrop : Keeps (fun x => ∀ e ∈ x.documents.entries, e.2.Storable) (Symbols.drop p) :=
    Symbols.keeps_drop (P := fun m => ∀ e ∈ m.entries, e.2.Storable)
      (fun m id hm e he => hm e (List.mem_filter.1 he).1) p
  exact hdrop.part (fun x hx => hx) fun x s _ hs => hs

theorem storable_load (data : Value) : Secures AllStorable (load data) := by
  have hempty : Keeps AllStorable (set ({} : Store)) := .modify fun x _ e he => absurd he List.not_mem_nil
  refine hempty.secures.bind fun _ => (Keeps.lift _).secures.bind fun ds => ?_
  refine (Secures.forM storable_put ds).bind fun _ => Keeps.secures (.bind (.ofOutcome _) fun es => ?_)
  refine .bind (.forM (fun v => .bind (.ofOutcome _) fun k => .modify fun x hx => ?_) es) fun _ => ?_
  · exact hx
  · refine .bind (.ofOutcome _) fun rows =>
      .forM (fun v => .bind (.ofOutcome _) fun r => .modify fun x hx => ?_) rows
    exact hx

theorem Change.storable (c : Change) : Secures AllStorable c.act := by
  cases c with
  | documents all => exact .forM storable_put all
  | load data => exact storable_load data
  | edges all =>
    refine Keeps.secures (.forM (fun e => .bind (.lift _) fun k => .modify fun x hx => ?_) all)
    exact hx
  | row r => exact Keeps.secures (.modify fun x hx => hx)
  | noRows => exact Keeps.secures (.modify fun x hx => hx)
  | withoutFile repo path => exact Keeps.secures (.discard (.bind (storable_drop _) fun _ => .pure _))
  | withoutRepo repo =>
    refine Keeps.secures (.discard (.bind (storable_drop _) fun refs => .bind (.modify fun x hx => ?_) fun _ => ?_))
    · exact hx
    · exact .bind (.lift _) fun _ => .bind (.modify fun x hx => hx) fun _ => .pure _
  | withoutWorkspace workspace =>
    refine Keeps.secures (.discard
      (.bind (storable_drop _) fun refs => .bind (.modify fun x hx => ?_) fun _ => .pure _))
    exact hx
  | clear => exact Keeps.secures (.modify fun x _ e he => absurd he List.not_mem_nil)

/-- Whether each change returns on the store that those before it lead to. -/
def Serves (x : Store) : List Change → Prop
  | [] => True
  | c :: cs => (c.act.on x).1 = .ok () ∧ Serves (c.act.on x).2 cs

theorem AllStorable.after {x : Store} (h : x.AllStorable) {cs : List Change} (hcs : x.Serves cs) :
    (x.after cs).AllStorable := by
  induction cs generalizing x with
  | nil => exact h
  | cons c cs ih => exact ih (c.storable x _ () h (eq_of_fst hcs.1)) hcs.2

/-! ## Writing and reading -/

theorem load_parts {data : Value} {es : List (Key × Document)} {ks : List EdgeKey} {rows : List LedgerRow}
    (hsymbols : part data "symbols" = .ok (es.map fun e => .obj e.2))
    (hedges : part data "edges" = .ok (ks.map fun k => .obj (keyRecord k)))
    (hrows : part data "metadata" = .ok (rows.map LedgerRow.toValue))
    (hid : ∀ e ∈ es, Document.idOf (.obj e.2) = .ok e.1) (hapart : es.Pairwise fun a b => (a.1 == b.1) = false)
    (y : Store) :
    ((∃ z, (load data).on y = (.ok (), z)) ↔ ∀ e ∈ es, e.2.Storable) ∧
      ∀ z, (load data).on y = (.ok (), z) →
        z.symbols.documents.entries = es ∧ z.edges = ks.foldl Edges.put {} ∧
        z.ledger = rows.foldl Ledger.put .empty := by
  have hset : (set ({} : Store) : Act Store Unit).on y = (.ok (), {}) := rfl
  obtain ⟨hok, hread, hlinks⟩ := on_putAll_documents es {} hid hapart
  simp only [load, Act.on_bind, hset, Act.on_liftOutcome, hsymbols]
  generalize (putAll (es.map fun e => .obj e.2)).on {} = r at hok hread hlinks
  obtain ⟨o, m⟩ := r
  cases o with
  | error f =>
    constructor
    · constructor
      · rintro ⟨z, h⟩
        cases h
      · intro h
        exact absurd (hok.2 h) (by simp)
    · intro z h
      cases h
  | ok u =>
    simp only [Act.on_ofOutcome, hedges, on_readEdges, hrows, on_readRows]
    refine ⟨⟨fun _ => hok.1 rfl, fun _ => ⟨_, rfl⟩⟩, fun z h => ?_⟩
    obtain ⟨-, rfl⟩ := Prod.mk.inj h
    exact ⟨hread rfl, by rw [hlinks.1], by rw [hlinks.2]⟩

structure Copied (x z : Store) : Prop where
  documents : z.symbols.documents.entries = x.symbols.documents.rekeyed Document.id
  edges : ∃ ks, x.edges.sorted = .ok ks ∧ z.edges = ks.foldl Edges.put {}
  ledger : z.ledger = x.ledger.values.foldl Ledger.put .empty

theorem load_written {x : Store} {data : Record} (h : Filed x.symbols.documents)
    (hdata : x.toRecord = .ok data) (y : Store) :
    ((∃ z, (load (.obj data)).on y = (.ok (), z)) ↔ x.AllStorable) ∧
      ∀ z, (load (.obj data)).on y = (.ok (), z) → Copied x z := by
  obtain ⟨ks, hsorted, hrecord⟩ := bind_eq_ok.1 hdata
  obtain rfl := pure_eq_ok.1 hrecord
  have hid : ∀ e ∈ x.symbols.documents.rekeyed Document.id, Document.idOf (.obj e.2) = .ok e.1 := by
    intro e he
    obtain ⟨f, hf, rfl⟩ := List.mem_map.1 he
    exact h.2 f hf
  have hvalues : (x.symbols.documents.rekeyed Document.id).map (fun e => Value.obj e.2) =
      x.symbols.documents.values.map .obj := by
    rw [← OrderedMap.map_snd_rekeyed _ Document.id, List.map_map]
    rfl
  generalize hparts : Value.obj [("symbols", .list (x.symbols.documents.values.map .obj)),
    ("edges", .list (ks.map fun k => .obj (keyRecord k))),
      ("metadata", .list (x.ledger.values.map LedgerRow.toValue))] = parts
  have hsymbols : part parts "symbols" = .ok ((x.symbols.documents.rekeyed Document.id).map fun e => .obj e.2) := by
    rw [hvalues, ← hparts]
    rfl
  have hedges : part parts "edges" = .ok (ks.map fun k => .obj (keyRecord k)) := hparts ▸ rfl
  have hrows : part parts "metadata" = .ok (x.ledger.values.map LedgerRow.toValue) := hparts ▸ rfl
  obtain ⟨hok, hread⟩ := load_parts hsymbols hedges hrows hid h.1.distinct y
  refine ⟨hok.trans List.forall_mem_map, fun z hz => ?_⟩
  obtain ⟨hdocuments, hedges, hledger⟩ := hread z hz
  exact ⟨hdocuments, ⟨ks, hsorted, hedges⟩, hledger⟩

/-- A store that answers as another one does: by id, by name, by file and by type of edge. -/
structure AnswersAs (z x : Store) : Prop where
  documents : z.symbols.documents.Agrees x.symbols.documents
  symbol : ∀ id, (x.symbols.documents.get? id).isSome → z.symbols.get? id = x.symbols.get? id
  called : ∀ workspace name, z.symbols.called workspace name = x.symbols.called workspace name
  unchanged : ∀ repo path hash, z.ledger.unchanged? repo path hash = x.ledger.unchanged? repo path hash
  row : ∀ file, z.ledger.get? file = x.ledger.get? file
  ends : ∀ type p, (z.edges.ofType type).contains p = (x.edges.ofType type).contains p

namespace Copied

variable {x z : Store} (h : Copied x z)

include h

theorem values : z.symbols.documents.values = x.symbols.documents.values := by
  rw [OrderedMap.values, h.documents, OrderedMap.map_snd_rekeyed]

theorem keys (hx : x.Linked) :
    ∃ ks : List EdgeKey, x.edges.sorted = .ok ks ∧ ks.Perm x.edges.keys ∧ z.edges.keys = ks := by
  obtain ⟨ks, hsorted, hedges⟩ := h.edges
  have hperm : ks.Perm x.edges.keys := sortChecked_perm hsorted
  have hdistinct : Distinct ks := hperm.symm.pairwise hx.distinct fun {j k} hjk => by rwa [BEq.comm]
  refine ⟨ks, hsorted, hperm, ?_⟩
  rw [hedges]
  exact Edges.keys_foldl_put ks {} hdistinct

theorem toRecord_eq (hx : x.Linked) (hledger : x.ledger.Keyed) (hplaced : ∀ k ∈ x.edges.keys, Placed k) :
    z.toRecord = x.toRecord := by
  obtain ⟨ks, hsorted, -, hkeys⟩ := h.keys hx
  have hsorted' : z.edges.sorted = .ok ks := by
    rw [Edges.sorted, hkeys]
    exact keyLe_orders.sortChecked_sorted hplaced hsorted
  have hrows : z.ledger.values = x.ledger.values := by
    rw [h.ledger]
    exact hledger.reread.1
  rw [toRecord, toRecord, hsorted, hsorted', h.values, hrows]

theorem answersAs (hx : x.Linked) (htidy : x.Tidy) : z.AnswersAs x := by
  obtain ⟨ks, -, hperm, hkeys⟩ := h.keys hx
  have hz : z.Linked := by
    obtain ⟨_, _, hedges⟩ := h.edges
    rw [Linked, hedges]
    exact Edges.Sound.empty.foldl_put _
  have hdocuments := htidy.1.1.agrees h.documents
  have hrows : z.ledger.Agrees x.ledger := by
    rw [h.ledger]
    exact htidy.2.reread.2
  refine ⟨hdocuments, fun id hid => ?_, fun workspace name => ?_, fun repo path hash => ?_, hrows, fun type p => ?_⟩
  · obtain ⟨d, hd⟩ := Option.isSome_iff_exists.1 hid
    rw [Symbols.get?, Symbols.get?, hdocuments id, hd]
  · rw [Symbols.called, Symbols.called, h.values]
  · rw [Ledger.unchanged?, Ledger.unchanged?, hrows]
  · rw [hz.contains_ofType, hx.contains_ofType, hkeys, Bool.eq_iff_iff, List.contains_iff_exists_mem_beq,
      List.contains_iff_exists_mem_beq]
    simp only [hperm.mem_iff]

end Copied

/-- However a store came about, reading what was written of it gives a store that writes the same
and answers alike. Only documents that could not be stored cannot be read. -/
theorem round_trip (cs : List Change) (y : Store) (hplaced : ∀ k ∈ (after {} cs).edges.keys, Placed k) :
    let x := after {} cs
    ((∀ k ∈ x.edges.keys, ∃ source target, k.1 = .str source ∧ k.2.1 = .str target) → ∃ data,
      x.toRecord = .ok data) ∧
      ∀ data, x.toRecord = .ok data →
        ((∃ z, (load (.obj data)).on y = (.ok (), z)) ↔ x.AllStorable) ∧
        (Serves {} cs → ∃ z, (load (.obj data)).on y = (.ok (), z)) ∧
        ∀ z, (load (.obj data)).on y = (.ok (), z) → z.toRecord = .ok data ∧ z.AnswersAs x := by
  intro x
  have hlinked : x.Linked := .after .empty cs
  have htidy : x.Tidy := Tidy.after ⟨.empty, fun e he => absurd he List.not_mem_nil⟩ cs
  constructor
  · intro htexts
    have hsorted : x.edges.sorted = .ok (x.edges.keys.mergeSort keyLe) := by
      refine sortChecked_ok fun j hj k hk => ?_
      obtain ⟨s, t, hs, ht⟩ := htexts j hj
      obtain ⟨s', t', hs', ht'⟩ := htexts k hk
      simp [keyComparable, pairComparable, hs, ht, hs', ht', Key.comparable, Key.rank]
    rw [toRecord, hsorted]
    exact ⟨_, rfl⟩
  · intro data hdata
    obtain ⟨hok, hcopied⟩ := load_written htidy.1 hdata y
    refine ⟨hok, fun hcs => hok.2 (AllStorable.after (fun e he => absurd he List.not_mem_nil) hcs), fun z hz => ?_⟩
    have hz := hcopied z hz
    exact ⟨(hz.toRecord_eq hlinked htidy.2 hplaced).trans hdata, hz.answersAs hlinked htidy⟩

end Graph.Store

namespace Sample

open SourceAtlas.Graph (LedgerRow)
open SourceAtlas.Graph.Store (Change)

def symbolOf (id name : String) : Value :=
  .obj [("id", id), ("symbol_ref", name), ("symbol_name", name), ("repo_id", "r"), ("file_path", "a.py"),
  ("workspace_id", "w")]

def arrow (source target : String) (h : Value.truthy source := by decide) (h' : Value.truthy target := by decide) :
    Edge :=
  ⟨source, target, .calls, 1.0, h, h'⟩

def rowOf (path : String) : LedgerRow := ⟨.str "r", .str path, "hash", .int 1, .int 1, "python", .int 1⟩

def changes : List Change :=
  [.documents [symbolOf "1" "f", symbolOf "2" "g"], .documents [symbolOf "1" "h"],
    .edges [arrow "g" "f", arrow "f" "g"], .row (rowOf "b.py"), .row (rowOf "a.py"), .withoutFile "s" "a.py"]

def otherChanges : List Change := [.documents [symbolOf "3" "k"], .row (rowOf "c.py")]

end Sample

namespace Graph.Store

theorem round_trip_over_other_contents :
    ∃ data z, (after {} Sample.changes).toRecord = .ok data ∧
      (load (.obj data)).on (after {} Sample.otherChanges) = (.ok (), z) ∧
      z.toRecord = .ok data ∧ z.AnswersAs (after {} Sample.changes) := by
  obtain ⟨hreturns, hdata⟩ := round_trip Sample.changes (after {} Sample.otherChanges) (by decide +kernel)
  obtain ⟨data, hwritten⟩ := hreturns fun k hk => by
    have hkeys : (after {} Sample.changes).edges.keys =
        [(.str "g", .str "f", .calls), (.str "f", .str "g", .calls)] := rfl
    rw [hkeys] at hk
    simp only [List.mem_cons, List.not_mem_nil, or_false] at hk
    obtain rfl | rfl := hk <;> exact ⟨_, _, rfl, rfl⟩
  obtain ⟨-, hserves, hread⟩ := hdata data hwritten
  obtain ⟨z, hz⟩ := hserves ⟨rfl, rfl, rfl, rfl, rfl, rfl, trivial⟩
  exact ⟨data, z, hwritten, hz, hread z hz⟩

end Graph.Store

end SourceAtlas
