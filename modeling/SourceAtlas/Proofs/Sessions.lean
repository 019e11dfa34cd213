import SourceAtlas.Proofs.Restarts

/-!
# Sessions of indexing and restarts

An atlas that persists is started, indexes, is closed and is started again on
the snapshots that are still there. What a part holds after that follows from
what was stored and what was kept.
-/

namespace SourceAtlas

open Json (Value Key)
open Act (Keeps)

/-! ## What storing keeps up to date -/

namespace Search.VectorIndex

theorem keeps_put {es : List (Key × VectorPoint)} (hid : ∀ e ∈ es, asKey e.2.id = .ok e.1) :
    Keeps (fun x => x.table = none) (put (es.map Prod.snd)) := by
  induction es with
  | nil =>
    intro x _
    rfl
  | cons e es ih =>
    obtain ⟨hid, hids⟩ := List.forall_mem_cons.1 hid
    intro x hx
    rw [List.map_cons, on_put_cons _ x hid]
    split
    · exact ih hids _ hx
    · exact hx

theorem keeps_delete (p : Document → Bool) : Keeps (fun x => x.table = none) (delete p) := by
  intro x hx
  show (if _ then x.table else none) = none
  rw [hx, ite_self]

end Search.VectorIndex

namespace Atlas

variable {a b c : Atlas} {y : Index.Yield}

structure Fresh (a : Atlas) : Prop where
  counted : a.texts.Counted
  table : a.vectors.table = none
  parameters : a.texts.k1 = a.plan.k1 ∧ a.texts.b = a.plan.b

theorem keeps_serving (P : Atlas → Prop) (op : Operation) : Keeps P (serving op) := by
  intro a ha
  rw [on_serving]
  exact ha

theorem keeps_inStore {α : Type} (x : Act Graph.Store α) : Keeps Fresh (inStore x) :=
  .within x fun _ _ h => ⟨h.counted, h.table, h.parameters⟩

theorem keeps_inVectors {α : Type} {x : Act Search.VectorIndex α} (hx : Keeps (fun x => x.table = none) x) :
    Keeps Fresh (inVectors x) := by
  intro a ha
  exact ⟨ha.counted, hx a.vectors ha.table, ha.parameters⟩

theorem keeps_addTexts (documents : List Value) : Keeps Fresh (addTexts documents) := by
  refine .bind (keeps_serving _ _) fun _ a ha => ?_
  obtain ⟨hk1, hb⟩ := Search.TextIndex.parameters_addAll documents a.texts
  refine ⟨?_, ha.table, hk1.trans ha.parameters.1, hb.trans ha.parameters.2⟩
  exact Search.TextIndex.keeps_addAll (fun x id d hx => hx.add id d) documents a.texts ha.counted

/-- What dropping the entries of a file keeps is kept when they are dropped or left. -/
theorem keeps_removeStale {P : Atlas → Prop} (row : Graph.LedgerRow) (h : Keeps P (dropFile row.file)) :
    Keeps P (removeStale row) := by
  intro a ha
  rw [on_removeStale]
  split
  · exact ha
  · split
    · exact h a ha
    · exact ha

theorem keeps_dropFile (file : FileKey) : Keeps Fresh (dropFile file) := by
  refine .bind (.discard (.bind (keeps_serving _ _) fun _ => keeps_inStore _)) fun _ => ?_
  refine .bind (.discard (.bind (keeps_serving _ _) fun _ => keeps_inVectors (Search.VectorIndex.keeps_delete _)))
    fun _ => ?_
  exact .bind (keeps_serving _ _) fun _ => .modify fun a ha => ⟨ha.counted.delete _, ha.table, ha.parameters⟩

theorem keeps_together {P : Atlas → Prop} {xs : List (Act Atlas Unit)} (h : ∀ x ∈ xs, Keeps P x) :
    Keeps P (together xs) :=
  .bind (.mapM_attempt h) fun _ => .forM (fun _ => .ofOutcome _) _

theorem keeps_writeChunks (cs : List Chunk) (vs : List Search.Components) : Keeps Fresh (writeChunks cs vs) := by
  unfold writeChunks
  split
  · exact .pure _
  · apply keeps_together
    simp only [List.forall_mem_cons]
    refine ⟨?_, ?_, keeps_addTexts _, fun x hx => absurd hx List.not_mem_nil⟩
    · rw [← map_snd_pointEntries]
      exact .bind (keeps_serving _ _) fun _ =>
        keeps_inVectors (Search.VectorIndex.keeps_put (asKey_of_mem_pointEntries cs vs))
    · exact .bind (keeps_serving _ _) fun _ => keeps_inStore _

theorem keeps_storeChunks (cs : List Chunk) (vs : List Search.Components) (rows : List Graph.LedgerRow) :
    Keeps Fresh (storeChunks cs vs rows) := by
  intro a ha
  rw [on_storeChunks]
  refine Keeps.bind (.forM (fun r => keeps_removeStale r (keeps_dropFile r.file)) rows)
    (fun _ => .bind (keeps_writeChunks cs vs) fun _ => ?_) a ha
  refine .forM (fun r => .bind (keeps_serving _ _) fun _ => ?_) rows
  exact .modify fun a ha => ⟨ha.counted, ha.table, ha.parameters⟩

theorem keeps_storeEdges (es : List Edge) : Keeps Fresh (storeEdges es) := by
  intro a ha
  obtain ⟨-, -, ⟨engine, edges, hend⟩, -⟩ := storeEdges_on es a
  rw [hend]
  exact ⟨ha.counted, ha.table, ha.parameters⟩

theorem keeps_persist (y : Index.Yield) : Keeps Fresh (persist y) :=
  .bind .get fun _ => .bind (.ofOutcome _) fun _ => .bind (keeps_storeChunks _ _ _) fun _ => keeps_storeEdges _

theorem lengthAfter_eq_null {dimensions : Value} {es : List (Key × Search.VectorPoint)}
    (h : Search.VectorIndex.lengthAfter dimensions es = .null) : dimensions = .null := by
  cases es with
  | nil => exact h
  | cons e es =>
    cases dimensions with
    | null => rfl
    | _ => cases h

/-- Storing what files yield leaves an atlas that can be closed and started again. -/
theorem Running.persist (h : Running a) (hy : ∀ e ∈ y.edges, ∃ k, e.key = .ok k ∧ Graph.Usual k)
    (hp : (persist y).on a = (.ok (), b)) : Running b := by
  have hfresh := keeps_persist y a ⟨h.counted, h.table, h.parameters⟩
  rw [hp] at hfresh
  obtain ⟨vs, hvs, hpersistable, hb⟩ := of_persist hp
  have hedges : b.store.edges = (keysOf y.edges).foldl Graph.Edges.put a.store.edges :=
    hb.edges.trans (edgesWith_eq y.edges a.store.edges)
  have hkeys : ∀ k ∈ keysOf y.edges, Graph.Usual k := by
    intro k hk
    obtain ⟨e, he, hek⟩ := List.mem_filterMap.1 hk
    obtain ⟨j, hj, husual⟩ := hy e he
    rw [hj] at hek
    exact Option.some.inj hek ▸ husual
  refine { documents := ?_, points := ?_, texts := ?_, counted := hfresh.counted, rows := ?_, table := hfresh.table,
           dimensions := ?_, parameters := hfresh.parameters, sound := ?_, usual :=
           ?_, mirrored := ?_, plain := ?_ }
  · rw [hb.symbols]
    exact (h.documents.keep _).insertAll _
  · rw [hb.points]
    exact (h.points.keep _).insertAll _ _
  · rw [hb.texts]
    exact (h.texts.keep _).insertAll _
  · rw [hb.ledger]
    exact h.rows.foldl_put _
  · rw [hb.dimensions, hb.plan]
    exact fun hnull => h.dimensions (lengthAfter_eq_null hnull)
  · rw [hedges]
    exact h.sound.foldl_put _
  · rw [hedges]
    exact usual_foldl_put hkeys h.usual
  · refine ⟨?_, ?_, ?_⟩
    · rw [hb.engine, ready_linkAll]
      exact h.mirrored.ready
    · rw [hedges]
      exact h.sound.foldl_put _
    · rw [hb.engine]
      refine (h.mirrored.holds.linkAll hpersistable.keyed).congr fun k => ?_
      rw [hedges, Graph.Edges.contains_foldl_put, Bool.or_assoc]
  · rw [hb.engine]
    exact Graph.Engine.plain_linkAll hy h.plain

theorem Running.elsewhere (h : Running a) (disk : Disk) (faults : List (Operation × Failure)) :
    Running { a with disk, faults } where
  toRegular := ⟨h.documents, h.points, h.texts, h.counted, h.rows, h.table, h.dimensions,
    h.parameters, h.sound, h.usual⟩
  mirrored := ⟨h.mirrored.ready, h.sound, h.mirrored.holds⟩
  plain := h.plain

/-! ## What calls of indexing store -/

variable {parse : Parser} {o : Origin} {text : String}

inductive Indexes : Atlas → Index.Yield → Atlas → Prop
  | text {a b : Atlas} {parse : Parser} {o : Origin} {text : String} {keep : Bool} {x : Index.FileResult}
      (hok : (indexText parse o text keep).on a = (.ok x, b)) : Indexes a (if keep then x.yield else {}) b
  | file {a b : Atlas} {parse : Parser} {directory : Text.Path} {o : Origin} {keep : Bool} {x : Index.FileResult}
      (hok : (indexFile parse directory o keep).on a = (.ok x, b)) : Indexes a (if keep then x.yield else {}) b
  | repository {a b : Atlas} {parse : Parser} {r : Index.Repository} {workspace : Value} {mode : Index.IndexMode}
      {keep : Bool} {cancelAfter : Option Nat} {report : Index.Report}
      (hok : (indexRepository parse r workspace mode keep cancelAfter).on a = (.ok report, b)) :
      Indexes a (if keep then report.yield else {}) b
  | job {s t : Service} {parse : Parser} {workspace id : Value} {cancelAfter : Option Nat} {report : Index.Report}
      (hok : (Service.runJob (.usual parse workspace cancelAfter) id).on s = (.ok report, t)) :
      Indexes s.atlas report.yield t.atlas

/-- What files yield replaces any rows of theirs, and has edges as files yield them. -/
structure Fits (a : Atlas) (y : Index.Yield) : Prop where
  rows : ∀ r ∈ y.rows, stale a.store.ledger r = (a.store.ledger.get? r.file).isSome
  edges : ∀ e ∈ y.edges, ∃ k, e.key = .ok k ∧ Graph.Usual k

theorem Fits.empty (a : Atlas) : Fits a {} where
  rows r hr := by cases hr
  edges e he := by cases he

theorem Fits.append {x y : Index.Yield} (hx : Fits a x) (hy : Fits a y) : Fits a (x.append y) where
  rows r hr := (List.mem_append.1 hr).elim (hx.rows r) (hy.rows r)
  edges e he := (List.mem_append.1 he).elim (hx.edges e) (hy.edges e)

theorem fits_of_examine {x : Index.FileResult} (h : a.examine parse o text = .ok x) : Fits a x.yield := by
  cases x with
  | indexed language y =>
    obtain ⟨row, hrows, -, -, -, -, hstale⟩ := row_of_examine h
    obtain ⟨-, -, hy⟩ := examine_indexed h
    refine ⟨fun r hr => ?_, usual_of_analyse hy⟩
    rw [Index.FileResult.yield, hrows] at hr
    exact List.mem_singleton.1 hr ▸ hstale
  | _ => exact .empty a

/-! ## What calls yield -/

section
variable {P : Index.Yield → Prop}

theorem forall_yieldOf (hnone : P {}) (happend : ∀ x y, P x → P y → P (x.append y))
    {files : List (String × Outcome Index.FileResult)} (h : ∀ f ∈ files, ∀ x, f.2 = .ok x → P x.yield) :
    P (yieldOf files) := by
  induction files with
  | nil => exact hnone
  | cons f files ih =>
    obtain ⟨path, x⟩ := f
    obtain ⟨hfirst, hrest⟩ := List.forall_mem_cons.1 h
    cases x with
    | error f => exact ih hrest
    | ok x =>
      rw [yieldOf_ok]
      exact happend _ _ (hfirst x rfl) (ih hrest)

/-- What holds of what each file yields holds of what a repository yields. -/
theorem forall_of_surveyed {r : Index.Repository} {workspace : Value} {mode : Index.IndexMode}
    {cancelAfter : Option Nat}
    {report : Index.Report} (hnone : P {}) (happend : ∀ x y, P x → P y → P (x.append y))
    (hfile : ∀ commit path text x, a.examine parse (originIn r workspace commit path) text = .ok x → P x.yield)
    (h : a.surveyed parse r workspace mode cancelAfter = .ok report) : P report.yield := by
  obtain ⟨files, -, rfl⟩ := eq_of_surveyed h
  rw [Index.Report.yield_ofFiles]
  apply forall_yieldOf hnone happend
  intro f hf x hx
  obtain ⟨path, -, rfl⟩ := List.mem_map.1 hf
  obtain ⟨text, -, hx⟩ := bind_eq_ok.1 hx
  exact hfile _ path text x hx

end

theorem fits_of_surveyed {r : Index.Repository} {workspace : Value} {mode : Index.IndexMode}
    {cancelAfter : Option Nat}
    {report : Index.Report} (h : a.surveyed parse r workspace mode cancelAfter = .ok report) :
    Fits a report.yield :=
  forall_of_surveyed (.empty a) (fun _ _ => .append) (fun _ _ _ _ => fits_of_examine) h

theorem examine_of_indexText {keep : Bool} {x : Index.FileResult}
    (h : (indexText parse o text keep).on a = (.ok x, b)) : a.examine parse o text = .ok x := by
  obtain ⟨_, _, hget, h⟩ := Act.bind_ok h
  cases hget
  obtain ⟨z, m, hread, h⟩ := Act.bind_ok h
  obtain ⟨hz, rfl⟩ := Act.of_ofOutcome hread
  rw [hz]
  cases z with
  | indexed language y =>
    cases keep with
    | true =>
      obtain ⟨_, _, -, h⟩ := Act.bind_ok h
      exact (Prod.mk.inj h).1
    | false => exact (Prod.mk.inj h).1
  | _ => exact (Prod.mk.inj h).1

theorem persist_of_indexText {keep : Bool} {x : Index.FileResult}
    (h : (indexText parse o text keep).on a = (.ok x, b)) :
    Fits a (if keep then x.yield else {}) ∧ (persist (if keep then x.yield else {})).on a = (.ok (), b) := by
  cases keep with
  | false =>
    obtain ⟨_, _, hget, h⟩ := Act.bind_ok h
    cases hget
    obtain ⟨z, m, hz, h⟩ := Act.bind_ok h
    obtain ⟨-, rfl⟩ := Act.of_ofOutcome hz
    refine ⟨.empty a, ?_⟩
    cases z <;> (obtain ⟨-, rfl⟩ := Prod.mk.inj h; exact on_persist_nil a)
  | true =>
    obtain ⟨hx, ⟨hskip, rfl⟩ | ⟨language, y, rfl, hp⟩⟩ := of_indexText h
    · refine ⟨fits_of_examine hx, ?_⟩
      cases x with
      | indexed language y => exact absurd rfl (hskip language y)
      | _ => exact on_persist_nil b
    · exact ⟨fits_of_examine hx, hp⟩

/-- Every call that succeeds stores what files yield. -/
theorem persist_of_indexes (h : Indexes a y b) : Fits a y ∧ (persist y).on a = (.ok (), b) := by
  cases h with
  | text hok => exact persist_of_indexText hok
  | file hok =>
    obtain ⟨path, m, hpath, hok⟩ := Act.bind_ok hok
    obtain ⟨-, rfl⟩ := Act.of_ofOutcome hpath
    obtain ⟨_, _, hget, hok⟩ := Act.bind_ok hok
    cases hget
    obtain ⟨text, m, htext, hok⟩ := Act.bind_ok hok
    obtain ⟨-, rfl⟩ := Act.of_ofOutcome htext
    exact persist_of_indexText hok
  | @repository _ _ parse r workspace mode keep cancelAfter report hok =>
    obtain ⟨hsurvey, hpersist⟩ := of_indexRepository hok
    cases keep with
    | false =>
      obtain ⟨-, rfl⟩ := Prod.mk.inj hpersist
      exact ⟨.empty a, on_persist_nil a⟩
    | true => exact ⟨fits_of_surveyed hsurvey, hpersist⟩
  | job hok =>
    obtain ⟨key, job, repo, r, -, -, -, -, hrun⟩ := Service.of_runJob hok
    rw [Stages.usual_run] at hrun
    obtain ⟨hsurvey, hpersist⟩ := persist_of_indexRepository hrun
    exact ⟨fits_of_surveyed hsurvey, hpersist⟩

/-- What holds of what each file yields holds of what any call stores. -/
theorem Indexes.forall {P : Index.Yield → Prop} (hnone : P {}) (happend : ∀ x y, P x → P y → P (x.append y))
    (hfile : ∀ parse o text x, a.examine parse o text = .ok x → P x.yield) (h : Indexes a y b) : P y := by
  have hkept : ∀ {keep : Bool} {z : Index.Yield}, P z → P (if keep then z else {}) := by
    intro keep z hz
    cases keep
    · exact hnone
    · exact hz
  have hrepo : ∀ {parse : Parser} {r : Index.Repository} {workspace : Value} {mode : Index.IndexMode}
      {cancelAfter : Option Nat} {report : Index.Report},
      a.surveyed parse r workspace mode cancelAfter = .ok report → P report.yield :=
    forall_of_surveyed hnone happend fun _ _ _ => hfile _ _ _
  cases h with
  | text hok => exact hkept (hfile _ _ _ _ (examine_of_indexText hok))
  | file hok =>
    obtain ⟨path, m, hpath, hok⟩ := Act.bind_ok hok
    obtain ⟨-, rfl⟩ := Act.of_ofOutcome hpath
    obtain ⟨_, _, hget, hok⟩ := Act.bind_ok hok
    cases hget
    obtain ⟨text, m, htext, hok⟩ := Act.bind_ok hok
    obtain ⟨-, rfl⟩ := Act.of_ofOutcome htext
    exact hkept (hfile _ _ _ _ (examine_of_indexText hok))
  | repository hok => exact hkept (hrepo (of_indexRepository hok).1)
  | job hok =>
    obtain ⟨key, job, repo, r, -, -, -, -, hrun⟩ := Service.of_runJob hok
    rw [Stages.usual_run] at hrun
    exact hrepo (persist_of_indexRepository hrun).1

end Atlas

/-! ## What parts hold in the end -/

inductive Turn where
  | stored (yield : Index.Yield)
  /-- The snapshots of some parts were found again. -/
  | restarted (kept : Part → Bool)

def recorded : List Turn → FileKey → Bool
  | [], _ => false
  | .stored y :: ts, file => y.rows.any (·.file == file) || recorded ts file
  | .restarted kept :: ts, file => (kept .symbols && (kept .vectors && kept .texts)) && recorded ts file

def storeChunk (cs : List Chunk) (c : Chunk) : List Chunk := cs.filter (·.id != c.id) ++ [c]

/-- Whether a chunk outlasts the storing of files: it goes if its file is one of them and has a row. -/
def outlasts (ts : List Turn) (y : Index.Yield) (c : Chunk) : Bool :=
  !(y.rows.any (·.file == c.file) && recorded ts c.file)

def remains (part : Part) : List Turn → List Chunk
  | [] => []
  | .stored y :: ts => y.chunks.foldl storeChunk ((remains part ts).filter (outlasts ts y))
  | .restarted kept :: ts => if kept part then remains part ts else []

/-- Whether a map holds chunks as a part has them, each under its id, and nothing else. -/
def Lists (part : Part) (m : OrderedMap Key Document) (cs : List Chunk) : Prop :=
  ∀ k d, m.get? k = some d ↔ ∃ c ∈ cs, k = c.key ∧ d = part.document c

section
variable {part : Part} {m n : OrderedMap Key Document} {cs : List Chunk}

theorem Lists.empty (part : Part) : Lists part .empty [] := by
  intro k d
  constructor
  · intro h
    cases h
  · rintro ⟨c, hc, -⟩
    cases hc

theorem Lists.congr (h : Lists part m cs) (hagrees : n.Agrees m) : Lists part n cs := by
  intro k d
  rw [hagrees k, h k d]

theorem Lists.keep (h : Lists part m cs) {p : Document → Bool} {q : Chunk → Bool}
    (hpq : ∀ c ∈ cs, p (part.document c) = q c) : Lists part (m.keep p) (cs.filter q) := by
  intro k d
  rw [OrderedMap.get?_keep, Option.filter_eq_some_iff, h k d]
  constructor
  · rintro ⟨⟨c, hc, rfl, rfl⟩, hp⟩
    exact ⟨c, List.mem_filter.2 ⟨hc, hpq c hc ▸ hp⟩, rfl, rfl⟩
  · rintro ⟨c, hc, rfl, rfl⟩
    obtain ⟨hc, hq⟩ := List.mem_filter.1 hc
    exact ⟨⟨c, hc, rfl, rfl⟩, (hpq c hc).trans hq⟩

theorem Lists.insert (h : Lists part m cs) (c : Chunk) :
    Lists part (m.insert c.key (part.document c)) (storeChunk cs c) := by
  intro k d
  rw [OrderedMap.get?_insert]
  by_cases hk : (c.key == k) = true
  · rw [if_pos hk]
    obtain rfl := (c.key_beq k).1 hk
    constructor
    · intro hd
      exact ⟨c, List.mem_append_right _ List.mem_cons_self, rfl, (Option.some.inj hd).symm⟩
    · rintro ⟨e, he, hkey, rfl⟩
      rcases List.mem_append.1 he with he | he
      · have hother := (List.mem_filter.1 he).2
        rw [Key.str.inj hkey] at hother
        simp at hother
      · rw [List.mem_singleton.1 he]
  · rw [if_neg hk, h k d]
    have hne : ∀ e : Chunk, k = e.key → (e.id != c.id) = true := by
      rintro e rfl
      rw [bne_iff_ne]
      intro hid
      exact hk ((c.key_beq e.key).2 (congrArg Key.str hid))
    constructor
    · rintro ⟨e, he, hkey, rfl⟩
      exact ⟨e, List.mem_append_left _ (List.mem_filter.2 ⟨he, hne e hkey⟩), hkey, rfl⟩
    · rintro ⟨e, he, hkey, rfl⟩
      rcases List.mem_append.1 he with he | he
      · exact ⟨e, (List.mem_filter.1 he).1, hkey, rfl⟩
      · obtain rfl := List.mem_singleton.1 he
        have hself := hne e hkey
        simp at hself

theorem Lists.insertAll (h : Lists part m cs) (ds : List Chunk) :
    Lists part (m.insertAll (part.entries ds)) (ds.foldl storeChunk cs) := by
  induction ds generalizing m cs with
  | nil => exact h
  | cons d ds ih => exact ih (h.insert d)

end

/-- Rows that are put are there, besides those that were there. -/
theorem Graph.Ledger.isSome_foldl_put (rows : List Graph.LedgerRow) (l : Graph.Ledger) (file : FileKey) :
    ((rows.foldl Graph.Ledger.put l).get? file).isSome = (rows.any (·.file == file) || (l.get? file).isSome) := by
  induction rows generalizing l with
  | nil => rfl
  | cons r rows ih =>
    rw [List.foldl_cons, ih, Graph.Ledger.get?_put, List.any_cons]
    split
    · rename_i hfile
      simp [hfile]
    · rename_i hfile
      rw [Bool.eq_false_iff.2 hfile, Bool.false_or]

namespace Atlas

variable {a b c : Atlas} {y : Index.Yield} {ts : List Turn} {kept : Part → Bool}

/-! ## Sessions -/

/-- States of an atlas that persists, with what led to them. Between calls files, time and faults
may change, and of the snapshots that closing writes some may be lost. -/
inductive Session : Atlas → List Turn → Prop
  | start {plan : Plan} {disk : Disk} {faults : List (Operation × Failure)} {a : Atlas}
      (hpersists : plan.persists = true)
      (hnew : ∀ part : Part, Snapshot.load disk.files (disk.snapshotPath part.snapshot) = .ok none)
      (hserves : Startable { Atlas.open plan disk with faults })
      (hok : start.on { Atlas.open plan disk with faults } = (.ok (), a)) : Session a []
  | world {a : Atlas} {ts : List Turn} (h : Session a ts) (disk : Disk) (faults : List (Operation × Failure)) :
      Session { a with disk, faults } ts
  | index {a b : Atlas} {ts : List Turn} {y : Index.Yield} (h : Session a ts) (hok : Indexes a y b) :
      Session b (.stored y :: ts)
  | restart {a b c : Atlas} {ts : List Turn} {kept : Part → Bool} {disk : Disk}
      {faults : List (Operation × Failure)}
      (h : Session a ts) (hclose : close.on a = (.ok (), c)) (hfound : Finds a disk kept)
      (hserves : Startable { c with disk, faults })
      (hok : start.on (reopen { c with disk, faults }) = (.ok (), b)) :
      Session b (.restarted kept :: ts)

structure Tracked (a : Atlas) (ts : List Turn) : Prop where
  rows : ∀ file, (a.store.ledger.get? file).isSome = recorded ts file
  lists : ∀ part, Lists part (a.held part) (remains part ts)

/-- A chunk is stale exactly if its file is stored again and has a row. -/
theorem staleDocument_eq (hy : Fits a y) (hrows : ∀ file, (a.store.ledger.get? file).isSome = recorded ts file)
    (part : Part) (c : Chunk) : staleDocument a.store.ledger y.rows (part.document c) = !outlasts ts y c := by
  rw [Bool.eq_iff_iff, outlasts, Bool.not_not, Bool.and_eq_true, staleDocument, List.any_eq_true, List.any_eq_true]
  constructor
  · rintro ⟨r, hr, hstale⟩
    rw [Bool.and_eq_true, part.inFile_document, hy.rows r hr, hrows] at hstale
    obtain ⟨hrecorded, hfile⟩ := hstale
    exact ⟨⟨r, hr, hfile ▸ BEq.rfl⟩, hfile ▸ hrecorded⟩
  · rintro ⟨⟨r, hr, hfile⟩, hrecorded⟩
    have hfile : r.file = c.file := (c.file_beq r.file).1 (BEq.symm hfile)
    refine ⟨r, hr, ?_⟩
    rw [Bool.and_eq_true, part.inFile_document, hy.rows r hr, hrows, hfile]
    exact ⟨hrecorded, rfl⟩

theorem Tracked.persist (h : Tracked a ts) (hy : Fits a y) (hp : (persist y).on a = (.ok (), b)) :
    Tracked b (.stored y :: ts) := by
  obtain ⟨vs, hvs, -, hb⟩ := of_persist hp
  have hlen := length_of_embedChunks hvs
  constructor
  · intro file
    rw [hb.ledger, Graph.Ledger.isSome_foldl_put, h.rows]
    rfl
  · intro part
    refine Lists.congr (((h.lists part).keep fun c _ => ?_).insertAll y.chunks) (hb.held hlen part)
    rw [staleDocument_eq hy h.rows, Bool.not_not]

theorem settled_ledger (kept : Part → Bool) (store : Graph.Store) (file : FileKey) :
    (settled kept (if kept .symbols then store else {})).ledger.get? file =
      if kept .symbols && (kept .vectors && kept .texts) then store.ledger.get? file else none := by
  unfold settled
  cases kept .symbols <;> cases kept .vectors && kept .texts <;> rfl

theorem settled_symbols (kept : Part → Bool) (store : Graph.Store) :
    (settled kept store).symbols = store.symbols := by
  unfold settled
  split <;> rfl

theorem Tracked.restored (h : Tracked a ts) (hb : Restored (a.remnant kept) b) :
    Tracked b (.restarted kept :: ts) := by
  constructor
  · intro file
    rw [hb.store.ledger file]
    show ((settled kept _).ledger.get? file).isSome = _
    rw [settled_ledger, recorded, ← h.rows]
    cases kept .symbols && (kept .vectors && kept .texts) <;> rfl
  · intro part
    have hheld : b.held part = if kept part then a.held part else .empty := by
      cases part with
      | symbols =>
        rw [held, hb.store.documents, remnant, settled_symbols]
        cases kept .symbols <;> rfl
      | vectors =>
        rw [held, hb.points, remnant]
        cases kept .vectors <;> rfl
      | texts =>
        rw [held, hb.texts, remnant]
        cases kept .texts <;> rfl
    rw [hheld, remains]
    cases kept part with
    | false => exact .empty part
    | true => exact h.lists part

theorem loads_nothing {plan : Plan} {disk : Disk}
    (hnew : ∀ part : Part, Snapshot.load disk.files (disk.snapshotPath part.snapshot) = .ok none) :
    Finds (Atlas.open plan disk) disk fun _ => false := by
  intro part
  cases part with
  | symbols =>
    have hsorted : ({} : Graph.Edges).sorted = .ok [] := by
      simp [Graph.Edges.sorted, sortChecked, pure, Except.pure]
    have hsaved : (Atlas.open plan disk).saved .symbols =
        .ok [("symbols", .list []), ("edges", .list []), ("metadata", .list [])] := by
      show Graph.Store.toRecord {} = _
      rw [Graph.Store.toRecord, hsorted]
      rfl
    exact ⟨_, hsaved, hnew .symbols⟩
  | vectors => exact ⟨_, rfl, hnew .vectors⟩
  | texts => exact ⟨_, rfl, hnew .texts⟩

/-- Throughout a session the atlas can be closed, and holds what the turns tell. -/
theorem Session.running (h : Session a ts) : Running a ∧ a.plan.persists = true ∧ Tracked a ts := by
  induction h with
  | @start plan disk faults a hpersists hnew hserves hok =>
    obtain ⟨b, hstart, hb, hrunning, -, -⟩ :=
      start_on (regular_open plan disk) hpersists (loads_nothing hnew) hserves
    obtain ⟨-, rfl⟩ := Prod.mk.inj (hstart.symm.trans hok)
    refine ⟨hrunning, hb.plan ▸ hpersists, ?_⟩
    have hnone : Tracked (Atlas.open plan disk) [] := ⟨fun _ => rfl, fun part => by cases part <;> exact .empty _⟩
    obtain ⟨hrows, hlists⟩ := hnone.restored hb
    exact ⟨fun file => hrows file, hlists⟩
  | world _ disk faults ih =>
    obtain ⟨hrunning, hpersists, htracked⟩ := ih
    exact ⟨hrunning.elsewhere disk faults, hpersists, htracked.rows,
      fun part => by cases part <;> exact htracked.lists _⟩
  | index _ hok ih =>
    obtain ⟨hrunning, hpersists, htracked⟩ := ih
    obtain ⟨hy, hp⟩ := persist_of_indexes hok
    obtain ⟨vs, -, -, hb⟩ := of_persist hp
    exact ⟨hrunning.persist hy.edges hp, hb.plan ▸ hpersists, htracked.persist hy hp⟩
  | @restart a b c ts kept disk faults _ hclose hfound hserves hok ih =>
    obtain ⟨hrunning, hpersists, htracked⟩ := ih
    obtain ⟨data, -, f, g, files, -, -, -, rfl⟩ := of_close hpersists hclose
    obtain ⟨b', hstart, hb, hrunning', -, -⟩ := start_on hrunning.toRegular hpersists hfound hserves
    obtain ⟨-, rfl⟩ := Prod.mk.inj (hstart.symm.trans hok)
    exact ⟨hrunning', hb.plan ▸ hpersists, htracked.restored hb⟩

end Atlas

end SourceAtlas
