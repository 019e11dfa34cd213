import SourceAtlas.Proofs.FileByFile
import SourceAtlas.Proofs.Parts

/-!
# Histories of an atlas

What the three parts hold of a file after any calls that succeeded: the chunks
of the content that was stored last, unless the repository was forgotten since.
The ledger has a row for the same files.
-/

namespace SourceAtlas

open Json (Value Key)

inductive Event where
  | stored (file : FileKey) (chunks : List Chunk)
  | forgot (repo : Key)

/-- What was stored last of a file and not forgotten since. The newest event comes first. -/
def latest : List Event → FileKey → Option (List Chunk)
  | [], _ => none
  | .stored f cs :: es, file => if f == file then some cs else latest es file
  | .forgot repo :: es, file => if file.1 == repo then none else latest es file

def chunksIn : List Event → List Chunk
  | [] => []
  | .stored _ cs :: es => cs ++ chunksIn es
  | .forgot _ :: es => chunksIn es

def Index.FileResult.events (x : Index.FileResult) : List Event :=
  x.yield.rows.map fun r => .stored r.file x.yield.chunks

def eventsOf (xs : List (String × Outcome Index.FileResult)) : List Event :=
  xs.reverse.flatMap fun x => match x.2 with
    | .ok y => y.events
    | .error _ => []

theorem chunksIn_append : ∀ (es fs : List Event), chunksIn (es ++ fs) = chunksIn es ++ chunksIn fs
  | [], _ => rfl
  | .stored _ cs :: es, fs => by
    rw [List.cons_append, chunksIn, chunksIn, chunksIn_append es fs, List.append_assoc]
  | .forgot _ :: es, fs => chunksIn_append es fs

theorem Separated.of_append {es fs : List Event} (h : Separated (chunksIn (es ++ fs))) : Separated (chunksIn fs) :=
  h.mono fun c hc => by
    rw [chunksIn_append]
    exact List.mem_append_right _ hc

theorem mem_chunksIn_of_latest {file : FileKey} {cs : List Chunk} {c : Chunk} :
    ∀ {es : List Event}, latest es file = some cs → c ∈ cs → c ∈ chunksIn es
  | [], h, _ => by cases h
  | .stored f ds :: es, h, hc => by
    rw [latest] at h
    rw [chunksIn, List.mem_append]
    split at h
    · exact .inl (Option.some.inj h ▸ hc)
    · exact .inr (mem_chunksIn_of_latest h hc)
  | .forgot repo :: es, h, hc => by
    rw [latest] at h
    split at h
    · cases h
    · exact (mem_chunksIn_of_latest h hc : c ∈ chunksIn es)

namespace Atlas

variable {a b : Atlas} {es : List Event}

/-! ## What holds throughout a history -/

/-- What an atlas holds is what was stored last. -/
structure Consistent (a : Atlas) (es : List Event) : Prop where
  ledger : ∀ file, (a.store.ledger.get? file).isSome = (latest es file).isSome
  owned : ∀ part k d, (a.held part).get? k = some d →
    ∃ cs, ∃ c ∈ cs, latest es c.file = some cs ∧ k = c.key ∧ d = part.document c
  present : ∀ part file cs, latest es file = some cs → ∀ c ∈ cs, c.file = file ∧
    ∃ e ∈ cs, (a.held part).get? c.key = some (part.document e)

theorem Consistent.empty (plan : Plan) (disk : Disk) : Consistent (Atlas.open plan disk) [] where
  ledger _ := rfl
  owned part k d h := by cases part <;> cases h
  present part file cs h := by cases h

theorem Consistent.congr (h : Consistent a es) (hledger : b.store.ledger = a.store.ledger)
    (hheld : ∀ part, (b.held part).Agrees (a.held part)) : Consistent b es where
  ledger file := hledger ▸ h.ledger file
  owned part k d hd := h.owned part k d (hheld part k ▸ hd)
  present part file cs hcs c hc := by
    obtain ⟨hfile, e, he, hd⟩ := h.present part file cs hcs c hc
    exact ⟨hfile, e, he, (hheld part c.key).trans hd⟩

theorem Consistent.idsOf (h : Consistent a es) (part : Part) (file : FileKey) :
    a.idsOf part file = {k | ∃ c ∈ (latest es file).getD [], k = c.key} := by
  ext k
  constructor
  · rintro ⟨d, hd, hin⟩
    obtain ⟨cs, c, hc, hcs, rfl, rfl⟩ := h.owned part k d hd
    obtain rfl := (part.inFile_document c file).1 hin
    exact ⟨c, by rw [hcs]; exact hc, rfl⟩
  · rintro ⟨c, hc, rfl⟩
    cases hcs : latest es file with
    | none =>
      rw [hcs] at hc
      exact absurd hc List.not_mem_nil
    | some cs =>
      rw [hcs] at hc
      obtain ⟨-, e, he, hd⟩ := h.present part file cs hcs c hc
      obtain ⟨hfile, -⟩ := h.present part file cs hcs e he
      exact ⟨_, hd, (part.inFile_document e file).2 hfile.symm⟩

/-! ## Steps -/

theorem events_indexed {language : Language} {y : Index.Yield} {row : Graph.LedgerRow} (hrows : y.rows = [row]) :
    (Index.FileResult.indexed language y).events = [.stored row.file y.chunks] := by
  simp [Index.FileResult.events, Index.FileResult.yield, hrows]

/-- What a part holds after one file was stored is a chunk of that file, or was there before for
another file: a file that had no row had nothing stored. -/
theorem Consistent.source_of_held {y : Index.Yield} {vs : List Search.Components}
    {row : Graph.LedgerRow} {part : Part}
    {k : Key} {d : Document} (h : Consistent a es) (hb : Holds a y vs b) (hlen : y.chunks.length = vs.length)
    (hrows : y.rows = [row]) (hstale : stale a.store.ledger row = (a.store.ledger.get? row.file).isSome)
    (hd : (b.held part).get? k = some d) :
    (∃ c ∈ y.chunks, k = c.key ∧ d = part.document c) ∨ ∃ cs, ∃ c ∈ cs, latest es c.file = some cs ∧ k = c.key ∧
      d = part.document c ∧ ¬ (row.file == c.file) = true := by
  rw [hb.held hlen part k] at hd
  rcases OrderedMap.mem_of_get?_insertAll hd with ⟨j, hj, hjk⟩ | hd
  · obtain ⟨c, hc, he⟩ := List.mem_map.1 hj
    obtain ⟨rfl, rfl⟩ := Prod.mk.inj he
    exact .inl ⟨c, hc, (c.key_beq k).1 hjk, rfl⟩
  · obtain ⟨hd, hkept⟩ := OrderedMap.of_get?_keep hd
    obtain ⟨cs, c, hc, hcs, hk, rfl⟩ := h.owned part k d hd
    refine .inr ⟨cs, c, hc, hcs, hk, rfl, fun heq => ?_⟩
    have hfile : row.file = c.file := (c.file_beq row.file).1 (BEq.symm heq)
    have hrow : (a.store.ledger.get? row.file).isSome = true := by rw [h.ledger, hfile, hcs]; rfl
    rw [staleDocument, hrows, List.any_cons, hstale, hrow, (part.inFile_document c row.file).2 hfile] at hkept
    cases hkept

/-- What is stored of a file takes the place of what there was of it, and of nothing else. -/
theorem Consistent.persist {parse : Parser} {o : Origin} {text : String} {language : Language} {y : Index.Yield}
    (h : Consistent a es) (hx : a.examine parse o text = .ok (.indexed language y))
    (hp : (persist y).on a = (.ok (), b))
    (hids : Separated (chunksIn ((Index.FileResult.indexed language y).events ++ es))) :
    Consistent b ((Index.FileResult.indexed language y).events ++ es) := by
  obtain ⟨row, hrows, -, -, -, hchunks, hstale⟩ := row_of_examine hx
  obtain ⟨vs, hvs, -, hb⟩ := of_persist hp
  have hlen := length_of_embedChunks hvs
  have hrewritten := hb.rewritten hlen hrows
  rw [events_indexed hrows, List.singleton_append] at hids ⊢
  refine ⟨fun file => ?_, fun part k d hd => ?_, fun part file cs hcs c hc => ?_⟩
  · have hledger : b.store.ledger = a.store.ledger.put row := by rw [hb.ledger, hrows]; rfl
    rw [hledger, Graph.Ledger.get?_put, latest]
    split
    · rfl
    · exact h.ledger file
  · rcases h.source_of_held hb.toHolds hlen hrows hstale hd with ⟨c, hc, hk, rfl⟩ | ⟨cs, c, hc, hcs, hk, rfl, hne⟩
    · refine ⟨y.chunks, c, hc, ?_, hk, rfl⟩
      rw [latest, (hchunks c hc).2, if_pos BEq.rfl]
    · refine ⟨cs, c, hc, ?_, hk, rfl⟩
      rw [latest, if_neg hne]
      exact hcs
  · rw [latest] at hcs
    split at hcs
    · rename_i heq
      obtain rfl := Option.some.inj hcs
      refine ⟨?_, hb.get?_key hlen part hc⟩
      have heq := (hchunks c hc).2 ▸ heq
      exact ((c.file_beq file).1 heq).symm
    · rename_i hne
      obtain ⟨hfile, e, he, hd⟩ := h.present part file cs hcs c hc
      refine ⟨hfile, e, he, (hrewritten.elsewhere (fun c' hc' hkey => ?_) fun d hd' => ?_).trans hd⟩
      · have hsame := hids.file (List.mem_append_left _ hc')
          (List.mem_append_right _ (mem_chunksIn_of_latest hcs hc)) hkey.symm
        rw [(hchunks c' hc').2, hfile] at hsame
        exact hne (hsame ▸ BEq.rfl)
      · rw [hd] at hd'
        obtain rfl := Option.some.inj hd'
        rw [Bool.eq_false_iff, ne_eq, part.inFile_document, (h.present part file cs hcs e he).1]
        exact fun hsame => hne (hsame ▸ BEq.rfl)

theorem Consistent.indexText {parse : Parser} {o : Origin} {text : String} {x : Index.FileResult}
    (h : Consistent a es) (hok : (indexText parse o text true).on a = (.ok x, b))
    (hids : Separated (chunksIn (x.events ++ es))) :
    Consistent b (x.events ++ es) := by
  obtain ⟨hx, ⟨hskip, rfl⟩ | ⟨language, y, rfl, hp⟩⟩ := of_indexText hok
  · cases x with
    | indexed language y => exact absurd rfl (hskip language y)
    | _ => exact h
  · exact h.persist hx hp hids

theorem eventsOf_cons (path : String) (x : Outcome Index.FileResult)
    (xs : List (String × Outcome Index.FileResult)) :
    eventsOf ((path, x) :: xs) = eventsOf xs ++ (match x with
      | .ok y => y.events
      | .error _ => []) := by
  simp [eventsOf]

theorem eventsOf_of_skip {path : String} {x : Outcome Index.FileResult}
    {xs : List (String × Outcome Index.FileResult)}
    (hskip : ∀ language y, x ≠ .ok (.indexed language y)) : eventsOf ((path, x) :: xs) = eventsOf xs := by
  rw [eventsOf_cons]
  cases x with
  | error f => exact List.append_nil _
  | ok x =>
    cases x with
    | indexed language y => exact absurd rfl (hskip language y)
    | _ => exact List.append_nil _

theorem Consistent.each {parse : Parser} {r : Index.Repository} {workspace : Value} {commit : String}
    {checkout : Index.Checkout} {xs : List (String × Outcome Index.FileResult)} (h : Consistent a es)
    (heach : Each parse r workspace commit checkout xs a b) (hids : Separated (chunksIn (eventsOf xs ++ es))) :
    Consistent b (eventsOf xs ++ es) := by
  induction heach generalizing es with
  | nil a => exact h
  | @skip path x xs a c hx hskip rest ih =>
    rw [eventsOf_of_skip hskip] at hids ⊢
    exact ih h hids
  | @stored path language y xs a m c hx hm rest ih =>
    rw [eventsOf_cons, List.append_assoc] at hids ⊢
    obtain ⟨text, -, hx⟩ := bind_eq_ok.1 hx
    exact ih (h.persist hx hm (Separated.of_append hids)) hids

theorem Consistent.forgetRepo {repo : Key} (h : Consistent a es)
    (hok : (forgetRepo repo.toValue).on a = (.ok (), b)) : Consistent b (.forgot repo :: es) := by
  obtain ⟨hledger, hsymbols, hpoints, htexts⟩ := of_forgetRepo hok
  have hheld : ∀ part, (b.held part).Agrees ((a.held part).keep (!Document.ofRepo repo.toValue ·)) := fun part => by
    cases part with
    | symbols => exact hsymbols ▸ .refl _
    | texts => exact htexts ▸ .refl _
    | vectors =>
      rw [held, hpoints, held, ← OrderedMap.mapValues_keep]
      exact .refl _
  refine ⟨fun file => ?_, fun part k d hd => ?_, fun part file cs hcs c hc => ?_⟩
  · rw [hledger, OrderedMap.get?_filter, latest]
    · split
      · rename_i hrepo
        simp [hrepo]
      · rename_i hrepo
        rw [← h.ledger file]
        simp [hrepo]
    · intro j k _ hjk
      rw [BEq.congr_left ((beq_pair j k).1 hjk).1]
  · rw [hheld part k] at hd
    obtain ⟨hd, hkept⟩ := OrderedMap.of_get?_keep hd
    obtain ⟨cs, c, hc, hcs, hk, rfl⟩ := h.owned part k d hd
    refine ⟨cs, c, hc, ?_, hk, rfl⟩
    rw [part.repo_document, Bool.not_eq_true'] at hkept
    rw [latest, hkept]
    exact hcs
  · rw [latest] at hcs
    split at hcs
    · cases hcs
    · rename_i hrepo
      obtain ⟨hfile, e, he, hd⟩ := h.present part file cs hcs c hc
      have hefile := (h.present part file cs hcs e he).1
      refine ⟨hfile, e, he, ?_⟩
      rw [hheld part c.key, OrderedMap.get?_keep, hd, Option.filter_some, part.repo_document, hefile]
      simp [hrepo]

/-! ## Histories -/

/-- States that calls which succeed lead to, with what they changed. Between calls files, time,
faults and the engine may change. -/
inductive History : Atlas → List Event → Prop
  | start (plan : Plan) (disk : Disk) : History (Atlas.open plan disk) []
  | world {a : Atlas} {es : List Event} (h : History a es) (disk : Disk) (engine : Graph.Engine)
      (faults : List (Operation × Failure)) : History { a with disk, engine, faults } es
  | text {a b : Atlas} {es : List Event} {parse : Parser} {o : Origin} {text : String} {x : Index.FileResult}
      (h : History a es) (hok : (Atlas.indexText parse o text true).on a = (.ok x, b)) : History b (x.events ++ es)
  | repository {a b : Atlas} {es : List Event} {parse : Parser} {r : Index.Repository} {workspace : Value}
      {mode : Index.IndexMode} {cancelAfter : Option Nat} {files : List String} {report : Index.Report}
      (h : History a es) (hfiles : (a.checkoutOf r).files = .ok files) (hnodup : files.Nodup)
      (hok : (indexRepository parse r workspace mode true cancelAfter).on a = (.ok report, b)) :
      History b (eventsOf (foundIn parse r workspace a files) ++ es)
  | forget {a b : Atlas} {es : List Event} {repo : Key} (h : History a es)
      (hok : (Atlas.forgetRepo repo.toValue).on a = (.ok (), b)) : History b (.forgot repo :: es)

theorem History.consistent (h : History a es) (hids : Separated (chunksIn es)) : Consistent a es := by
  induction h with
  | start plan disk => exact .empty plan disk
  | world h disk engine faults ih => exact (ih hids).congr rfl fun part => by cases part <;> exact .refl _
  | text h hok ih => exact (ih (Separated.of_append hids)).indexText hok hids
  | repository h hfiles hnodup hok ih =>
    obtain ⟨-, c, heach, halike⟩ := each_of_indexRepository hfiles hnodup hok
    exact ((ih (Separated.of_append hids)).each heach hids).congr halike.ledger halike.held
  | forget h hok ih => exact (ih hids).forgetRepo hok

/-- The three parts and the ledger agree with what was stored last. -/
theorem History.stores_agree (h : History a es) (hids : Separated (chunksIn es)) (file : FileKey) :
    (∀ part, a.idsOf part file = {k | ∃ c ∈ (latest es file).getD [], k = c.key}) ∧
      ((a.store.ledger.get? file).isSome ↔ (latest es file).isSome) := by
  have hc := h.consistent hids
  exact ⟨fun part => hc.idsOf part file, by rw [hc.ledger]⟩

namespace Move

def stored (repo path text : String) (a : Atlas) : Outcome Index.FileResult × Atlas :=
  (indexText Sample.parse { workspace := "ws", repo := repo, path := path } text true).on a

def ready : Atlas := { Sample.atlas with engine := { ready := true } }

def copied : Outcome Index.FileResult × Atlas := stored "old" "a.py" Sample.function ready

def added : Outcome Index.FileResult × Atlas := stored "repo" "a.py" Sample.function copied.2

def cleared : Outcome Index.FileResult × Atlas := stored "repo" "a.py" Sample.imports added.2

def moved : Outcome Index.FileResult × Atlas := stored "repo" "b.py" Sample.function cleared.2

def forgotten : Outcome Unit × Atlas := (forgetRepo "old").on moved.2

def events : List Event :=
  .forgot "old" :: ([moved, cleared, added, copied].flatMap fun x => ((x.1.toOption).getD .unsupported).events)

def namesIn (repo path : Key) : Option (List String) :=
  (latest events (repo, path)).map (·.map (·.payload.symbolName))

theorem history : History forgotten.2 events := by
  have hok : copied.1.toBool ∧ added.1.toBool ∧ cleared.1.toBool ∧ moved.1.toBool ∧ forgotten.1.toBool := by
    decide +kernel
  obtain ⟨hcopied, hadded, hcleared, hmoved, hforgotten⟩ := hok
  have hready : History ready [] := (History.start Sample.plan Sample.disk).world _ _ _
  have h₁ := hready.text (Act.on_eq_ok .unsupported hcopied)
  have h₂ := h₁.text (Act.on_eq_ok .unsupported hadded)
  have h₃ := h₂.text (Act.on_eq_ok .unsupported hcleared)
  have h₄ := h₃.text (Act.on_eq_ok .unsupported hmoved)
  exact @History.forget _ _ _ "old" h₄ (Act.on_eq_ok () hforgotten)

end Move

/-- A function is indexed in two repositories and then moved to another file of one of them, and
the other repository is forgotten. -/
theorem History.stores_agree_after_move : History Move.forgotten.2 Move.events ∧
    Separated (chunksIn Move.events) ∧ Move.namesIn "old" "a.py" = none ∧ Move.namesIn "repo" "a.py" = some [] ∧
    Move.namesIn "repo" "b.py" = some ["f"] ∧
    ∀ file, (∀ part, Move.forgotten.2.idsOf part file = {k | ∃ c ∈ (latest Move.events file).getD [], k = c.key}) ∧
      ((Move.forgotten.2.store.ledger.get? file).isSome ↔ (latest Move.events file).isSome) := by
  have hseen : Separated (chunksIn Move.events) ∧ Move.namesIn "old" "a.py" = none ∧
      Move.namesIn "repo" "a.py" = some [] ∧ Move.namesIn "repo" "b.py" = some ["f"] := by
    decide +kernel
  obtain ⟨hids, hold, hcleared, hmoved⟩ := hseen
  exact ⟨Move.history, hids, hold, hcleared, hmoved, Move.history.stores_agree hids⟩

end Atlas

end SourceAtlas
