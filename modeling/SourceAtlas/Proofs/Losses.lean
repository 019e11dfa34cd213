import Mathlib.Data.Set.Insert
import SourceAtlas.Proofs.Sessions

/-!
# Indexing after snapshots were lost

Once a snapshot is lost, no file has a row, and what the other parts hold of a
file is not removed when the file is indexed again. It stays beside the chunks
of the new content, unless these have the same ids.
-/

namespace SourceAtlas

open Json (Value Record Key)
open Snapshot (versioned)

def idsIn (cs : List Chunk) : Set Key := {k | ∃ c ∈ cs, k = c.key}

def remainsOf (part : Part) (ts : List Turn) (file : FileKey) : List Chunk :=
  (remains part ts).filter (file == ·.file)

theorem idsIn_nil : idsIn [] = ∅ := by
  simp [idsIn]

section
variable {cs ds : List Chunk} {c : Chunk} {p : Chunk → Bool}

theorem idsIn_cons : idsIn (c :: cs) = insert c.key (idsIn cs) := by
  ext k
  rw [Set.mem_insert_iff]
  simp [idsIn]

/-- A chunk takes the place of one with its id, and so adds its id at most. -/
theorem idsIn_storeChunk : idsIn (storeChunk cs c) = insert c.key (idsIn cs) := by
  ext k
  constructor
  · rintro ⟨d, hd, rfl⟩
    rcases List.mem_append.1 hd with hd | hd
    · exact .inr ⟨d, (List.mem_filter.1 hd).1, rfl⟩
    · exact .inl (congrArg Chunk.key (List.mem_singleton.1 hd))
  · rintro (rfl | ⟨d, hd, rfl⟩)
    · exact ⟨c, List.mem_append_right _ List.mem_cons_self, rfl⟩
    · by_cases hid : d.id = c.id
      · exact ⟨c, List.mem_append_right _ List.mem_cons_self, congrArg Key.str hid⟩
      · exact ⟨d, List.mem_append_left _ (List.mem_filter.2 ⟨hd, bne_iff_ne.2 hid⟩), rfl⟩

theorem idsIn_foldl_storeChunk : idsIn (ds.foldl storeChunk cs) = idsIn ds ∪ idsIn cs := by
  induction ds generalizing cs with
  | nil => rw [idsIn_nil, Set.empty_union]; rfl
  | cons d ds ih => rw [List.foldl_cons, ih, idsIn_storeChunk, idsIn_cons, Set.union_insert, Set.insert_union]

/-- Where all new chunks belong, the others do not matter. -/
theorem filter_foldl_storeChunk (hds : ∀ d ∈ ds, p d = true) :
    (ds.foldl storeChunk cs).filter p = ds.foldl storeChunk (cs.filter p) := by
  induction ds generalizing cs with
  | nil => rfl
  | cons d ds ih =>
    obtain ⟨hd, hds⟩ := List.forall_mem_cons.1 hds
    have hstep : (storeChunk cs d).filter p = storeChunk (cs.filter p) d := by
      rw [storeChunk, storeChunk, List.filter_append, List.filter_cons_of_pos hd,
        List.filter_filter, List.filter_filter]
      simp only [Bool.and_comm, List.filter_nil]
    rw [List.foldl_cons, List.foldl_cons, ih hds, hstep]

end

namespace Atlas

variable {a b : Atlas} {ts : List Turn} {parse : Parser} {o : Origin} {text : String}
  {y : Index.Yield} {part : Part}

theorem Tracked.idsOf (h : Tracked a ts) (part : Part) (file : FileKey) :
    a.idsOf part file = idsIn (remainsOf part ts file) := by
  ext k
  constructor
  · rintro ⟨d, hd, hin⟩
    obtain ⟨c, hc, rfl, rfl⟩ := (h.lists part k d).1 hd
    refine ⟨c, List.mem_filter.2 ⟨hc, ?_⟩, rfl⟩
    rw [(part.inFile_document c file).1 hin]
    exact BEq.rfl
  · rintro ⟨c, hc, rfl⟩
    obtain ⟨hc, hfile⟩ := List.mem_filter.1 hc
    refine ⟨part.document c, (h.lists part _ _).2 ⟨c, hc, rfl, rfl⟩, (part.inFile_document c file).2 ?_⟩
    exact (c.file_beq file).1 (BEq.symm hfile)

theorem nonempty_idsOf {file : FileKey} (h : (a.held part).values.any (Document.inFile file) = true) :
    (a.idsOf part file).Nonempty := by
  obtain ⟨d, hd, hin⟩ := List.any_eq_true.1 h
  obtain ⟨e, he, rfl⟩ := List.mem_map.1 hd
  exact ⟨e.1, e.2, OrderedMap.get?_of_mem he, hin⟩

theorem examine_supported {language : Language} {x : Index.FileResult}
    (hlanguage : Language.ofPath? o.path = some language)
    (h : a.examine parse o text = .ok x) : x = .unchanged language ∨ ∃ y, x = .indexed language y := by
  cases x with
  | unsupported =>
    unfold examine at h
    simp only [hlanguage, bind_eq_ok] at h
    obtain ⟨row, -, h⟩ := h
    split at h
    · cases pure_eq_ok.1 h
    · simp only [bind_eq_ok, pure_eq_ok] at h
      obtain ⟨-, -, y, -, hy⟩ := h
      cases hy
  | «unchanged» l =>
    obtain ⟨hl, -⟩ := examine_unchanged h
    obtain rfl := Option.some.inj (hl.symm.trans hlanguage)
    exact .inl rfl
  | indexed l y =>
    obtain ⟨hl, -⟩ := examine_indexed h
    obtain rfl := Option.some.inj (hl.symm.trans hlanguage)
    exact .inr ⟨y, rfl⟩

/-- What is left of a file that is stored again: nothing if it had a row, and else all of it. -/
theorem filter_outlasts {row : Graph.LedgerRow} (hrows : y.rows = [row]) :
    (remainsOf part ts row.file).filter (outlasts ts y) =
      if recorded ts row.file then [] else remainsOf part ts row.file := by
  have hsame : ∀ c ∈ remainsOf part ts row.file, outlasts ts y c = !recorded ts row.file := by
    intro c hc
    have hbeq := (List.mem_filter.1 hc).2
    have hfile : row.file = c.file := (c.file_beq row.file).1 (BEq.symm hbeq)
    rw [outlasts, hrows, List.any_cons, hbeq, hfile, Bool.true_or, Bool.true_and]
  rw [List.filter_congr hsame]
  cases recorded ts row.file <;> simp

/-- What is indexed takes the place of what there was of the file if the file had a row, and is
added to it otherwise. -/
theorem idsOf_persist {language : Language} {row : Graph.LedgerRow} (h : Tracked a ts)
    (hx : a.examine parse o text = .ok (.indexed language y)) (hp : (persist y).on a = (.ok (), b))
    (hrows : y.rows = [row])
    (part : Part) : b.idsOf part row.file =
      idsIn y.chunks ∪ if recorded ts row.file then ∅ else idsIn (remainsOf part ts row.file) := by
  obtain ⟨row', hrows', -, -, -, hchunks, -⟩ := row_of_examine hx
  obtain rfl := List.singleton_inj.1 (hrows.symm.trans hrows')
  have hstored : Tracked b (.stored y :: ts) := h.persist (fits_of_examine hx) hp
  have hown : ∀ c ∈ y.chunks, (row.file == c.file) = true := by
    intro c hc
    rw [(hchunks c hc).2]
    exact BEq.rfl
  have hleft : remainsOf part (.stored y :: ts) row.file =
      y.chunks.foldl storeChunk (if recorded ts row.file then [] else remainsOf part ts row.file) := by
    rw [remainsOf, remains, filter_foldl_storeChunk hown, List.filter_filter, ← filter_outlasts hrows, remainsOf,
      List.filter_filter]
    simp only [Bool.and_comm]
  rw [hstored.idsOf, hleft, idsIn_foldl_storeChunk]
  split
  · rw [idsIn_nil]
  · rfl

end Atlas

/-! ## A function whose snapshots are lost -/

namespace Sample

def shelf (kept : Part → Bool) (data : Part → Record) : FileTree :=
  .dir [("data", .dir (([Part.symbols, .vectors, .texts].filter kept).map fun part =>
    (part.fileName, .file (.record (versioned (data part))))))]

theorem load_shelf (kept : Part → Bool) (data : Part → Record) (part : Part) :
    Snapshot.load (shelf kept data) (disk.snapshotPath part.snapshot) =
      .ok (if kept part then some (versioned (data part)) else none) := by
  have hdirs : disk.directory.segments = ["data"] := by decide +kernel
  rw [Disk.snapshotPath_eq (by decide), hdirs]
  unfold shelf
  simp only [List.filter]
  cases part <;> cases kept .symbols <;> cases kept .vectors <;> cases kept .texts <;> rfl

def lasting : Plan := { plan with persists := true }

def blank : Disk := { disk with files := shelf (fun _ => false) fun _ => [] }

abbrev started : Outcome Unit × Atlas := Atlas.start.on (.open lasting blank)

abbrev written : Outcome Index.FileResult × Atlas := index function started.2

abbrev closed : Outcome Unit × Atlas := Atlas.close.on written.2

def found (kept : Part → Bool) : Disk :=
  { disk with files := shelf kept fun part => (written.2.saved part).toOption.getD [] }

abbrev restarted (kept : Part → Bool) : Outcome Unit × Atlas :=
  Atlas.start.on (Atlas.reopen { closed.2 with disk := found kept, faults := [] })

abbrev withoutVectors : Part → Bool
  | .vectors => false
  | _ => true

abbrev rewritten (kept : Part → Bool) : Outcome Index.FileResult × Atlas := index "" (restarted kept).2

abbrev turns (kept : Part → Bool) : List Turn :=
  [.restarted kept, .stored (written.1.toOption.getD .unsupported).yield]

end Sample

namespace Atlas

theorem session_started : Session Sample.started.2 [] := by
  have hok : Sample.started.1.toBool = true := by decide +kernel
  exact @Session.start Sample.lasting Sample.blank [] _ rfl (Sample.load_shelf _ _) ⟨rfl, rfl, rfl, fun _ => rfl⟩
    (Act.on_eq_ok () hok)

theorem session_written :
    Session Sample.written.2 [.stored (Sample.written.1.toOption.getD .unsupported).yield] := by
  have hok : Sample.written.1.toBool = true := by decide +kernel
  have h := session_started.index (.text (Act.on_eq_ok .unsupported hok))
  exact h

theorem finds_found (kept : Part → Bool) : Finds Sample.written.2 (Sample.found kept) kept := by
  have hsaved : ∀ part, (Sample.written.2.saved part).toBool = true := by
    intro part
    cases part with
    | symbols => decide +kernel
    | vectors => rfl
    | texts => rfl
  intro part
  exact ⟨_, eq_ok [] (hsaved part), Sample.load_shelf kept _ part⟩

theorem session_restarted {kept : Part → Bool} (hok : (Sample.restarted kept).1.toBool = true) :
    Session (Sample.restarted kept).2 (Sample.turns kept) := by
  have hclose : Sample.closed.1.toBool = true := by decide +kernel
  exact session_written.restart (Act.on_eq_ok () hclose) (finds_found kept) ⟨rfl, rfl, rfl, fun _ => rfl⟩
    (Act.on_eq_ok () hok)

/-- After a file was indexed, a part has exactly the ids of its content if the file had a row, or
if nothing was left of it under other ids. A file that is unchanged is left as it is. -/
theorem Session.exact_iff {language : Language} {repo : Key} {x : Index.FileResult} (h : Session a ts)
    (hok : (indexText parse o text true).on a = (.ok x, b)) (hlanguage : Language.ofPath? o.path = some language)
    (hrepo : asKey o.repo = .ok repo)
    (hy : analyse a.plan a.disk.now o language text (Index.hashBytes a.plan.hash (Text.encode text))
      (parse o.path text) = .ok y) (part : Part) :
    b.idsOf part (repo, .str o.path) = idsIn y.chunks ↔
      x = .unchanged language ∧ idsIn (remainsOf part ts (repo, .str o.path)) = idsIn y.chunks ∨
      x = .indexed language y ∧ (recorded ts (repo, .str o.path) = true ∨
        idsIn (remainsOf part ts (repo, .str o.path)) ⊆ idsIn y.chunks) := by
  obtain ⟨-, -, htracked⟩ := h.running
  obtain ⟨hx, hcase⟩ := of_indexText hok
  rcases examine_supported hlanguage hx with rfl | ⟨y', rfl⟩
  · rcases hcase with ⟨-, rfl⟩ | ⟨l, y', hindexed, -⟩
    · simp [htracked.idsOf]
    · cases hindexed
  · rcases hcase with ⟨hskip, -⟩ | ⟨l, y'', hindexed, hp⟩
    · exact absurd rfl (hskip language y')
    · obtain ⟨rfl, rfl⟩ := Index.FileResult.indexed.inj hindexed
      obtain ⟨-, -, hy'⟩ := examine_indexed hx
      obtain rfl := Except.ok.inj (hy'.symm.trans hy)
      obtain ⟨row, hrows, hrow, hpath, -⟩ := row_of_examine hx
      have hfile : (repo, .str o.path) = row.file := by
        rw [Graph.LedgerRow.file, ← Except.ok.inj (hrepo.symm.trans hrow), hpath]
      rw [hfile, idsOf_persist htracked hx hp hrows part, Set.union_eq_left]
      by_cases hrecorded : recorded ts row.file = true
      · simp [hrecorded]
      · simp [hrecorded]

/-- After a restart with all snapshots, the function is gone from each part once it is gone from
its file. -/
theorem Session.exact_after_restart : ∃ a ts b y, Session a ts ∧
    (indexText Sample.parse Sample.origin "" true).on a = (.ok (.indexed .python y), b) ∧
    (∀ part, (remainsOf part ts (.str "repo", .str "a.py")).length = 1) ∧ y.chunks = [] ∧
    ∀ part, b.idsOf part (.str "repo", .str "a.py") = idsIn y.chunks := by
  have hrun : (Sample.restarted fun _ => true).1.toBool = true ∧
      (Sample.rewritten fun _ => true).1.toOption.bind
        (fun r => if r.skipReason?.isNone then r.language? else none) = some .python ∧
      ((Sample.rewritten fun _ => true).1.toOption.getD .unsupported).yield.chunks.isEmpty = true ∧
      (remainsOf .symbols (Sample.turns fun _ => true) (.str "repo", .str "a.py")).length = 1 ∧
      recorded (Sample.turns fun _ => true) (.str "repo", .str "a.py") = true := by
    decide +kernel
  obtain ⟨hstarted, hindexed, hempty, hlength, hrecorded⟩ := hrun
  obtain ⟨y, hy⟩ := eq_indexed hindexed
  rw [hy] at hempty
  have h := session_restarted hstarted
  have hok : (indexText Sample.parse Sample.origin "" true).on (Sample.restarted fun _ => true).2 =
      (.ok (.indexed .python y), (Sample.rewritten fun _ => true).2) := eq_of_fst hy
  obtain ⟨hx, -⟩ := of_indexText hok
  obtain ⟨hlanguage, -, hanalyse⟩ := examine_indexed hx
  refine ⟨_, _, _, y, h, hok,
    fun part => by cases part <;> exact hlength, List.isEmpty_iff.1 hempty, fun part => ?_⟩
  exact (h.exact_iff hok hlanguage rfl hanalyse part).2 (.inr ⟨rfl, .inl hrecorded⟩)

/-- Without the snapshot of the vectors, the function stays among the symbols and the texts. -/
theorem function_stays_after_loss : ∃ a ts b y, Session a ts ∧
    (indexText Sample.parse Sample.origin "" true).on a = (.ok (.indexed .python y), b) ∧
    b.idsOf .symbols (.str "repo", .str "a.py") ≠ idsIn y.chunks ∧
    b.idsOf .texts (.str "repo", .str "a.py") ≠ idsIn y.chunks := by
  have hrun : (Sample.restarted Sample.withoutVectors).1.toBool = true ∧
      (Sample.rewritten Sample.withoutVectors).1.toOption.bind
        (fun r => if r.skipReason?.isNone then r.language? else none) = some .python ∧
      ((Sample.rewritten Sample.withoutVectors).1.toOption.getD .unsupported).yield.chunks.isEmpty = true ∧
      (((Sample.rewritten Sample.withoutVectors).2.held .symbols).values.any
        (Document.inFile (.str "repo", .str "a.py"))) = true ∧
      (((Sample.rewritten Sample.withoutVectors).2.held .texts).values.any
        (Document.inFile (.str "repo", .str "a.py"))) = true := by
    decide +kernel
  obtain ⟨hstarted, hindexed, hempty, hsymbols, htexts⟩ := hrun
  obtain ⟨y, hy⟩ := eq_indexed hindexed
  rw [hy] at hempty
  have hnone : y.chunks = [] := List.isEmpty_iff.1 hempty
  refine ⟨_, _, _, y, session_restarted hstarted, eq_of_fst hy, ?_⟩
  rw [hnone, idsIn_nil]
  exact ⟨(nonempty_idsOf hsymbols).ne_empty, (nonempty_idsOf htexts).ne_empty⟩

end Atlas

end SourceAtlas
