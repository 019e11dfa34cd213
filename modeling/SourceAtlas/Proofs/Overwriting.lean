import Mathlib.Data.List.Dedup
import SourceAtlas.Proofs.Histories

/-!
# Declarations of one name

Symbols of a file that have one qualified name have one id. The last of them
takes the place of the others in all three parts, while the row of the file
counts every one.
-/

namespace SourceAtlas.Atlas

open Json (Value Key)

variable {a b : Atlas} {es : List Event} {parse : Parser} {o : Origin} {text : String} {y : Index.Yield}

/-! ## Counting entries -/

def countOf (a : Atlas) (part : Part) (file : FileKey) : Nat := ((a.held part).keep (Document.inFile file)).size

theorem countOf_eq_length {part : Part} {file : FileKey} {ks : List Key} (hdistinct : Distinct ks)
    (hks : ∀ k, ks.contains k = true ↔ k ∈ a.idsOf part file) : a.countOf part file = ks.length :=
  OrderedMap.size_keep_eq_length hdistinct hks

/-! ## Names and ids -/

/-- The ids of chunks from one place follow from their names. -/
theorem exists_id_of_name {cs : List Chunk} (hcs : ∀ c ∈ cs, Chunk.IsFrom o c) :
    ∃ id : String → String, ∀ c ∈ cs, c.id = id c.payload.symbolName := by
  cases cs with
  | nil => exact ⟨id, fun c hc => absurd hc List.not_mem_nil⟩
  | cons d cs =>
    have hd := hcs d List.mem_cons_self
    refine ⟨symbolId d.payload.context.workspace d.payload.context.repo d.payload.context.path, fun c hc => ?_⟩
    have hc := hcs c hc
    rw [hc.id, Value.str.inj (hc.workspace.symm.trans hd.workspace), Value.str.inj (hc.repo.symm.trans hd.repo),
      hc.path.symm.trans hd.path]

/-- Different names give different ids, as far as different places do. -/
theorem nodup_ids_iff {cs : List Chunk} (hcs : ∀ c ∈ cs, Chunk.IsFrom o c) (hids : Separated cs) :
    (cs.map (·.id)).Nodup ↔ (cs.map (·.payload.symbolName)).Nodup := by
  obtain ⟨id, hid⟩ := exists_id_of_name hcs
  have hmap : cs.map (·.id) = (cs.map (·.payload.symbolName)).map id := by
    rw [List.map_map]
    exact List.map_congr_left hid
  rw [hmap]
  refine ⟨List.Nodup.of_map id, fun hnames => hnames.map_on fun n hn m hm hnm => ?_⟩
  obtain ⟨c, hc, rfl⟩ := List.mem_map.1 hn
  obtain ⟨d, hd, rfl⟩ := List.mem_map.1 hm
  exact hids.name hc hd (by rw [hid c hc, hid d hd, hnm])

/-- There are as many ids as there are names, each counted once. -/
theorem exists_distinct_keys {cs : List Chunk} (hcs : ∀ c ∈ cs, Chunk.IsFrom o c) (hids : Separated cs) :
    ∃ ks : List Key, Distinct ks ∧ ks.length = (cs.map (·.payload.symbolName)).dedup.length ∧
      ∀ k, ks.contains k = true ↔ ∃ c ∈ cs, k = c.key := by
  obtain ⟨id, hid⟩ := exists_id_of_name hcs
  refine ⟨(cs.map (·.payload.symbolName)).dedup.map fun n => .str (id n), ?_, List.length_map _, fun k => ?_⟩
  · refine List.pairwise_map.2
      ((List.nodup_dedup _).imp_of_mem fun {n m} hn hm hne => Bool.eq_false_iff.2 fun heq => ?_)
    obtain ⟨c, hc, rfl⟩ := List.mem_map.1 (List.mem_dedup.1 hn)
    obtain ⟨d, hd, rfl⟩ := List.mem_map.1 (List.mem_dedup.1 hm)
    rw [Key.str_beq, Key.str.injEq, ← hid c hc, ← hid d hd] at heq
    exact hne (hids.name hc hd heq.symm)
  · rw [List.contains_iff_exists_mem_beq]
    constructor
    · rintro ⟨j, hj, hkj⟩
      obtain ⟨n, hn, rfl⟩ := List.mem_map.1 hj
      obtain ⟨c, hc, rfl⟩ := List.mem_map.1 (List.mem_dedup.1 hn)
      refine ⟨c, hc, ?_⟩
      rw [Chunk.key, hid c hc]
      exact (Key.beq_str _ _).1 hkj
    · rintro ⟨c, hc, rfl⟩
      refine ⟨c.key, List.mem_map.2 ⟨_, List.mem_dedup.2 (List.mem_map_of_mem hc), ?_⟩, BEq.rfl⟩
      rw [Chunk.key, hid c hc]

/-! ## Indexing a file of code -/

theorem symbols_of_analyse {plan : Plan} {now : Int} {language : Language} {hash : String} {parsed : Parsed}
    {row : Graph.LedgerRow} (h : analyse plan now o language text hash parsed = .ok y) (hrows : y.rows = [row]) :
    row.symbols = .int y.chunks.length := by
  unfold analyse at h
  split at h
  · simp only [bind_eq_ok, pure_eq_ok, Prod.exists, Prod.mk.injEq] at h
    obtain ⟨cs, -, cs', es, ⟨rfl, rfl⟩, repo, -, rfl⟩ := h
    obtain rfl := List.singleton_inj.1 hrows
    rfl
  · simp only [bind_eq_ok, pure_eq_ok, Prod.exists, Prod.mk.injEq] at h
    obtain ⟨symbols, -, cs, -, es, -, cs', es', ⟨rfl, rfl⟩, repo, -, rfl⟩ := h
    obtain rfl := List.singleton_inj.1 hrows
    rfl

/-- The last chunk of an id is what the parts have under it. -/
theorem Holds.get?_last {vs : List Search.Components} (h : Holds a y vs b) (hlen : y.chunks.length = vs.length)
    (part : Part) {c : Chunk} {cs ds : List Chunk} (hsplit : y.chunks = cs ++ c :: ds)
    (hlast : ∀ d ∈ ds, d.key ≠ c.key) :
    (b.held part).get? c.key = some (part.document c) := by
  have hentries : part.entries y.chunks = part.entries cs ++ (c.key, part.document c) :: part.entries ds := by
    rw [hsplit]
    exact List.map_append
  have hothers : ∀ e ∈ part.entries ds, ¬ (e.1 == c.key) = true := fun e he heq => by
    obtain ⟨d, hd, rfl⟩ := List.mem_map.1 he
    exact hlast d hd ((c.key_beq d.key).1 (BEq.symm heq))
  rw [h.held hlen part c.key, hentries, OrderedMap.insertAll_append, OrderedMap.insertAll_cons,
    OrderedMap.get?_insertAll_of_not_mem _ hothers, OrderedMap.get?_insert, if_pos BEq.rfl]

/-- The row of a file of code counts its symbols, and each part has an entry for each of their
names, which is that of the last symbol of the name. The numbers are the same, and the ids of the
symbols different, just if the names are. -/
theorem History.entries_of_symbols {language : Language} (h : History a es)
    (hok : (indexText parse o text true).on a = (.ok (.indexed language y), b)) (hcode : language ≠ .markdown)
    (hids : Separated (chunksIn ((Index.FileResult.indexed language y).events ++ es))) :
    ∃ symbols row, symbolsOf language ⟨Text.encode text⟩ (parse o.path text).tree = .ok symbols ∧
      asKey o.repo = .ok row.repo ∧ row.path = .str o.path ∧ b.store.ledger.get? row.file = some row ∧
      row.symbols = .int symbols.length ∧
      (∀ part, b.countOf part row.file = (symbols.map (·.qualifiedName)).dedup.length) ∧
      (∀ part cs c ds, y.chunks = cs ++ c :: ds → (∀ d ∈ ds, d.payload.symbolName ≠ c.payload.symbolName) →
        (b.held part).get? c.key = some (part.document c)) ∧
      ((y.chunks.map (·.id)).Nodup ↔ (symbols.map (·.qualifiedName)).Nodup) ∧
      ((∀ part, row.symbols = .int (b.countOf part row.file)) ↔ (symbols.map (·.qualifiedName)).Nodup) := by
  obtain ⟨hx, ⟨hno, -⟩ | ⟨_, _, hindexed, hp⟩⟩ := of_indexText hok
  case inl => exact absurd rfl (hno language y)
  cases hindexed
  obtain ⟨row, hrows, hrepo, hpath, -, hchunks, -⟩ := row_of_examine hx
  obtain ⟨-, -, hy⟩ := examine_indexed hx
  obtain ⟨hnames, hfrom, -⟩ := analyse_ok hy
  obtain ⟨vs, hvs, -, hb⟩ := of_persist hp
  have hlen := length_of_embedChunks hvs
  rw [namesIn, if_neg hcode] at hnames
  obtain ⟨symbols, hsymbols, hnames⟩ := bind_eq_ok.1 hnames
  have hnames : symbols.map (·.qualifiedName) = y.chunks.map (·.payload.symbolName) := pure_eq_ok.1 hnames
  have hlength : symbols.length = y.chunks.length := by
    rw [← List.length_map (·.qualifiedName), hnames, List.length_map]
  have hrow : row.symbols = .int symbols.length := by rw [hlength, symbols_of_analyse hy hrows]
  have hledger : b.store.ledger.get? row.file = some row := hb.get?_row hrows
  have hown : Separated y.chunks := by
    rw [events_indexed hrows] at hids
    exact hids.mono fun c hc => List.mem_append_left _ hc
  have hconsistent := (History.text h hok).consistent hids
  have hlatest : latest ((Index.FileResult.indexed language y).events ++ es) row.file = some y.chunks := by
    rw [events_indexed hrows]
    exact if_pos BEq.rfl
  obtain ⟨ks, hdistinct, hks, hmem⟩ := exists_distinct_keys hfrom hown
  have hcount : ∀ part, b.countOf part row.file = (symbols.map (·.qualifiedName)).dedup.length := fun part => by
    rw [hnames, ← hks]
    refine countOf_eq_length hdistinct fun k => (hmem k).trans ?_
    rw [hconsistent.idsOf, hlatest]
    rfl
  refine ⟨symbols, row, hsymbols, hrepo, hpath, hledger, hrow, hcount, fun part cs c ds hsplit hlast => ?_, ?_, ?_⟩
  · refine hb.get?_last hlen part hsplit fun d hd hkey => hlast d hd ?_
    have hmem : ∀ e ∈ c :: ds, e ∈ y.chunks := fun e he => by
      rw [hsplit]
      exact List.mem_append_right _ he
    exact hown.name (hmem d (List.mem_cons_of_mem _ hd)) (hmem c List.mem_cons_self) (Key.str.inj hkey)
  · rw [hnames]
    exact nodup_ids_iff hfrom hown
  · have hall : (symbols.map (·.qualifiedName)).length = symbols.length := List.length_map _
    constructor
    · intro hsame
      have hcounted : symbols.length = b.countOf .symbols row.file :=
        Int.ofNat.inj (Value.int.inj (hrow.symm.trans (hsame .symbols)))
      rw [hcount, ← hall] at hcounted
      exact List.dedup_eq_self.1 ((List.dedup_sublist _).eq_of_length hcounted.symm)
    · intro hnodup part
      rw [hrow, hcount part, hnodup.dedup, hall]

end SourceAtlas.Atlas

/-! ## A function that is declared again -/

namespace SourceAtlas.Sample

def twice : String := "def f(): pass\ndef f(): pass\n"

def parseTwice : Atlas.Parser := fun _ _ =>
  ⟨.node { kind := "module", first := 0, stop := 28 } [functionAt 0, functionAt 14],
    fun _ => .node { kind := "inline", first := 0, stop := 0 } []⟩

abbrev indexTwice : Outcome Index.FileResult × Atlas := (Atlas.indexText parseTwice origin twice true).on atlas

theorem names_of_twice : (symbolsOf .python ⟨Text.encode twice⟩ (parseTwice origin.path twice).tree).toOption.map
    (·.map (·.qualifiedName)) = some ["f", "f"] := by
  decide +kernel

end SourceAtlas.Sample

namespace SourceAtlas.Atlas

/-- The row counts two functions, and each part has one of them. -/
theorem entries_of_two_functions : ∃ row, Sample.indexTwice.2.store.ledger.get? row.file = some row ∧
    row.symbols = .int 2 ∧ ∀ part, Sample.indexTwice.2.countOf part row.file = 1 := by
  have hrun : Sample.indexTwice.1.toOption.bind (fun r => if r.skipReason?.isNone then r.language? else none) =
        some .python ∧
      Separated (chunksIn ((Sample.indexTwice.1.toOption.getD .unsupported).events ++ [])) := by decide +kernel
  obtain ⟨hindexed, hids⟩ := hrun
  obtain ⟨y, hy⟩ := eq_indexed hindexed
  have hok : Sample.indexTwice = (.ok (.indexed .python y), Sample.indexTwice.2) := eq_of_fst hy
  rw [hy] at hids
  obtain ⟨symbols, row, hsymbols, -, -, hrow, hcount, hentries, -⟩ :=
    (History.start Sample.plan Sample.disk).entries_of_symbols hok (by decide) hids
  have hnames := Sample.names_of_twice
  rw [hsymbols] at hnames
  have hnames : symbols.map (·.qualifiedName) = ["f", "f"] := Option.some.inj hnames
  have hlength : symbols.length = 2 := (List.length_map _).symm.trans (congrArg List.length hnames)
  refine ⟨row, hrow, by rw [hcount, hlength]; rfl, fun part => ?_⟩
  rw [hentries part, hnames]
  rfl

/-- The second function takes the place of the first everywhere but in the row. -/
theorem second_declaration_replaces_first :
    (∃ names, (symbolsOf .python ⟨Text.encode Sample.twice⟩
      (Sample.parseTwice "a.py" Sample.twice).tree).toOption.map
      (·.map (·.qualifiedName)) = some names ∧ ¬ names.Nodup) ∧
    (Sample.indexTwice.1.toOption.map fun r => decide (r.yield.chunks.map (·.id)).Nodup) = some false ∧
    ((Sample.indexTwice.2.store.ledger.get? (.str "repo", .str "a.py")).map fun row => row.symbols.same (.int 2)) =
      some true ∧
    ∀ part, Sample.indexTwice.2.countOf part (.str "repo", .str "a.py") = 1 := by
  have hrun : (Sample.indexTwice.1.toOption.map fun r => decide (r.yield.chunks.map (·.id)).Nodup) = some false ∧
      ((Sample.indexTwice.2.store.ledger.get? (.str "repo", .str "a.py")).map fun row =>
        row.symbols.same (.int 2)) =
        some true ∧
      Sample.indexTwice.2.countOf .symbols (.str "repo", .str "a.py") = 1 ∧
      Sample.indexTwice.2.countOf .vectors (.str "repo", .str "a.py") = 1 ∧
      Sample.indexTwice.2.countOf .texts (.str "repo", .str "a.py") = 1 := by decide +kernel
  obtain ⟨hids, hrow, hsymbols, hvectors, htexts⟩ := hrun
  refine ⟨⟨["f", "f"], Sample.names_of_twice, by decide⟩, hids, hrow, fun part => ?_⟩
  cases part <;> assumption

end SourceAtlas.Atlas
