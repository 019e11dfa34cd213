import SourceAtlas.Proofs.Scopes
import SourceAtlas.Proofs.Uses

/-!
# Vectors of one length

However an index is used, all vectors that it holds have the length that it
expects, and its table has rows of points that are still there. So a search for
a vector of that length always has an answer.
-/

namespace SourceAtlas

open Json (Value Record Key)

/-- No number is two lengths. -/
theorem Json.Value.eq_of_same_int {v : Value} {m n : Nat} (hm : v.same (.int m) = true)
    (hn : v.same (.int n) = true) :
    m = n := by
  have hnumber : ∀ {k : Nat}, v.same (.int k) = true → v.number? = some (.ofInt k) := by
    intro k hk
    cases v <;> simp_all [Value.same, Value.number?]
  have hsame := (hnumber hm).symm.trans (hnumber hn)
  exact Int.ofNat_inj.1 (by simpa [Decimal.Extended.ofInt] using hsame)

namespace Search.VectorIndex

def Numeric (vector : Components) : Prop := ∀ v ∈ vector, (asComponent v).toBool = true

def Saves (y : VectorIndex) (r : Record) : Prop := ∀ f ∈ y.toRecord, Record.get? r f.1 = some f.2

/-- An index that grew from a new one by uses of any kind, also by those that failed. -/
inductive Grown : VectorIndex → Prop where
  | new (dimensions : Value) : Grown { dimensions }
  | put {x points} : Grown x → (∀ p ∈ points, Numeric p.vector) → Grown ((put points).on x).2
  | delete {x} (p : Document → Bool) : Grown x → Grown ((delete p).on x).2
  | search {x} (vector workspace : Value) (filters : Filters) (limit : Value) : Grown x →
      Grown ((search vector workspace filters limit).on x).2
  | load {x y r} : Grown x → Grown y → Saves y r → Grown ((load (.obj r)).on x).2

structure Serves (x : VectorIndex) (t : Table) : Prop where
  width : x.dimensions.same (.int t.width) = true
  stored : ∀ r ∈ t.rows, (x.points.get? r.1).isSome = true

structure Rectangular (x : VectorIndex) : Prop where
  keyed : x.Keyed
  fits : ∀ e ∈ x.points.entries, x.dimensions.same (.int e.2.vector.length) = true
  numeric : ∀ e ∈ x.points.entries, Numeric e.2.vector
  cached : ∀ t, x.table = some t → x.Serves t

/-! ## Rows of numbers -/

variable {x y : VectorIndex} {vector : Components} {filters : Filters} {workspace : Value}

theorem Numeric.not_nested (h : Numeric vector) : vector.any isNested = false := by
  refine List.any_eq_false.2 fun v hv hnested => ?_
  have hv := h v hv
  cases v <;> simp [isNested] at hnested
  cases hv

theorem Numeric.row (h : Numeric vector) : ∃ row, vector.mapM asComponent = .ok row :=
  ⟨_, mapM_ok_map (g := fun v => (asComponent v).toOption.getD 0.0) fun v hv => eq_ok 0.0 (h v hv)⟩

theorem Numeric.query (h : Numeric vector) : ∃ numbers, queryOf vector.length (.list vector) = .ok numbers := by
  obtain ⟨row, hrow⟩ := h.row
  refine ⟨row, ?_⟩
  rw [queryOf_list _ h.not_nested, hrow]
  simp [bind, Except.bind, pure, Except.pure]

theorem Rectangular.layOut (h : Rectangular x) : ∃ t, layOut x.points.entries = .ok t := by
  by_cases hempty : x.points.entries = []
  · rw [hempty]
    exact ⟨_, rfl⟩
  obtain ⟨d, ds, hentries⟩ := List.exists_cons_of_ne_nil hempty
  have hrows : ∃ rows, List.Forall₂ RowOf x.points.entries rows := by
    have hrow : ∀ e ∈ x.points.entries, ∃ r, RowOf e r := by
      intro e he
      obtain ⟨row, hrow⟩ := (h.numeric e he).row
      exact ⟨(e.1, row), rfl, hrow⟩
    choose! row hrow using hrow
    refine ⟨x.points.entries.map row, ?_⟩
    rw [List.forall₂_map_right_iff, List.forall₂_same]
    exact hrow
  obtain ⟨rows, hrows⟩ := hrows
  refine ⟨⟨rows, d.2.vector.length⟩,
    (layOut_ok_iff hempty).2 ⟨fun e he => ⟨?_, (h.numeric e he).not_nested⟩, hrows⟩⟩
  exact Value.eq_of_same_int (h.fits e he) (h.fits d (hentries ▸ List.mem_cons_self))

theorem Rectangular.serves_of_layOut (h : Rectangular x) {t : Table} (hne : x.points.entries ≠ [])
    (ht : VectorIndex.layOut x.points.entries = .ok t) : x.Serves t := by
  obtain ⟨hfits, hrows⟩ := (layOut_ok_iff hne).1 ht
  obtain ⟨e, he⟩ := List.exists_mem_of_ne_nil _ hne
  refine ⟨(hfits e he).1 ▸ h.fits e he, fun r hr => ?_⟩
  obtain ⟨e, he, her⟩ := exists_of_mem_right hrows hr
  rw [← her.1, OrderedMap.get?_of_mem (v := e.2) he]
  rfl

theorem Rectangular.current (h : Rectangular x) (hsize : x.points.size ≠ 0) :
    ∃ t, x.current = .ok t ∧ x.Serves t := by
  unfold VectorIndex.current
  cases htable : x.table with
  | some t => exact ⟨t, rfl, h.cached t htable⟩
  | none =>
    obtain ⟨t, ht⟩ := h.layOut
    exact ⟨t, ht, h.serves_of_layOut (fun hnil => hsize (by rw [OrderedMap.size, hnil]; rfl)) ht⟩

/-! ## What each use keeps -/

theorem expected_of_same {dimensions : Value} {n : Nat} (h : dimensions.same (.int n) = true) (p : VectorPoint) :
    expected dimensions p = dimensions := by
  cases dimensions with
  | null => cases h
  | _ => rfl

/-- A length that is fixed for the first time breaks no vector, for there is none. -/
theorem Rectangular.expect (h : Rectangular x) (p : VectorPoint) :
    Rectangular { x with dimensions := expected x.dimensions p } where
  keyed := h.keyed
  fits e he := by rw [expected_of_same (h.fits e he)]; exact h.fits e he
  numeric := h.numeric
  cached t ht := by rw [expected_of_same (h.cached t ht).width]; exact h.cached t ht

theorem Rectangular.insert (h : Rectangular x) {p : VectorPoint} {id : Key} (hid : asKey p.id = .ok id)
    (hfit : x.dimensions.same (.int p.vector.length) = true) (hp : Numeric p.vector) :
    Rectangular { x with points := x.points.insert id p } where
  keyed := h.keyed.insert hid x.dimensions x.table
  fits e he := by
    rcases OrderedMap.mem_insert he with he | ⟨hv, -⟩
    · exact h.fits e he
    · rwa [hv]
  numeric e he := by
    rcases OrderedMap.mem_insert he with he | ⟨hv, -⟩
    · exact h.numeric e he
    · rwa [hv]
  cached t ht := by
    refine ⟨(h.cached t ht).width, fun r hr => ?_⟩
    rw [OrderedMap.get?_insert]
    split
    · rfl
    · exact (h.cached t ht).stored r hr

theorem Rectangular.bare (h : Rectangular x) : Rectangular { x with table := none } :=
  ⟨h.keyed, h.fits, h.numeric, nofun⟩

theorem Rectangular.put {points : List VectorPoint} (h : Rectangular x) (hpoints : ∀ p ∈ points, Numeric p.vector) :
    Rectangular ((put points).on x).2 := by
  induction points generalizing x with
  | nil => exact h.bare
  | cons p points ih =>
    obtain ⟨hp, hpoints⟩ := List.forall_mem_cons.1 hpoints
    rw [on_put_point]
    split
    · rename_i hfit
      cases hid : asKey p.id with
      | error f => exact h.expect p
      | ok id => exact ih ((h.expect p).insert hid hfit hp) hpoints
    · exact h.expect p

/-- A table outlives a deletion only if nothing was deleted. -/
theorem Rectangular.delete (h : Rectangular x) (p : Document → Bool) : Rectangular ((delete p).on x).2 := by
  obtain ⟨n, y, hdelete, hkept, hdimensions⟩ := delete_on p x
  obtain ⟨hkeyed, hsame, hbare⟩ := delete_spec hdelete h.keyed
  have hsub : ∀ e ∈ y.points.entries, e ∈ x.points.entries := by
    intro e he
    rw [hkept] at he
    exact (List.mem_filter.1 he).1
  rw [hdelete]
  refine ⟨hkeyed, fun e he => hdimensions ▸ h.fits e (hsub e he),
    fun e he => h.numeric e (hsub e he), fun t ht => ?_⟩
  by_cases hnone : n = 0
  · obtain ⟨hpoints, htable⟩ := hsame hnone
    have hserves := h.cached t (htable ▸ ht)
    exact ⟨hdimensions ▸ hserves.width, hpoints ▸ hserves.stored⟩
  · rw [hbare hnone] at ht
    cases ht

theorem Rectangular.search (h : Rectangular x) (vector workspace : Value) (filters : Filters) (limit : Value) :
    Rectangular ((search vector workspace filters limit).on x).2 := by
  rw [on_search]
  split
  · exact h
  rename_i hsize
  cases asCount x.points.size limit with
  | error f => exact h
  | ok n =>
    cases n with
    | zero => exact h
    | succ n =>
      obtain ⟨t, ht, hserves⟩ := h.current hsize
      rw [ht]
      refine ⟨h.keyed, h.fits, h.numeric, fun u hu => ?_⟩
      obtain rfl := Option.some.inj hu
      exact ⟨hserves.width, hserves.stored⟩

def ownKey (p : VectorPoint) : Key := (asKey p.id).toOption.getD .null

/-- What was saved is read back, each point under a key of its own. -/
theorem load_saves (hy : y.Keyed) {r : Record} (hr : Saves y r) (x : VectorIndex) :
    ∃ points, (load (.obj r)).on x = (.ok (), {
      dimensions := match y.dimensions with
        | .null => x.dimensions
        | n => n
      points }) ∧ points.entries = y.points.rekeyed ownKey := by
  have hown : ∀ e ∈ y.points.entries, asKey e.2.id = .ok (ownKey e.2) ∧ (e.1 == ownKey e.2) = true := by
    intro e he
    obtain ⟨id, hid, hkey⟩ := hy e he
    rw [ownKey, hid]
    exact ⟨rfl, hkey⟩
  have hkeyed : y.points.KeyedBy ownKey := fun e he => (hown e he).2
  have hread := on_readPoints (y.points.rekeyed ownKey) (fun e he => by
    obtain ⟨d, hd, rfl⟩ := List.mem_map.1 he
    exact ⟨rfl, (hown d hd).1⟩) { x with points := .empty }
  have hpoints : fieldOr (.obj r) "points" (.list []) = .ok (.list (y.points.values.map VectorPoint.toValue)) := by
    rw [fieldOr, hr ("points", _) (List.mem_cons_of_mem _ List.mem_cons_self)]
    rfl
  have hdimensions : fieldOr (.obj r) "dimensions" .null = .ok y.dimensions := by
    rw [fieldOr, hr ("dimensions", _) List.mem_cons_self]
    rfl
  have hmembers : members (.list (y.points.values.map VectorPoint.toValue)) =
      .ok ((y.points.rekeyed ownKey).map fun e => e.2.toValue) := by
    rw [← OrderedMap.map_snd_rekeyed y.points ownKey, List.map_map]
    rfl
  refine ⟨_, ?_, OrderedMap.entries_insertAll .empty _ hkeyed.distinct⟩
  simp only [load, Act.on_bind, Act.on_modify, Act.on_ofOutcome, hpoints, hmembers, hread, hdimensions]
  cases y.dimensions <;> rfl

theorem Rectangular.load (hy : Rectangular y) {r : Record} (hr : Saves y r) (x : VectorIndex) :
    Rectangular ((load (.obj r)).on x).2 := by
  obtain ⟨points, hload, hentries⟩ := load_saves hy.keyed hr x
  have hread : ∀ e ∈ points.entries, ∃ d ∈ y.points.entries, e = (ownKey d.2, d.2) := by
    intro e he
    rw [hentries] at he
    obtain ⟨d, hd, hde⟩ := List.mem_map.1 he
    exact ⟨d, hd, hde.symm⟩
  rw [hload]
  refine ⟨fun e he => ?_, fun e he => ?_, fun e he => ?_, nofun⟩
  all_goals obtain ⟨d, hd, rfl⟩ := hread e he
  · obtain ⟨id, hid, -⟩ := hy.keyed d hd
    exact ⟨id, hid, by rw [ownKey, hid]; exact BEq.rfl⟩
  · have hfit := hy.fits d hd
    cases hdimensions : y.dimensions with
    | null => rw [hdimensions] at hfit; cases hfit
    | _ => rwa [hdimensions] at hfit
  · exact hy.numeric d hd

theorem Grown.rectangular (h : Grown x) : Rectangular x := by
  induction h with
  | new dimensions =>
    exact ⟨fun e he => absurd he List.not_mem_nil, fun e he => absurd he List.not_mem_nil,
      fun e he => absurd he List.not_mem_nil, nofun⟩
  | put _ hpoints ih => exact ih.put hpoints
  | delete p _ ih => exact ih.delete p
  | search vector workspace filters limit _ ih => exact ih.search vector workspace filters limit
  | load _ _ hr _ ihy => exact ihy.load hr _

/-! ## Searches -/

theorem nearest_ok {ranked : List (Key × Float)} (hranked : ∀ r ∈ ranked, (x.points.get? r.1).isSome = true)
    (hfilters : ∀ d, (filters.accepts workspace d).toBool = true) (n : Nat) :
    ∃ hits, x.nearest ranked workspace filters n = .ok hits := by
  induction ranked generalizing n with
  | nil => exact ⟨[], by simp [nearest]; rfl⟩
  | cons r ranked ih =>
    obtain ⟨hr, hranked⟩ := List.forall_mem_cons.1 hranked
    obtain ⟨p, hp⟩ := Option.isSome_iff_exists.1 hr
    cases n with
    | zero => exact ⟨[], by simp [nearest]; rfl⟩
    | succ n =>
      obtain ⟨hits, hhits⟩ := ih hranked n
      rw [nearest, hp]
      simp only [Filters.accepts_eq (hfilters p.payload)]
      cases filters.passes workspace p.payload with
      | true => exact ⟨⟨p.id, r.2, p.payload⟩ :: hits, by simp [hhits, bind, Except.bind, pure, Except.pure]⟩
      | false => exact ih hranked (n + 1)

/-- However an index was used, its vectors have the length that it expects, the rows of its table
are those of stored points, and it answers each search for a vector of that length. -/
theorem Grown.searches (h : Grown x) :
    (∀ e ∈ x.points.entries, x.dimensions.same (.int e.2.vector.length) = true) ∧
    (∀ t, x.table = some t → ∀ r ∈ t.rows, (x.points.get? r.1).isSome = true) ∧
    ∀ (query : Components) (workspace : Value) (filters : Filters) (rs ks : List Value) (n : Int), Numeric query →
      x.dimensions = .null ∨ x.dimensions.same (.int query.length) = true →
      filters.repos = .list rs → filters.kinds = .list ks →
      ∃ hits, ((VectorIndex.search (.list query) workspace filters (.int n)).on x).1 = .ok hits := by
  have hx := h.rectangular
  refine ⟨hx.fits, fun t ht => (hx.cached t ht).stored,
    fun query workspace filters rs ks n hnumeric hlength hrepos hkinds => ?_⟩
  rw [on_search, asCount_int]
  split
  · exact ⟨[], rfl⟩
  rename_i hsize
  cases n.toNat with
  | zero => exact ⟨[], rfl⟩
  | succ n =>
    obtain ⟨t, ht, hserves⟩ := hx.current hsize
    have hquery : query.length = t.width := by
      have hwidth := hserves.width
      rcases hlength with hnull | hlength
      · rw [hnull] at hwidth
        cases hwidth
      · exact Value.eq_of_same_int hlength hwidth
    obtain ⟨numbers, hnumbers⟩ := hnumeric.query
    rw [ht]
    dsimp only
    rw [answer, ← hquery, hnumbers]
    refine nearest_ok (fun e he => ?_) (Filters.accepts_of_lists hrepos hkinds workspace) _
    obtain ⟨r, hr, hre, -⟩ := mem_rankedRows he
    rw [← hre]
    exact hserves.stored r hr

end Search.VectorIndex

namespace Sample

open Search (VectorIndex)
open Search.VectorIndex

/-- What a batch left that failed halfway, read back into a new index for longer vectors. -/
def reloaded : VectorIndex := ((load (.obj extended.toRecord)).on { dimensions := .int 5 }).2

theorem numeric_pointAt (id : String) (vector : List Float) : Numeric (pointAt id (vector.map .float)).vector := by
  intro v hv
  obtain ⟨x, -, rfl⟩ := List.mem_map.1 hv
  rfl

theorem grown_reloaded : Grown reloaded := by
  have hstored : Grown stored :=
    .put (.new .null) fun p hp => List.mem_singleton.1 hp ▸ numeric_pointAt "1" [1.0, 0.0]
  have hextended : Grown extended := by
    refine .put (hstored.search _ _ _ _) fun p hp => ?_
    rcases List.mem_cons.1 hp with rfl | hp
    · exact numeric_pointAt "2" [1.0, 1.0]
    · exact List.mem_singleton.1 hp ▸ numeric_pointAt "3" [1.0]
  refine .load (.new _) hextended fun f hf => ?_
  rcases List.mem_cons.1 hf with rfl | hf
  · rfl
  · rw [List.mem_singleton.1 hf]
    rfl

end Sample

namespace Search.VectorIndex

theorem searches_of_reloaded : Grown Sample.reloaded ∧ Sample.reloaded.dimensions.same (.int 2) = true ∧
    ∃ hits, ((search (.list [.float 1.0, .float 0.0]) "ws" {} (.int 10)).on Sample.reloaded).1 = .ok hits := by
  have hnumeric : Numeric [.float 1.0, .float 0.0] := Sample.numeric_pointAt "" [1.0, 0.0]
  exact ⟨Sample.grown_reloaded, rfl,
    (Grown.searches Sample.grown_reloaded).2.2 _ _ _ [] [] 10 hnumeric (.inr rfl) rfl rfl⟩

end Search.VectorIndex

end SourceAtlas
