import SourceAtlas.Proofs.Stores

/-!
# The table of vectors

Points can be laid out if their vectors are equally long rows of numbers. A
search ranks the rows of the table and answers with the first points that pass,
so two indexes answer alike if their tables score alike.
-/

namespace SourceAtlas.Search.VectorIndex

open Json (Value Key)

/-! ## Laying out -/

def Fits (width : Nat) (e : Key × VectorPoint) : Prop := e.2.vector.length = width ∧ e.2.vector.any isNested = false

def RowOf (e : Key × VectorPoint) (r : Key × List Float) : Prop := e.1 = r.1 ∧ e.2.vector.mapM asComponent = .ok r.2

theorem rows_ok_iff (es : List (Key × VectorPoint)) (rows : List (Key × List Float)) :
    es.mapM (fun e => do pure (e.1, ← e.2.vector.mapM asComponent)) = .ok rows ↔ List.Forall₂ RowOf es rows := by
  rw [mapM_ok_iff]
  have hrow : ∀ (e : Key × VectorPoint) (r : Key × List Float),
      ((do pure (e.1, ← e.2.vector.mapM asComponent)) : Outcome (Key × List Float)) = .ok r ↔ RowOf e r := by
    intro e r
    unfold RowOf
    rw [bind_eq_ok]
    constructor
    · rintro ⟨row, hrow, h⟩
      obtain rfl := pure_eq_ok.1 h
      exact ⟨rfl, hrow⟩
    · intro h
      exact ⟨r.2, h.2, pure_eq_ok.2 (Prod.ext h.1 rfl)⟩
  exact ⟨List.Forall₂.imp fun e r => (hrow e r).1, List.Forall₂.imp fun e r => (hrow e r).2⟩

theorem layOut_ok_iff {es : List (Key × VectorPoint)} {t : Table} (hes : es ≠ []) :
    layOut es = .ok t ↔ (∀ e ∈ es, Fits t.width e) ∧ List.Forall₂ RowOf es t.rows := by
  obtain ⟨rows, width⟩ := t
  obtain ⟨d, ds, rfl⟩ := List.exists_cons_of_ne_nil hes
  rw [← rows_ok_iff]
  unfold layOut Fits
  dsimp only
  by_cases hlength : ((d :: ds).any fun e => e.2.vector.length != d.2.vector.length) = true
  · rw [if_pos hlength]
    constructor
    · intro h
      cases h
    · intro h
      obtain ⟨e, he, hne⟩ := List.any_eq_true.1 hlength
      have hd := (h.1 d List.mem_cons_self).1
      simp [(h.1 e he).1, hd] at hne
  rw [if_neg hlength]
  by_cases hnested : ((d :: ds).any fun e => e.2.vector.any isNested) = true
  · rw [if_pos hnested]
    constructor
    · intro h
      cases h
    · intro h
      obtain ⟨e, he, hne⟩ := List.any_eq_true.1 hnested
      rw [(h.1 e he).2] at hne
      cases hne
  rw [if_neg hnested, bind_eq_ok]
  constructor
  · rintro ⟨rows', hrows, h⟩
    obtain ⟨rfl, rfl⟩ := Table.mk.inj (pure_eq_ok.1 h)
    refine ⟨fun e he => ⟨?_, ?_⟩, hrows⟩
    · by_contra hne
      exact hlength (List.any_eq_true.2 ⟨e, he, by simpa using hne⟩)
    · by_contra hne
      exact hnested (List.any_eq_true.2 ⟨e, he, by simpa using hne⟩)
  · intro h
    exact ⟨rows, h.2, pure_eq_ok.2 (by rw [(h.1 d List.mem_cons_self).1])⟩

theorem keys_of_rows {es : List (Key × VectorPoint)} {rows : List (Key × List Float)}
    (h : List.Forall₂ RowOf es rows) :
    es.map Prod.fst = rows.map Prod.fst := map_eq_map_iff.2 (h.imp fun _ _ hrow => hrow.1)

/-! ## What a search answers -/

/-- The table that a search looks at. -/
def current (x : VectorIndex) : Outcome Table :=
  match x.table with
  | some t => .ok t
  | none => layOut x.points.entries

def rankedRows (t : Table) (query : List Float) : List (Key × Float) :=
  (t.rows.map fun r => (r.1, cosine r.2 query)).mergeSort fun a b => closer a.2 b.2

def answer (x : VectorIndex) (t : Table) (vector workspace : Value) (filters : Filters) (limit : Nat) :
    Outcome (List VectorHit) := do
  x.nearest (rankedRows t (← queryOf t.width vector)) workspace filters limit

theorem on_search (x : VectorIndex) (vector workspace : Value) (filters : Filters) (limit : Value) :
    (search vector workspace filters limit).on x =
      if x.points.size = 0 then (.ok [], x)
      else match asCount x.points.size limit with
        | .error f => (.error f, x)
        | .ok 0 => (.ok [], x)
        | .ok (n + 1) => match x.current with
          | .error f => (.error f, x)
          | .ok t => (x.answer t vector workspace filters (n + 1), { x with table := some t }) := by
  unfold search current
  rw [Act.on_bind, Act.on_get]
  dsimp only
  by_cases hsize : x.points.size = 0
  · rw [if_pos hsize, if_pos (by simpa using hsize)]
    rfl
  rw [if_neg hsize, if_neg (by simpa using hsize)]
  rw [Act.on_bind, Act.on_liftOutcome]
  have hset : ∀ t : Table, (set { x with table := some t } : Act VectorIndex PUnit).on x =
      (.ok ⟨⟩, { x with table := some t }) :=
    fun _ => rfl
  cases asCount x.points.size limit with
  | error f => rfl
  | ok n =>
    cases n with
    | zero => rfl
    | succ n =>
      have hpos : ¬ (n + 1 == 0) = true := by simp
      dsimp only
      rw [if_neg hpos]
      cases htable : x.table with
      | some t =>
        simp only [Act.on_bind, Act.on_pure, hset, answer]
        cases queryOf t.width vector <;> rfl
      | none =>
        cases hlay : layOut x.points.entries with
        | error f => simp [Act.on_bind]
        | ok t =>
          simp only [Act.on_bind, Act.on_ofOutcome, hset, answer]
          cases queryOf t.width vector <;> rfl

/-- A limit is a number of its own or no bound at all. -/
theorem asCount_bound (limit : Value) :
    ∃ o : Outcome (Option Nat), ∀ bound, asCount bound limit = o.map (·.getD bound) := by
  unfold asCount
  cases limit.number? with
  | none => exact ⟨misfit, fun _ => rfl⟩
  | some r =>
    cases r with
    | exact r => exact ⟨.ok (some r.ceil.toNat), fun _ => rfl⟩
    | undefined => exact ⟨.ok none, fun _ => rfl⟩
    | infinite negative =>
      cases negative with
      | true => exact ⟨.ok (some 0), fun _ => rfl⟩
      | false => exact ⟨.ok none, fun _ => rfl⟩

def face (p : VectorPoint) : Value × Document := (p.id, p.payload)

/-- Points that look alike are found alike, and all of them are if the limit allows it. -/
theorem nearest_congr {x y : VectorIndex} {ranked : List (Key × Float)}
    (h : ∀ r ∈ ranked, (x.points.get? r.1).map face = (y.points.get? r.1).map face)
    (workspace : Value) (filters : Filters)
    {m n : Nat} (hmn : m = n ∨ ranked.length ≤ m ∧ ranked.length ≤ n) :
    x.nearest ranked workspace filters m = y.nearest ranked workspace filters n := by
  induction ranked generalizing m n with
  | nil => simp [nearest]
  | cons r ranked ih =>
    obtain ⟨id, score⟩ := r
    obtain ⟨hr, hrest⟩ := List.forall_mem_cons.1 h
    rw [List.length_cons] at hmn
    cases m with
    | zero =>
      obtain rfl : n = 0 := by omega
      rfl
    | succ m =>
      obtain ⟨n, rfl⟩ : ∃ k, n = k + 1 := ⟨n - 1, by omega⟩
      have hfewer := ih hrest (show m = n ∨ ranked.length ≤ m ∧ ranked.length ≤ n by omega)
      have hsame := ih hrest (show m + 1 = n + 1 ∨ ranked.length ≤ m + 1 ∧ ranked.length ≤ n + 1 by omega)
      unfold nearest
      dsimp only at hr ⊢
      cases hx : x.points.get? id with
      | none =>
        rw [hx] at hr
        have hy : y.points.get? id = none := by simpa using hr.symm
        rw [hy]
      | some p =>
        rw [hx] at hr
        obtain ⟨q, hy, hq⟩ := Option.map_eq_some_iff.1 hr.symm
        obtain ⟨hid, hpayload⟩ := Prod.mk.inj hq
        rw [hy]
        dsimp only
        rw [hfewer, hsame, hid, hpayload]

theorem accepts_all (d : Document) : Filters.accepts {} .null d = .ok true := rfl

/-- Without a filter and with a limit that allows it, each row gives a hit. -/
theorem nearest_all {x : VectorIndex} {ranked : List (Key × Float)} (h : ∀ r ∈ ranked, (x.points.get? r.1).isSome)
    {n : Nat} (hn : ranked.length ≤ n) : ∃ hits, x.nearest ranked .null {} n = .ok hits ∧
      List.Forall₂ (fun r (hit : VectorHit) => ∃ p, x.points.get? r.1 = some p ∧ hit.id = p.id ∧ hit.score = r.2)
        ranked hits := by
  induction ranked generalizing n with
  | nil => exact ⟨[], by simp [nearest]; rfl, .nil⟩
  | cons r ranked ih =>
    obtain ⟨id, score⟩ := r
    obtain ⟨hr, hrest⟩ := List.forall_mem_cons.1 h
    obtain ⟨p, hp⟩ := Option.isSome_iff_exists.1 hr
    obtain ⟨n, rfl⟩ : ∃ k, n = k + 1 := ⟨n - 1, by rw [List.length_cons] at hn; omega⟩
    obtain ⟨hits, hnearest, hhits⟩ := ih hrest (Nat.le_of_succ_le_succ hn)
    refine ⟨⟨p.id, score, p.payload⟩ :: hits, ?_, .cons ⟨p, hp, rfl, rfl⟩ hhits⟩
    unfold nearest
    dsimp only at hp ⊢
    rw [hp]
    dsimp only
    rw [accepts_all, hnearest]
    rfl

/-! ## Queries -/

theorem queryOf_list (width : Nat) {xs : Components} (hflat : xs.any isNested = false) :
    queryOf width (.list xs) = (do
      let query ← xs.mapM asComponent
      if xs.length != width then throw (wrongLength "search" (.int width) xs.length)
      pure query) := by
  have htable : rowLength? xs = none := by
    cases xs with
    | nil => rfl
    | cons v vs =>
      cases v with
      | list ws => simp [isNested] at hflat
      | _ => rfl
  simp [queryOf, htable, hflat]

theorem not_nested_of_queryOf {width : Nat} {vector : Value} {query : List Float}
    (h : queryOf width vector = .ok query) :
    ∃ xs, vector = .list xs ∧ xs.any isNested = false := by
  cases vector with
  | list xs =>
    refine ⟨xs, rfl, Bool.eq_false_iff.2 fun hnested => ?_⟩
    unfold queryOf at h
    dsimp only at h
    by_cases htable : (rowLength? xs).isSome = true
    · by_cases hlength : (xs.length != width) = true
      · simp [htable, hlength] at h
        cases h
      · simp [htable, hlength, misfit] at h
    · simp [htable, hnested] at h
      cases h
  | _ =>
    unfold queryOf at h
    obtain ⟨_, -, h⟩ := bind_eq_ok.1 h
    cases h

theorem length_of_queryOf {width : Nat} {vector : Value} {query : List Float}
    (h : queryOf width vector = .ok query) :
    query.length = width := by
  obtain ⟨xs, rfl, hflat⟩ := not_nested_of_queryOf h
  rw [queryOf_list width hflat] at h
  obtain ⟨q, hq, h⟩ := bind_eq_ok.1 h
  by_cases hlength : (xs.length != width) = true
  · rw [if_pos hlength] at h
    cases h
  · rw [if_neg hlength] at h
    obtain rfl := pure_eq_ok.1 h
    rw [← (mapM_ok_iff.1 hq).length_eq]
    simpa using hlength

theorem queryOf_numbers {width : Nat} {query numbers : List Float} :
    queryOf width (.list (query.map .float)) = .ok numbers ↔ numbers = query ∧ query.length = width := by
  have hflat : (query.map Value.float).any isNested = false := by
    simp [isNested]
  have hnumbers : (query.map Value.float).mapM asComponent = .ok query := by
    rw [mapM_ok_iff, List.forall₂_map_left_iff]
    exact List.forall₂_same.2 fun _ _ => rfl
  rw [queryOf_list width hflat, hnumbers]
  by_cases h : query.length = width
  · simp [h, pure, Except.pure, bind, Except.bind, eq_comm]
  · simp [h, throw, throwThe, MonadExceptOf.throw, bind, Except.bind]

/-! ## When searches agree -/

def Alike (t u : Table) : Prop :=
  t.width = u.width ∧ List.Forall₂ (fun r s => r.1 = s.1 ∧ ∀ query : List Float, query.length = t.width →
    cosine r.2 query = cosine s.2 query) t.rows u.rows

theorem Alike.refl (t : Table) : Alike t t := ⟨rfl, List.forall₂_same.2 fun _ _ => ⟨rfl, fun _ _ => rfl⟩⟩

theorem Alike.rankedRows_eq {t u : Table} (h : Alike t u) {query : List Float} (hquery : query.length = t.width) :
    rankedRows t query = rankedRows u query := by
  obtain ⟨-, hrows⟩ := h
  have hscored : (t.rows.map fun r => (r.1, cosine r.2 query)) = u.rows.map fun r => (r.1, cosine r.2 query) := by
    generalize t.rows = rows at hrows
    generalize u.rows = others at hrows
    induction hrows with
    | nil => rfl
    | cons hrow _ ih => rw [List.map_cons, List.map_cons, ih, hrow.1, hrow.2 query hquery]
  rw [rankedRows, rankedRows, hscored]

theorem mem_rankedRows {t : Table} {query : List Float} {e : Key × Float} (he : e ∈ rankedRows t query) :
    ∃ r ∈ t.rows, r.1 = e.1 ∧ cosine r.2 query = e.2 := by
  obtain ⟨r, hr, rfl⟩ := List.mem_map.1 (List.mem_mergeSort.1 he)
  exact ⟨r, hr, rfl, rfl⟩

theorem rankedRows_perm (t : Table) (query : List Float) :
    (rankedRows t query).Perm (t.rows.map fun r => (r.1, cosine r.2 query)) := List.mergeSort_perm _ _

theorem length_rankedRows (t : Table) (query : List Float) : (rankedRows t query).length = t.rows.length := by
  rw [rankedRows, List.length_mergeSort, List.length_map]

theorem answer_congr {x y : VectorIndex} {t u : Table} (halike : Alike t u)
    (hface : ∀ r ∈ t.rows, (x.points.get? r.1).map face = (y.points.get? r.1).map face) {m n : Nat}
    (hcount : m = n ∨ t.rows.length ≤ m ∧ t.rows.length ≤ n) (vector workspace : Value) (filters : Filters) :
    x.answer t vector workspace filters m = y.answer u vector workspace filters n := by
  unfold answer
  rw [← halike.1]
  cases hquery : queryOf t.width vector with
  | error f => rfl
  | ok query =>
    show x.nearest (rankedRows t query) workspace filters m = y.nearest (rankedRows u query) workspace filters n
    rw [← halike.rankedRows_eq (length_of_queryOf hquery)]
    refine nearest_congr (fun e he => ?_) workspace filters (by rwa [length_rankedRows])
    obtain ⟨r, hr, hre, -⟩ := mem_rankedRows he
    rw [← hre]
    exact hface r hr

theorem search_congr {x y : VectorIndex} (hsize : x.points.size = 0 ↔ y.points.size = 0)
    (hcurrent : (∃ f, x.current = .error f ∧ y.current = .error f ∧ x.points.size = y.points.size) ∨
      ∃ t u, x.current = .ok t ∧ y.current = .ok u ∧ Alike t u ∧
        t.rows.length ≤ x.points.size ∧ t.rows.length ≤ y.points.size ∧
        ∀ r ∈ t.rows, (x.points.get? r.1).map face = (y.points.get? r.1).map face)
    (vector workspace : Value) (filters : Filters) (limit : Value) :
    ((search vector workspace filters limit).on x).1 = ((search vector workspace filters limit).on y).1 := by
  rw [on_search, on_search]
  by_cases hempty : x.points.size = 0
  · rw [if_pos hempty, if_pos (hsize.1 hempty)]
  rw [if_neg hempty, if_neg fun h => hempty (hsize.2 h)]
  obtain ⟨o, ho⟩ := asCount_bound limit
  rw [ho, ho]
  obtain ⟨f, hx, hy, hsame⟩ | ⟨t, u, hx, hy, halike, hlx, hly, hface⟩ := hcurrent
  · rw [hx, hy, hsame]
    cases o with
    | error f => rfl
    | ok n =>
      dsimp only [Except.map]
      cases n.getD y.points.size <;> rfl
  · rw [hx, hy]
    cases o with
    | error f => rfl
    | ok n =>
      dsimp only [Except.map]
      cases n with
      | some n =>
        cases n with
        | zero => rfl
        | succ n => exact answer_congr halike hface (.inl rfl) vector workspace filters
      | none =>
        obtain ⟨m, hm⟩ := Nat.exists_eq_succ_of_ne_zero hempty
        obtain ⟨n, hn⟩ := Nat.exists_eq_succ_of_ne_zero fun h => hempty (hsize.2 h)
        rw [hm] at hlx
        rw [hn] at hly
        dsimp only [Option.getD]
        rw [hm, hn]
        exact answer_congr halike hface (.inr ⟨hlx, hly⟩) vector workspace filters

end SourceAtlas.Search.VectorIndex
