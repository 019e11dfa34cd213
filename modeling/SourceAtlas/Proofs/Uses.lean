import SourceAtlas.Proofs.Tables

/-!
# Vector indexes in use

A search looks at the table that the points were laid out in last. Adding
points that succeeds drops the table. Adding that fails does not, so what was
added or replaced before the failure is not seen until the table is dropped.
-/

namespace SourceAtlas.Search.VectorIndex

open Json (Value Key)

/-! ## Uses of an index -/

def Keyed (x : VectorIndex) : Prop := ∀ e ∈ x.points.entries, ∃ id, asKey e.2.id = .ok id ∧ (e.1 == id) = true

def laidBy (x : VectorIndex) (limit : Value) : Option (List (Key × VectorPoint)) :=
  match asCount x.points.size limit with
  | .ok (_ + 1) => if x.points.size ≠ 0 ∧ (layOut x.points.entries).toBool then some x.points.entries else none
  | _ => none

/-- An index that is used in any way, with the points as they were laid out for its searches. -/
inductive Used (dimensions : Value) : VectorIndex → Option (List (Key × VectorPoint)) → Prop where
  | new : Used dimensions { dimensions } none
  | put {x y laid points} : Used dimensions x laid → (put points).on x = (.ok (), y) → Used dimensions y none
  | putPart {x y laid points f} : Used dimensions x laid → (put points).on x = (.error f, y) →
      Used dimensions y laid
  | delete {x y laid p n} : Used dimensions x laid → (delete p).on x = (.ok (n + 1), y) → Used dimensions y none
  | deleteNone {x y laid p} : Used dimensions x laid → (delete p).on x = (.ok 0, y) → Used dimensions y laid
  | load {x y laid data} : Used dimensions x laid → (load data).on x = (.ok (), y) → Used dimensions y none
  | search {x laid} vector workspace filters limit : Used dimensions x laid →
      Used dimensions ((search vector workspace filters limit).on x).2 (laid.or (x.laidBy limit))

/-- The table is that of the points that were laid out, which are the first ones that there are. -/
structure Laid (x : VectorIndex) (laid : Option (List (Key × VectorPoint))) : Prop where
  keyed : x.Keyed
  bare : laid = none → x.table = none
  drawn : ∀ old, laid = some old → old ≠ [] ∧ old.map Prod.fst <+: x.points.keys ∧ ∃ t,
    layOut old = .ok t ∧ x.table = some t

theorem length_le_of_front {x : VectorIndex} {old : List (Key × VectorPoint)}
    (h : old.map Prod.fst <+: x.points.keys) :
    old.length ≤ x.points.size := by
  have hlength := h.length_le
  rwa [List.length_map, OrderedMap.keys, List.length_map] at hlength

theorem Keyed.insert {x : VectorIndex} (h : x.Keyed) {p : VectorPoint} {id : Key} (hid : asKey p.id = .ok id)
    (dimensions : Value) (table : Option Table) :
    Keyed { dimensions, points := x.points.insert id p, table } := by
  intro e he
  rcases OrderedMap.mem_insert he with he | ⟨hv, hk⟩
  · exact h e he
  · exact ⟨id, hv ▸ hid, hk⟩

theorem put_spec (points : List VectorPoint) (x : VectorIndex) (hx : x.Keyed) :
    let r := (put points).on x
    r.2.Keyed ∧ x.points.keys <+: r.2.points.keys ∧ (r.1 = .ok () → r.2.table = none) ∧
      ∀ f, r.1 = .error f → r.2.table = x.table := by
  induction points generalizing x with
  | nil => exact ⟨hx, List.prefix_refl _, fun _ => rfl, fun f h => (by cases h)⟩
  | cons p points ih =>
    rw [on_put_point]
    by_cases hlength : (expected x.dimensions p).same (.int p.vector.length) = true
    · rw [if_pos hlength]
      cases hid : asKey p.id with
      | error f => exact ⟨hx, List.prefix_refl _, fun h => (by cases h), fun _ _ => rfl⟩
      | ok id =>
        obtain ⟨hkeyed, hfront, hok, herror⟩ := ih _ (hx.insert hid (expected x.dimensions p) x.table)
        exact ⟨hkeyed, (x.points.keys_prefix_insert id p).trans hfront, hok, herror⟩
    · rw [if_neg hlength]
      exact ⟨hx, List.prefix_refl _, fun h => (by cases h), fun _ _ => rfl⟩

theorem delete_spec {p : Document → Bool} {x y : VectorIndex} {n : Nat}
    (h : (delete p).on x = (.ok n, y)) (hx : x.Keyed) :
    y.Keyed ∧ (n = 0 → y.points = x.points ∧ y.table = x.table) ∧ (n ≠ 0 → y.table = none) := by
  obtain ⟨hn, rfl⟩ := Prod.mk.inj h
  have hcount : (x.points.filter fun _ point => p point.payload).size = n := Except.ok.inj hn
  refine ⟨fun e he => hx e (List.mem_filter.1 he).1, fun hzero => ⟨?_, ?_⟩, fun hsome => ?_⟩
  · apply OrderedMap.ext_entries
    refine List.filter_eq_self.2 fun e he => ?_
    rw [hzero, OrderedMap.size, List.length_eq_zero_iff] at hcount
    have hkept := List.filter_eq_nil_iff.1 hcount e he
    simpa using hkept
  · show (if (x.points.filter fun _ point => p point.payload).size = 0 then x.table else none) = x.table
    rw [if_pos (hcount.trans hzero)]
  · show (if (x.points.filter fun _ point => p point.payload).size = 0 then x.table else none) = none
    rw [if_neg fun h => hsome (hcount.symm.trans h)]

theorem keeps_load (data : Value) : Act.Keeps Keyed (load data) := by
  refine .bind (.modify fun x _ e he => absurd he List.not_mem_nil) fun _ => .bind (.ofOutcome _) fun points => ?_
  refine .bind (.ofOutcome _) fun all => .bind (.forM (fun v => ?_) all) fun _ =>
    .bind (.ofOutcome _) fun dimensions => ?_
  · refine .bind (.ofOutcome _) fun p => .of_bind fun id hid => .modify fun x hx => ?_
    exact hx.insert hid x.dimensions x.table
  · have hdrop : Act.Keeps Keyed (modify fun x => { x with table := none }) := .modify fun x hx => hx
    cases dimensions with
    | null => exact hdrop
    | _ => exact .bind (.modify fun x hx => hx) fun _ => hdrop

theorem table_of_load {data : Value} {x y : VectorIndex} (h : (load data).on x = (.ok (), y)) : y.table = none := by
  obtain ⟨_, _, -, h⟩ := Act.bind_ok h
  obtain ⟨points, _, -, h⟩ := Act.bind_ok h
  obtain ⟨all, _, -, h⟩ := Act.bind_ok h
  obtain ⟨_, _, -, h⟩ := Act.bind_ok h
  obtain ⟨dimensions, _, -, h⟩ := Act.bind_ok h
  cases dimensions <;> exact (Prod.mk.inj h).2 ▸ rfl

theorem Laid.search {x : VectorIndex} {laid : Option (List (Key × VectorPoint))} (h : Laid x laid)
    (vector workspace : Value) (filters : Filters) (limit : Value) :
    Laid ((VectorIndex.search vector workspace filters limit).on x).2 (laid.or (x.laidBy limit)) := by
  rw [on_search]
  unfold laidBy
  by_cases hempty : x.points.size = 0
  · have hnone : (match asCount x.points.size limit with
        | .ok (_ + 1) =>
          if x.points.size ≠ 0 ∧ (layOut x.points.entries).toBool then some x.points.entries else none
        | _ => none) = none := by
      split <;> simp [hempty]
    rw [hnone, if_pos hempty, Option.or_none]
    exact h
  rw [if_neg hempty]
  cases asCount x.points.size limit with
  | error f => rwa [Option.or_none]
  | ok n =>
    cases n with
    | zero => rwa [Option.or_none]
    | succ n =>
      cases laid with
      | some old =>
        obtain ⟨hne, hold, t, ht, htable⟩ := h.drawn old rfl
        have hcurrent : x.current = .ok t := by rw [current, htable]
        rw [hcurrent, Option.some_or]
        exact ⟨h.keyed, fun h => (by cases h), fun o ho => Option.some.inj ho ▸ ⟨hne, hold, t, ht, rfl⟩⟩
      | none =>
        have htable := h.bare rfl
        have hcurrent : x.current = layOut x.points.entries := by rw [current, htable]
        rw [hcurrent, Option.none_or]
        cases hlay : layOut x.points.entries with
        | error f => simpa [hlay, Except.toBool] using h
        | ok t =>
          have hne : x.points.entries ≠ [] := fun h => hempty (by rw [OrderedMap.size, h, List.length_nil])
          have hlaid : (if x.points.size ≠ 0 ∧ (Except.ok t : Outcome Table).toBool = true then
              some x.points.entries else none) = some x.points.entries := if_pos ⟨hempty, rfl⟩
          dsimp only
          rw [hlaid]
          exact ⟨h.keyed, fun h => (by cases h),
            fun o ho => Option.some.inj ho ▸ ⟨hne, List.prefix_refl _, t, hlay, rfl⟩⟩

theorem Used.laid {dimensions : Value} {x : VectorIndex} {laid : Option (List (Key × VectorPoint))}
    (h : Used dimensions x laid) : Laid x laid := by
  induction h with
  | new => exact ⟨fun e he => absurd he List.not_mem_nil, fun _ => rfl, fun old hold => (by cases hold)⟩
  | @put x y laid points hx hput ih =>
    obtain ⟨hkeyed, -, hok, -⟩ := put_spec points x ih.keyed
    rw [hput] at hkeyed hok
    exact ⟨hkeyed, fun _ => hok rfl, fun old hold => (by cases hold)⟩
  | @putPart x y laid points f hx hput ih =>
    obtain ⟨hkeyed, hfront, -, herror⟩ := put_spec points x ih.keyed
    rw [hput] at hkeyed hfront herror
    refine ⟨hkeyed, fun hnone => (herror f rfl).trans (ih.bare hnone), fun old hold => ?_⟩
    obtain ⟨hne, hold, t, ht, htable⟩ := ih.drawn old hold
    exact ⟨hne, hold.trans hfront, t, ht, (herror f rfl).trans htable⟩
  | delete hx hdelete ih =>
    obtain ⟨hkeyed, -, hsome⟩ := delete_spec hdelete ih.keyed
    exact ⟨hkeyed, fun _ => hsome (Nat.succ_ne_zero _), fun old hold => (by cases hold)⟩
  | @deleteNone x y laid p hx hdelete ih =>
    obtain ⟨hkeyed, hzero, -⟩ := delete_spec hdelete ih.keyed
    obtain ⟨hpoints, htable⟩ := hzero rfl
    refine ⟨hkeyed, fun hnone => htable.trans (ih.bare hnone), fun old hold => ?_⟩
    rw [hpoints, htable]
    exact ih.drawn old hold
  | @load x y laid data hx hload ih =>
    have hkeyed := keeps_load data x ih.keyed
    rw [hload] at hkeyed
    exact ⟨hkeyed, fun _ => table_of_load hload, fun old hold => (by cases hold)⟩
  | search vector workspace filters limit _ ih => exact ih.search vector workspace filters limit

/-! ## What searches see -/

def holding (points : List (Key × VectorPoint)) : VectorIndex :=
  { dimensions := .null, points := OrderedMap.empty.insertAll points }

/-- The points that searches see: those that were laid out, with the vectors that they had then. -/
def seen (laid : Option (List (Key × VectorPoint))) (points : List (Key × VectorPoint)) :
    List (Key × VectorPoint) :=
  match laid with
  | none => points
  | some old => List.zipWith (fun o e => (e.1, { e.2 with vector := o.2.vector })) old points

/-- Whether the points give the scores that they gave when they were laid out. -/
def SameScores (laid : Option (List (Key × VectorPoint))) (points : List (Key × VectorPoint)) : Prop :=
  ∀ old, laid = some old → ∃ t u, layOut old = .ok t ∧ layOut points = .ok u ∧ Alike t u

theorem entries_holding {points : List (Key × VectorPoint)} (h : points.Pairwise fun a b => (a.1 == b.1) = false) :
    (holding points).points.entries = points := OrderedMap.entries_insertAll .empty points h

theorem points_holding (x : VectorIndex) : (holding x.points.entries).points = x.points :=
  x.points.insertAll_entries

theorem seen_spec {old points : List (Key × VectorPoint)} (h : old.map Prod.fst <+: points.map Prod.fst) :
    List.Forall₂ (fun o e => o.1 = e.1 ∧ o.2.vector = e.2.vector) old (seen (some old) points) ∧
      List.Forall₂ (fun e p => e.1 = p.1 ∧ face e.2 = face p.2) (seen (some old) points)
        (points.take old.length) := by
  unfold seen
  dsimp only
  induction old generalizing points with
  | nil => exact ⟨.nil, .nil⟩
  | cons o old ih =>
    cases points with
    | nil => simp at h
    | cons p points =>
      rw [List.map_cons, List.map_cons, List.cons_prefix_cons] at h
      obtain ⟨hvectors, hfaces⟩ := ih h.2
      exact ⟨.cons ⟨h.1, rfl⟩ hvectors, .cons ⟨rfl, rfl⟩ hfaces⟩

theorem layOut_congr {es fs : List (Key × VectorPoint)} {t : Table} (hes : es ≠ []) (h : layOut es = .ok t)
    (hsame : List.Forall₂ (fun e f => e.1 = f.1 ∧ e.2.vector = f.2.vector) es fs) : layOut fs = .ok t := by
  have hfs : fs ≠ [] := by
    rintro rfl
    exact hes (List.forall₂_nil_right_iff.1 hsame)
  rw [layOut_ok_iff hes] at h
  rw [layOut_ok_iff hfs]
  obtain ⟨hfits, hrows⟩ := h
  generalize t.rows = rows at hrows
  clear hes hfs
  induction hsame generalizing rows with
  | nil => exact ⟨fun e he => absurd he List.not_mem_nil, hrows⟩
  | cons hef _ ih =>
    obtain ⟨hfit, hfits⟩ := List.forall_mem_cons.1 hfits
    cases hrows with
    | cons hrow hrows =>
      obtain ⟨hfits, hrows⟩ := ih hfits _ hrows
      unfold Fits RowOf at *
      rw [hef.2] at hfit hrow
      rw [hef.1] at hrow
      exact ⟨List.forall_mem_cons.2 ⟨hfit, hfits⟩, .cons hrow hrows⟩

/-- Where no table is kept, a search answers from the points that there are. -/
theorem search_bare {x : VectorIndex} (h : x.table = none) (vector workspace : Value)
    (filters : Filters) (limit : Value) :
    ((search vector workspace filters limit).on x).1 =
      ((search vector workspace filters limit).on (holding x.points.entries)).1 := by
  have hpoints := points_holding x
  have hx : x.current = layOut x.points.entries := by rw [current, h]
  have hy : (holding x.points.entries).current = layOut x.points.entries := by
    rw [current, hpoints]
    rfl
  apply search_congr
  · rw [hpoints]
  · rw [hpoints, hx, hy]
    cases hlay : layOut x.points.entries with
    | error f => exact .inl ⟨f, rfl, rfl, rfl⟩
    | ok t =>
      have hlength : t.rows.length ≤ x.points.size := by
        by_cases hempty : x.points.entries = []
        · rw [hempty] at hlay
          obtain rfl := Except.ok.inj hlay
          exact Nat.zero_le _
        · exact Nat.le_of_eq ((layOut_ok_iff hempty).1 hlay).2.length_eq.symm
      exact .inr ⟨t, t, rfl, rfl, .refl t, hlength, hlength, fun _ _ => rfl⟩

theorem entries_holding_seen {x : VectorIndex} {old : List (Key × VectorPoint)}
    (h : old.map Prod.fst <+: x.points.keys) :
    (holding (seen (some old) x.points.entries)).points.entries = seen (some old) x.points.entries := by
  have hkeys : (seen (some old) x.points.entries).map Prod.fst = old.map Prod.fst :=
    (map_eq_map_iff.2 ((seen_spec h).1.imp fun _ _ hoe => hoe.1)).symm
  refine entries_holding (List.pairwise_map.1 (?_ : Distinct ((seen (some old) x.points.entries).map Prod.fst)))
  rw [hkeys]
  exact List.Pairwise.sublist h.sublist x.points.distinct_keys

/-- Of a point that was laid out an index knows the same as the points that searches see. -/
theorem face_seen {x : VectorIndex} {old : List (Key × VectorPoint)} (h : old.map Prod.fst <+: x.points.keys)
    {o : Key × VectorPoint} (ho : o ∈ old) :
    (x.points.get? o.1).map face = ((holding (seen (some old) x.points.entries)).points.get? o.1).map face := by
  obtain ⟨hvectors, hfaces⟩ := seen_spec h
  obtain ⟨e, he, hoe⟩ := exists_of_mem_left hvectors ho
  obtain ⟨p, hp, hep, hface⟩ := exists_of_mem_left hfaces he
  have hxp : x.points.get? o.1 = some p.2 := by
    rw [hoe.1, hep]
    exact OrderedMap.get?_of_mem (List.mem_of_mem_take hp)
  have hye : (holding (seen (some old) x.points.entries)).points.get? o.1 = some e.2 := by
    rw [hoe.1]
    exact OrderedMap.get?_of_mem (by rwa [entries_holding_seen h])
  rw [hxp, hye, Option.map_some, Option.map_some, hface]

/-- A search answers from the points that were laid out last, with what is known of them now. -/
theorem Laid.search_seen {x : VectorIndex} {laid : Option (List (Key × VectorPoint))} (h : Laid x laid)
    (vector workspace : Value) (filters : Filters) (limit : Value) :
    ((VectorIndex.search vector workspace filters limit).on x).1 =
      ((VectorIndex.search vector workspace filters limit).on (holding (seen laid x.points.entries))).1 := by
  cases laid with
  | none => exact search_bare (h.bare rfl) vector workspace filters limit
  | some old =>
    obtain ⟨hne, hfront, t, ht, htable⟩ := h.drawn old rfl
    obtain ⟨hvectors, -⟩ := seen_spec hfront
    have hrows := ((layOut_ok_iff hne).1 ht).2
    have hentries := entries_holding_seen hfront
    have hx : x.current = .ok t := by rw [current, htable]
    have hy : (holding (seen (some old) x.points.entries)).current = .ok t := by
      show layOut (holding (seen (some old) x.points.entries)).points.entries = .ok t
      rw [hentries]
      exact layOut_congr hne ht hvectors
    have hsize : (holding (seen (some old) x.points.entries)).points.size = old.length := by
      rw [OrderedMap.size, hentries, hvectors.length_eq]
    have hle := length_le_of_front hfront
    have hpos : old.length ≠ 0 := fun h => hne (List.length_eq_zero_iff.1 h)
    apply search_congr
    · rw [hsize]
      omega
    · refine .inr ⟨t, t, hx, hy, .refl t, ?_, ?_, fun r hr => ?_⟩
      · rwa [← hrows.length_eq]
      · rw [hsize]
        exact Nat.le_of_eq hrows.length_eq.symm
      · obtain ⟨o, ho, hor⟩ := exists_of_mem_right hrows hr
        rw [← hor.1]
        exact face_seen hfront ho

/-! ## When the table cannot be told -/

/-- What is asked to see all scores: the numbers alone, with no filter and room for every point. -/
def askAll (query : List Float) (x : VectorIndex) : Outcome (List VectorHit) :=
  ((search (.list (query.map .float)) .null {} (.int x.points.size)).on x).1

theorem askAll_eq {x : VectorIndex} (hsize : x.points.size ≠ 0) (query : List Float) :
    askAll query x = x.current >>= fun t => x.answer t (.list (query.map .float)) .null {} x.points.size := by
  unfold askAll
  rw [on_search, if_neg hsize]
  have hcount : asCount x.points.size (.int x.points.size) = .ok x.points.size := by
    show (.ok ((x.points.size : Int) : Rat).ceil.toNat : Outcome Nat) = _
    rw [Rat.ceil_intCast, Int.toNat_natCast]
  obtain ⟨n, hn⟩ := Nat.exists_eq_succ_of_ne_zero hsize
  rw [hcount, hn]
  cases x.current <;> rfl

theorem answer_all {x : VectorIndex} {t : Table} {query : List Float} (hquery : query.length = t.width)
    (hrows : ∀ r ∈ t.rows, (x.points.get? r.1).isSome) (hlength : t.rows.length ≤ x.points.size) :
    ∃ hits, x.answer t (.list (query.map .float)) .null {} x.points.size = .ok hits ∧
      List.Forall₂ (fun r (hit : VectorHit) => ∃ p, x.points.get? r.1 = some p ∧ hit.id = p.id ∧ hit.score = r.2)
        (rankedRows t query) hits := by
  unfold answer
  rw [queryOf_numbers.2 ⟨rfl, hquery⟩]
  refine nearest_all (fun e he => ?_) (by rwa [length_rankedRows])
  obtain ⟨r, hr, hre, -⟩ := mem_rankedRows he
  rw [← hre]
  exact hrows r hr

theorem rankedRows_eq_of_hits {x : VectorIndex} (hkeyed : x.Keyed) {t u : Table} {query : List Float}
    {hits : List VectorHit}
    (ht : ∀ r ∈ t.rows, r.1 ∈ x.points.keys) (hu : ∀ r ∈ u.rows, r.1 ∈ x.points.keys)
    (h : List.Forall₂ (fun r (hit : VectorHit) => ∃ p, x.points.get? r.1 = some p ∧ hit.id = p.id ∧ hit.score = r.2)
      (rankedRows t query) hits)
    (h' : List.Forall₂ (fun r (hit : VectorHit) => ∃ p,
      x.points.get? r.1 = some p ∧ hit.id = p.id ∧ hit.score = r.2)
      (rankedRows u query) hits) : rankedRows t query = rankedRows u query := by
  have hid : ∀ k p, x.points.get? k = some p → ∃ id, asKey p.id = .ok id ∧ (k == id) = true := by
    intro k p hp
    obtain ⟨j, hj, hjk⟩ := OrderedMap.mem_of_get? hp
    obtain ⟨id, hid, hjid⟩ := hkeyed _ hj
    exact ⟨id, hid, BEq.trans (BEq.symm hjk) hjid⟩
  have hmem : ∀ e ∈ rankedRows t query, e.1 ∈ x.points.keys := by
    intro e he
    obtain ⟨r, hr, hre, -⟩ := mem_rankedRows he
    exact hre ▸ ht r hr
  have hmem' : ∀ e ∈ rankedRows u query, e.1 ∈ x.points.keys := by
    intro e he
    obtain ⟨r, hr, hre, -⟩ := mem_rankedRows he
    exact hre ▸ hu r hr
  generalize rankedRows t query = es at h hmem
  generalize rankedRows u query = fs at h' hmem'
  induction h generalizing fs with
  | nil => exact (List.forall₂_nil_right_iff.1 h').symm
  | @cons e hit es hits hhit _ ih =>
    cases h' with
    | @cons f _ fs _ hhit' hrest' =>
      obtain ⟨he, hes⟩ := List.forall_mem_cons.1 hmem
      obtain ⟨hf, hfs⟩ := List.forall_mem_cons.1 hmem'
      obtain ⟨p, hp, hpid, hscore⟩ := hhit
      obtain ⟨q, hq, hqid, hscore'⟩ := hhit'
      obtain ⟨id, hid₁, hek⟩ := hid _ _ hp
      obtain ⟨id', hid₂, hfk⟩ := hid _ _ hq
      rw [← hpid, hqid, hid₂] at hid₁
      obtain rfl := Except.ok.inj hid₁
      have hkey : e.1 = f.1 := x.points.distinct_keys.eq_of_beq he hf (BEq.trans hek (BEq.symm hfk))
      rw [ih hes fs hrest' hfs, Prod.ext hkey (hscore.symm.trans hscore')]

theorem eq_of_perm_of_keys {α β : Type} {l m : List (α × β)} (hkeys : l.map Prod.fst = m.map Prod.fst)
    (hnodup : (l.map Prod.fst).Nodup) (hperm : l.Perm m) : l = m := by
  induction l generalizing m with
  | nil => exact (List.nil_perm.1 hperm).symm
  | cons a l ih =>
    obtain ⟨b, m, rfl⟩ : ∃ b m', m = b :: m' := by
      cases m with
      | nil => cases hkeys
      | cons b m => exact ⟨b, m, rfl⟩
    obtain ⟨hab, hrest⟩ := List.cons.inj hkeys
    obtain ⟨hnew, hnodup⟩ := List.nodup_cons.1 hnodup
    have hsame : a = b := by
      rcases List.mem_cons.1 (hperm.mem_iff.1 List.mem_cons_self) with h | h
      · exact h
      · exact absurd (hrest ▸ List.mem_map_of_mem h) hnew
    subst hsame
    rw [ih hrest hnodup hperm.cons_inv]

theorem layOut_of_agree {x : VectorIndex} {old : List (Key × VectorPoint)} {t : Table}
    (hkeyed : x.Keyed) (hne : old ≠ []) (hfront : old.map Prod.fst <+: x.points.keys)
    (ht : layOut old = .ok t) (htable : x.table = some t) {query : List Float}
    (hquery : query.length = t.width) (hagree : askAll query x = askAll query (holding x.points.entries)) :
    ∃ u, layOut x.points.entries = .ok u ∧ query.length = u.width ∧ rankedRows t query = rankedRows u query := by
  have hpoints := points_holding x
  have hrows := ((layOut_ok_iff hne).1 ht).2
  have hkeys : ∀ r ∈ t.rows, r.1 ∈ x.points.keys := by
    intro r hr
    obtain ⟨o, ho, hor⟩ := exists_of_mem_right hrows hr
    rw [← hor.1]
    exact hfront.subset (List.mem_map_of_mem ho)
  have hfound : ∀ k ∈ x.points.keys, (x.points.get? k).isSome := by
    intro k hk
    rw [← OrderedMap.contains_keys]
    exact contains_of_mem hk
  have hle := length_le_of_front hfront
  have hsize : x.points.size ≠ 0 := fun h => hne (List.length_eq_zero_iff.1 (Nat.le_zero.1 (h ▸ hle)))
  obtain ⟨hits, hanswer, hhits⟩ := answer_all hquery (fun r hr => hfound r.1 (hkeys r hr)) (hrows.length_eq ▸ hle)
  have hcurrent : x.current = .ok t := by rw [current, htable]
  rw [askAll_eq hsize, askAll_eq (by rwa [hpoints]), hcurrent] at hagree
  obtain ⟨u, hu, hanswer'⟩ := bind_eq_ok.1 (hagree.symm.trans hanswer)
  have hlay : layOut x.points.entries = .ok u := by
    rw [← hu, current, hpoints]
    rfl
  have hentries : x.points.entries ≠ [] := fun h => hsize (by rw [OrderedMap.size, h, List.length_nil])
  have hrows' := ((layOut_ok_iff hentries).1 hlay).2
  have hkeys' : ∀ r ∈ u.rows, r.1 ∈ x.points.keys := by
    intro r hr
    obtain ⟨e, he, her⟩ := exists_of_mem_right hrows' hr
    rw [← her.1]
    exact List.mem_map_of_mem he
  obtain ⟨numbers, hnumbers, -⟩ := bind_eq_ok.1 hanswer'
  have hwidth := (queryOf_numbers.1 hnumbers).2
  obtain ⟨hits', hanswer'', hhits'⟩ := answer_all (x := holding x.points.entries) hwidth
    (fun r hr => by rw [hpoints]; exact hfound r.1 (hkeys' r hr))
      (by rw [hpoints, ← hrows'.length_eq]; exact Nat.le_refl _)
  obtain rfl : hits = hits' := Except.ok.inj (hanswer'.symm.trans hanswer'')
  rw [hpoints] at hhits'
  exact ⟨u, hlay, hwidth, rankedRows_eq_of_hits hkeyed hkeys hkeys' hhits hhits'⟩

theorem Laid.sameScores {x : VectorIndex} {laid : Option (List (Key × VectorPoint))} (h : Laid x laid)
    (hagree : ∀ query, askAll query x = askAll query (holding x.points.entries)) :
    SameScores laid x.points.entries := by
  rintro old rfl
  obtain ⟨hne, hfront, t, ht, htable⟩ := h.drawn old rfl
  have hlay : ∀ query : List Float, query.length = t.width → ∃ u,
    layOut x.points.entries = .ok u ∧ query.length = u.width ∧
      rankedRows t query = rankedRows u query :=
    fun query hquery => layOut_of_agree h.keyed hne hfront ht htable hquery (hagree query)
  obtain ⟨u, hu, hwidth, hranked⟩ := hlay (List.replicate t.width 0.0) List.length_replicate
  rw [List.length_replicate] at hwidth
  have hentries : x.points.entries ≠ [] := by
    intro hnil
    rw [OrderedMap.keys, hnil] at hfront
    exact hne (List.map_eq_nil_iff.1 (List.prefix_nil.1 hfront))
  have hrows := ((layOut_ok_iff hne).1 ht).2
  have hrows' := ((layOut_ok_iff hentries).1 hu).2
  have hlength : t.rows.length = u.rows.length := by
    rw [← length_rankedRows t, hranked, length_rankedRows]
  have hkeys : t.rows.map Prod.fst = u.rows.map Prod.fst := by
    rw [← keys_of_rows hrows, ← keys_of_rows hrows']
    apply hfront.eq_of_length
    rw [OrderedMap.keys, List.length_map, List.length_map, hrows.length_eq, hrows'.length_eq, hlength]
  have hscored : ∀ query : List Float, query.length = t.width →
      (t.rows.map fun r => (r.1, cosine r.2 query)) = u.rows.map fun r => (r.1, cosine r.2 query) := by
    intro query hquery
    obtain ⟨u', hu', -, hranked⟩ := hlay query hquery
    obtain rfl := Except.ok.inj (hu.symm.trans hu')
    apply eq_of_perm_of_keys
    · simpa [Function.comp_def] using hkeys
    · rw [List.map_map]
      show (t.rows.map Prod.fst).Nodup
      rw [← keys_of_rows hrows]
      exact (x.points.distinct_keys.nodup).sublist hfront.sublist
    · have hperm := rankedRows_perm t query
      rw [hranked] at hperm
      exact hperm.symm.trans (rankedRows_perm u query)
  refine ⟨t, u, ht, hu, hwidth, List.forall₂_iff_get.2 ⟨hlength, fun i hi hi' => ⟨?_, fun query hquery => ?_⟩⟩⟩
  · exact (List.forall₂_iff_get.1 (map_eq_map_iff.1 hkeys)).2 i hi hi'
  · have hrow := (List.forall₂_iff_get.1 (map_eq_map_iff.1 (hscored query hquery))).2 i hi hi'
    exact (Prod.mk.inj hrow).2

/-- Searches of an index that is used in any way answer from the points as they were laid out last.
So they answer as those of a new index with the same points do just if these give the same scores. -/
theorem Used.search_exact {dimensions : Value} {x : VectorIndex} {laid : Option (List (Key × VectorPoint))}
    (h : Used dimensions x laid) :
    (∀ vector workspace filters limit, ((VectorIndex.search vector workspace filters limit).on x).1 =
      ((VectorIndex.search vector workspace filters limit).on (holding (seen laid x.points.entries))).1) ∧
    ((∀ vector workspace filters limit, ((VectorIndex.search vector workspace filters limit).on x).1 =
      ((VectorIndex.search vector workspace filters limit).on (holding x.points.entries)).1) ↔
        SameScores laid x.points.entries) := by
  have hlaid := h.laid
  refine ⟨hlaid.search_seen, fun hagree => hlaid.sameScores fun query => ?_, fun hscores => ?_⟩
  · unfold askAll
    rw [hagree, points_holding]
  · cases laid with
    | none => exact hlaid.search_seen
    | some old =>
      obtain ⟨hne, hfront, t, ht, htable⟩ := hlaid.drawn old rfl
      obtain ⟨t', u, ht', hu, halike⟩ := hscores old rfl
      obtain rfl := Except.ok.inj (ht.symm.trans ht')
      have hpoints := points_holding x
      have hcurrent : x.current = .ok t := by rw [current, htable]
      have hcurrent' : (holding x.points.entries).current = .ok u := by
        rw [← hu, current, hpoints]
        rfl
      have hlength : t.rows.length ≤ x.points.size := by
        rw [← ((layOut_ok_iff hne).1 ht).2.length_eq]
        exact length_le_of_front hfront
      apply search_congr
      · rw [hpoints]
      · rw [hpoints]
        exact .inr ⟨t, u, hcurrent, hcurrent', halike, hlength, hlength, fun _ _ => rfl⟩

end SourceAtlas.Search.VectorIndex

namespace SourceAtlas

namespace Sample

open Json (Value)
open Search (VectorPoint VectorIndex Table)
open Search.VectorIndex

def pointAt (id : String) (vector : List Value) : VectorPoint :=
  ⟨id, vector, [("workspace_id", "ws"), ("repo_id", "repo")]⟩

def alongFirst : Act VectorIndex (List Search.VectorHit) :=
  search (.list [.float 1.0, .float 0.0]) "ws" {} (.int 10)

def stored : VectorIndex := ((put [pointAt "1" [.float 1.0, .float 0.0]]).on { dimensions := .null }).2

def searched : VectorIndex := (alongFirst.on stored).2

def extended : VectorIndex := ((put [pointAt "2" [.float 1.0, .float 1.0], pointAt "3" [.float 1.0]]).on searched).2

def bothRows : Table := ⟨[(.str "1", [1.0, 0.0]), (.str "2", [1.0, 1.0])], 2⟩

theorem used_searched : Used .null searched (some stored.points.entries) := by
  have hput : (put [pointAt "1" [.float 1.0, .float 0.0]]).on { dimensions := .null } = (.ok (), stored) := rfl
  exact (Used.put .new hput).search (.list [.float 1.0, .float 0.0]) "ws" {} (.int 10)

theorem used_extended : Used .null extended (some stored.points.entries) := by
  have hput : (put [pointAt "2" [.float 1.0, .float 1.0], pointAt "3" [.float 1.0]]).on searched =
      (.error (wrongLength "upsert" (.int 2) 1), extended) := rfl
  exact .putPart used_searched hput

end Sample

namespace Search.VectorIndex

theorem search_exact_of_searched :
    SameScores (some Sample.stored.points.entries) Sample.searched.points.entries ∧
      ∀ vector workspace filters limit, ((search vector workspace filters limit).on Sample.searched).1 =
        ((search vector workspace filters limit).on (holding Sample.searched.points.entries)).1 := by
  have hscores : SameScores (some Sample.stored.points.entries) Sample.searched.points.entries := by
    rintro old ⟨⟩
    exact ⟨_, _, rfl, rfl, .refl _⟩
  exact ⟨hscores, (Used.search_exact Sample.used_searched).2.2 hscores⟩

/-- After a failure a point is stored that no search finds, and a new index with the same points
does find it. -/
theorem search_misses_point :
    Used .null Sample.extended (some Sample.stored.points.entries) ∧
      (Sample.alongFirst.on Sample.extended).1.toOption.map List.length = some 1 ∧
      (Sample.alongFirst.on (holding Sample.extended.points.entries)).1.toOption.map List.length = some 2 := by
  refine ⟨Sample.used_extended, ?_, ?_⟩
  · decide +kernel
  · have hcurrent : (holding Sample.extended.points.entries).current = .ok Sample.bothRows := rfl
    have hranked : rankedRows Sample.bothRows [1.0, 0.0] =
        Sample.bothRows.rows.map fun r => (r.1, cosine r.2 [1.0, 0.0]) :=
        List.mergeSort_of_pairwise (by decide +kernel)
    rw [Sample.alongFirst, on_search, hcurrent]
    show Option.map _ (Except.toOption ((holding _).nearest (rankedRows Sample.bothRows [1.0, 0.0]) _ _ _)) = _
    rw [hranked]
    rfl

end Search.VectorIndex

end SourceAtlas
