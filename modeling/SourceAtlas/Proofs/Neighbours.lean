import SourceAtlas.Proofs.Scopes
import SourceAtlas.Proofs.Tables

/-!
# The closest points

A search ranks all points of an index and takes those that pass from the front. Filtering
keeps the order of what it keeps, so these are the closest of the points that pass.
-/

namespace SourceAtlas

/-! ## Sorting and filtering -/

section
variable {α : Type} {le : α → α → Bool} (htrans : ∀ a b c, le a b = true → le b c = true → le a c = true)
  (htotal : ∀ a b, (le a b || le b a) = true)
include htrans htotal

/-- Sorting puts an element between those that it does not come before and those that it does. -/
theorem mergeSort_cons_eq (a : α) (l : List α) :
    (a :: l).mergeSort le = (l.mergeSort le).filter (fun b => !le a b) ++ a :: (l.mergeSort le).filter (le a) ∧
      l.mergeSort le = (l.mergeSort le).filter (fun b => !le a b) ++ (l.mergeSort le).filter (le a) := by
  obtain ⟨l₁, l₂, hcons, hl, hbefore⟩ := List.mergeSort_cons htrans htotal a l
  have hafter : ∀ b ∈ l₂, le a b = true := by
    have hsorted := List.pairwise_mergeSort htrans htotal (a :: l)
    rw [hcons, List.pairwise_append, List.pairwise_cons] at hsorted
    exact hsorted.2.1.1
  have hfirst : (l.mergeSort le).filter (fun b => !le a b) = l₁ := by
    have hnone : l₂.filter (fun b => !le a b) = [] := by
      rw [List.filter_eq_nil_iff]
      intro b hb
      simp [hafter b hb]
    rw [hl, List.filter_append, List.filter_eq_self.2 hbefore, hnone, List.append_nil]
  have hlast : (l.mergeSort le).filter (le a) = l₂ := by
    have hnone : l₁.filter (le a) = [] := by
      rw [List.filter_eq_nil_iff]
      intro b hb
      simpa using hbefore b hb
    rw [hl, List.filter_append, List.filter_eq_self.2 hafter, hnone, List.nil_append]
  rw [hfirst, hlast]
  exact ⟨hcons, hl⟩

theorem filter_mergeSort (p : α → Bool) (l : List α) : (l.mergeSort le).filter p = (l.filter p).mergeSort le := by
  induction l with
  | nil => rw [List.mergeSort_nil, List.filter_nil, List.mergeSort_nil]
  | cons a l ih =>
    obtain ⟨hcons, -⟩ := mergeSort_cons_eq htrans htotal a l
    obtain ⟨hcons', hsplit⟩ := mergeSort_cons_eq htrans htotal a (l.filter p)
    rw [hcons, List.filter_append, List.filter_cons, List.filter_comm, List.filter_comm p (le a),
      ih, List.filter_cons]
    by_cases hp : p a = true
    · rw [if_pos hp, if_pos hp, hcons']
    · rw [if_neg hp, if_neg hp, ← hsplit]

/-- The sorted list with the places where its members stood before. -/
theorem exists_sorted (l : List α) :
    ∃ sorted : List (α × Nat), sorted.map Prod.fst = l.mergeSort le ∧ sorted.Perm l.zipIdx ∧
    sorted.Pairwise fun a b => le a.1 b.1 = true ∧ (le b.1 a.1 = true → a.2 < b.2) := by
  have hperm := List.mergeSort_perm l.zipIdx (List.zipIdxLE le)
  have hplaces : (l.zipIdx.mergeSort (List.zipIdxLE le)).Pairwise fun a b => a.2 ≠ b.2 := by
    refine List.pairwise_map.1 ((hperm.map Prod.snd).nodup_iff.2 ?_)
    simp [List.nodup_range']
  have hsorted := List.pairwise_mergeSort (List.zipIdxLE_trans htrans) (List.zipIdxLE_total htotal) l.zipIdx
  refine ⟨_, List.mergeSort_zipIdx, hperm, (hsorted.and hplaces).imp ?_⟩
  rintro a b ⟨hle, hne⟩
  unfold List.zipIdxLE at hle
  split_ifs at hle with hab hba
  · exact ⟨hab, fun _ => Nat.lt_of_le_of_ne (by simpa using hle) hne⟩
  · exact ⟨hab, fun h => absurd h hba⟩

end

namespace Search

open Json (Value Key)
open Float.Model (UnpackedFloat)

namespace VectorIndex

/-! ## The order of similarities -/

theorem isNaN_iff {a : Float} : a.isNaN = true ↔ a.toModel.unpack = .notANumber := by
  show a.toModel.unpack.isNaN = true ↔ _
  generalize a.toModel.unpack = u
  cases u with
  | notANumber => exact ⟨fun _ => rfl, fun _ => rfl⟩
  | _ =>
    constructor
    · intro h
      cases h
    · intro h
      cases h

theorem le_iff (a b : Float) : a ≤ b ↔ a.toModel.unpack.le b.toModel.unpack = true := by
  show decide (a.toModel.unpack.le b.toModel.unpack = true) = true ↔ _
  rw [decide_eq_true_eq]

theorem not_le_notANumber (u : UnpackedFloat) : ¬ u.le .notANumber = true := by
  intro h
  cases u <;> cases h

/-- Of two similarities the closer one is the higher one, if both are numbers, or else the one that is. -/
theorem closer_iff (a b : Float) : closer a b = true ↔ (b.toModel.unpack ≠ .notANumber →
    a.toModel.unpack ≠ .notANumber ∧ (!a.toModel.unpack.lt b.toModel.unpack) = true) := by
  rw [closer, Bool.or_eq_true, decide_eq_true_eq, le_iff, isNaN_iff]
  by_cases hb : b.toModel.unpack = .notANumber
  · simp [hb]
  by_cases ha : a.toModel.unpack = .notANumber
  · simp [ha, hb, not_le_notANumber]
  · simp [ha, hb, le_eq_not_lt hb ha]

theorem closer_trans (a b c : Float) (hab : closer a b = true) (hbc : closer b c = true) : closer a c = true := by
  rw [closer_iff] at *
  intro hc
  obtain ⟨hb, hbc⟩ := hbc hc
  obtain ⟨ha, hab⟩ := hab hb
  exact ⟨ha, number_orders.trans _ _ _ ha hb hc hab hbc⟩

theorem closer_total (a b : Float) : (closer a b || closer b a) = true := by
  rw [Bool.or_eq_true, closer_iff, closer_iff]
  by_cases ha : a.toModel.unpack = .notANumber
  · exact .inr fun h => absurd ha h
  by_cases hb : b.toModel.unpack = .notANumber
  · exact .inl fun h => absurd hb h
  · exact (number_orders.total _ _ ha hb).imp (fun h _ => ⟨ha, h⟩) fun h _ => ⟨hb, h⟩

theorem closer_iff_le {a b : Float} (hb : b.isNaN = false) : closer a b = true ↔ b ≤ a := by
  rw [closer, hb, Bool.or_false, decide_eq_true_eq]

/-! ## What a search finds -/

def similarity (query : List Float) (p : VectorPoint) : Float :=
  match p.vector.mapM asComponent with
  | .ok row => cosine row query
  | .error _ => 0

/-- Whether a point comes before another one unless it was added later. -/
def nearer (query : List Float) (p q : VectorPoint) : Bool := closer (similarity query p) (similarity query q)

theorem nearer_trans (query : List Float) (p q r : VectorPoint) (h : nearer query p q = true)
    (h' : nearer query q r = true) :
    nearer query p r = true := closer_trans _ _ _ h h'

theorem nearer_total (query : List Float) (p q : VectorPoint) : (nearer query p q || nearer query q p) = true :=
  closer_total _ _

def hitOf (query : List Float) (p : VectorPoint) : VectorHit := ⟨p.id, similarity query p, p.payload⟩

def passing (x : VectorIndex) (filters : Filters) (workspace : Value) : List VectorPoint :=
  x.points.values.filter fun p => filters.passes workspace p.payload

variable {x : VectorIndex} {t : Table} {es : List (Key × VectorPoint)} {query : List Float} {workspace : Value}
  {filters : Filters}

theorem scores_of_rows (h : layOut es = .ok t) (query : List Float) :
    (t.rows.map fun r => (r.1, cosine r.2 query)) = es.map fun e => (e.1, similarity query e.2) := by
  have hrows : List.Forall₂ RowOf es t.rows := by
    by_cases hes : es = []
    · subst hes
      obtain rfl := Except.ok.inj h
      exact .nil
    · exact ((layOut_ok_iff hes).1 h).2
  refine (map_eq_map_iff.2 (hrows.imp fun e r hrow => ?_)).symm
  rw [hrow.1, similarity, hrow.2]

theorem nearest_eq (hes : ∀ e ∈ es,
      x.points.get? e.1 = some e.2 ∧ (filters.accepts workspace e.2.payload).toBool = true)
    (n : Nat) :
    x.nearest (es.map fun e => (e.1, similarity query e.2)) workspace filters n =
      .ok (((es.filter fun e => filters.passes workspace e.2.payload).take n).map fun e => hitOf query e.2) := by
  induction es generalizing n with
  | nil => simp [nearest, pure, Except.pure]
  | cons e es ih =>
    obtain ⟨⟨hget, hdecides⟩, hes⟩ := List.forall_mem_cons.1 hes
    cases n with
    | zero => simp [nearest, pure, Except.pure]
    | succ n =>
      rw [List.map_cons, nearest, hget, List.filter_cons]
      simp only [Filters.accepts_eq hdecides]
      cases filters.passes workspace e.2.payload with
      | true =>
        rw [if_pos rfl]
        simp [ih hes n, bind, Except.bind, pure, Except.pure]
        rfl
      | false => exact ih hes (n + 1)

section
variable (hlay : layOut x.points.entries = .ok t)
  (hfilters : ∀ e ∈ x.points.entries, (filters.accepts workspace e.2.payload).toBool = true)
include hlay hfilters

theorem nearest_rankedRows (query : List Float) (n : Nat) : x.nearest (rankedRows t query) workspace filters n =
    .ok ((((x.passing filters workspace).mergeSort (nearer query)).take n).map (hitOf query)) := by
  have htrans : ∀ e d f : Key × VectorPoint, nearer query e.2 d.2 = true → nearer query d.2 f.2 = true →
      nearer query e.2 f.2 = true := fun e d f => nearer_trans query e.2 d.2 f.2
  have htotal : ∀ e d : Key × VectorPoint, (nearer query e.2 d.2 || nearer query d.2 e.2) = true :=
    fun e d => nearer_total query e.2 d.2
  have hranked : rankedRows t query =
      (x.points.entries.mergeSort fun e d => nearer query e.2 d.2).map fun e => (e.1, similarity query e.2) := by
    rw [rankedRows, scores_of_rows hlay]
    exact (List.map_mergeSort fun e _ d _ => by rw [nearer]).symm
  have hpassing : ((x.points.entries.mergeSort fun e d => nearer query e.2 d.2).filter
      fun e => filters.passes workspace e.2.payload).map Prod.snd =
        (x.passing filters workspace).mergeSort (nearer query) := by
    rw [filter_mergeSort htrans htotal,
      List.map_mergeSort (f := Prod.snd) (s := nearer query) fun _ _ _ _ => rfl, passing, OrderedMap.values,
      List.filter_map]
    rfl
  rw [hranked, nearest_eq, ← hpassing, ← List.map_take, List.map_map]
  · rfl
  · intro e he
    have he := List.mem_mergeSort.1 he
    exact ⟨OrderedMap.get?_of_mem he, hfilters e he⟩

theorem search_current (hcurrent : x.table = none ∨ x.table = some t) {vector : Value}
    (hquery : x.points.size ≠ 0 → queryOf t.width vector = .ok query) (n : Int) :
    ((search vector workspace filters (.int n)).on x).1 =
      .ok ((((x.passing filters workspace).mergeSort (nearer query)).take n.toNat).map (hitOf query)) := by
  have htable : x.current = .ok t := by
    rcases hcurrent with h | h
    · rw [current, h, hlay]
    · rw [current, h]
  rw [on_search, asCount_int]
  by_cases hsize : x.points.size = 0
  · have hnone : x.passing filters workspace = [] := by
      rw [passing, OrderedMap.values, List.length_eq_zero_iff.1 hsize, List.map_nil, List.filter_nil]
    rw [if_pos hsize, hnone, List.mergeSort_nil, List.take_nil]
    rfl
  · rw [if_neg hsize]
    cases hn : n.toNat with
    | zero => rfl
    | succ n =>
      dsimp only
      rw [htable]
      dsimp only
      rw [answer, hquery hsize]
      exact nearest_rankedRows hlay hfilters query (n + 1)

end

/-- Where the table is that of the points, a search gives the first of those that pass the filter,
by descending similarity and then in the order in which they were added. The other points, which are
ranked as well, cost no hit. -/
theorem search_passing (x : VectorIndex) (t : Table) (hlay : layOut x.points.entries = .ok t)
    (hcurrent : x.table = none ∨ x.table = some t) (vector workspace : Value) (filters : Filters)
    (query : List Float) (hquery : x.points.size ≠ 0 → queryOf t.width vector = .ok query)
    (hfilters : ∀ e ∈ x.points.entries, (filters.accepts workspace e.2.payload).toBool = true)
    (hnumbers : ∀ p ∈ x.passing filters workspace, (similarity query p).isNaN = false) :
    ∃ sorted : List (VectorPoint × Nat), sorted.Perm (x.passing filters workspace).zipIdx ∧
      (sorted.Pairwise fun a b => similarity query b.1 ≤ similarity query a.1 ∧
        (similarity query a.1 ≤ similarity query b.1 → a.2 < b.2)) ∧
      ∀ n : Int, 0 < n → ∃ hits, ((search vector workspace filters (.int n)).on x).1 = .ok hits ∧
        hits = (sorted.take n.toNat).map (fun a => hitOf query a.1) ∧
        hits.length = min n.toNat (x.passing filters workspace).length := by
  obtain ⟨sorted, hfst, hperm, hsorted⟩ :=
    exists_sorted (nearer_trans query) (nearer_total query) (x.passing filters workspace)
  have hnumber : ∀ a ∈ sorted, (similarity query a.1).isNaN = false := by
    intro a ha
    exact hnumbers a.1 (List.fst_mem_of_mem_zipIdx (hperm.mem_iff.1 ha))
  refine ⟨sorted, hperm, hsorted.imp_of_mem fun {a b} ha hb hab => ?_,
    fun n hn => ⟨_, search_current hlay hfilters hcurrent
    hquery n, ?_, ?_⟩⟩
  · rwa [nearer, nearer, closer_iff_le (hnumber b hb), closer_iff_le (hnumber a ha)] at hab
  · rw [← hfst, ← List.map_take, List.map_map]
    rfl
  · rw [List.length_map, List.length_take, List.length_mergeSort]

end VectorIndex

end Search

namespace Sample

open Search (VectorPoint VectorIndex Table)
open Search.VectorIndex

def pointOf (workspace id : String) (vector : List Float) : VectorPoint :=
  ⟨.str id, vector.map .float, [("workspace_id", .str workspace)]⟩

def mixed : VectorIndex :=
  ((put [pointOf "a" "1" [0.0, 1.0], pointOf "b" "2" [1.0, 0.0], pointOf "a" "3" [1.0, 1.0]]).on
    { dimensions := .null }).2

def mixedRows : Table := ⟨[(.str "1", [0.0, 1.0]), (.str "2", [1.0, 0.0]), (.str "3", [1.0, 1.0])], 2⟩

end Sample

namespace Search.VectorIndex

theorem search_passing_mixed :
    ∃ hits, ((search (.list [.float 1.0, .float 0.0]) "a" {} (.int 10)).on Sample.mixed).1 = .ok hits ∧
    hits.length = 2 := by
  have hpassing : Sample.mixed.passing {} "a" =
      [Sample.pointOf "a" "1" [0.0, 1.0], Sample.pointOf "a" "3" [1.0, 1.0]] := rfl
  have hfilters : ∀ e ∈ Sample.mixed.points.entries, (Filters.accepts {} "a" e.2.payload).toBool = true := by
    decide +kernel
  have hnumbers : ∀ p ∈ Sample.mixed.passing {} "a", (similarity [1.0, 0.0] p).isNaN = false := by
    rw [hpassing]
    decide +kernel
  obtain ⟨sorted, -, -, hsearch⟩ := search_passing Sample.mixed Sample.mixedRows rfl (.inl rfl)
    (.list [.float 1.0, .float 0.0]) "a" {} [1.0, 0.0] (fun _ => rfl) hfilters hnumbers
  obtain ⟨hits, hok, -, hlength⟩ := hsearch 10 (by decide)
  rw [hpassing] at hlength
  exact ⟨hits, hok, hlength⟩

end Search.VectorIndex

end SourceAtlas
