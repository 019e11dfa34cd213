import SourceAtlas.Proofs.Uses
import SourceAtlas.Search.RemoteIndex

/-!
# Batches that are rejected

A batch of points is rejected if a vector does not have the length that is
required. A remote index looks at all vectors before it sends anything. A
vector index stores the points one by one, so those before the first wrong
vector stay, and so does the length that the first vector fixed.
-/

namespace SourceAtlas

open Json (Value Key)

namespace OrderedMap

variable {κ α : Type} [BEq κ] [EquivBEq κ]

theorem ext_keys {m n : OrderedMap κ α} (hkeys : m.keys = n.keys) (h : m.Agrees n) : m = n := by
  have hfound : ∀ o : OrderedMap κ α,
      o.entries.map (fun e => (e.1, some e.2)) = o.keys.map fun k => (k, o.get? k) := by
    intro o
    rw [keys, List.map_map]
    refine List.map_congr_left fun e he => ?_
    rw [Function.comp_apply, get?_of_mem he]
  have hentries : m.entries.map (fun e => (e.1, some e.2)) = n.entries.map fun e => (e.1, some e.2) := by
    rw [hfound, hfound, hkeys, funext h]
  refine ext_entries (List.map_injective_iff.2 (fun d e hde => ?_) hentries)
  obtain ⟨hkey, hvalue⟩ := Prod.mk.inj hde
  exact Prod.ext hkey (Option.some.inj hvalue)

theorem keys_insertAll {m : OrderedMap κ α} {es : List (κ × α)} (h : ∀ e ∈ es, (m.get? e.1).isSome = true) :
    (m.insertAll es).keys = m.keys := by
  induction es generalizing m with
  | nil => rfl
  | cons e es ih =>
    obtain ⟨he, hes⟩ := List.forall_mem_cons.1 h
    have hany : m.entries.any (·.1 == e.1) = true := (m.contains_eq e.1).trans he
    have hkeys : (m.insert e.1 e.2).keys = m.keys := by
      rw [insert, dif_pos hany]
      exact keys_replace ..
    rw [insertAll_cons, ih fun f hf => ?_, hkeys]
    rw [get?_insert]
    split
    · rfl
    · exact hes f hf

theorem insertAll_eq_self_iff {m : OrderedMap κ α} {es : List (κ × α)} :
    m.insertAll es = m ↔ ∀ k v, (empty.insertAll es).get? k = some v → m.get? k = some v := by
  constructor
  · intro h k v hv
    rw [get?_insertAll, Option.or_eq_some_iff] at hv
    rw [← h, get?_insertAll, hv.resolve_right (fun h => nomatch h.2)]
    rfl
  · intro h
    have hsome : ∀ e ∈ es, (m.get? e.1).isSome = true := by
      intro e he
      obtain ⟨f, -, -, hf⟩ := get?_insertAll_of_mem empty he
      rw [h _ _ hf]
      rfl
    refine ext_keys (keys_insertAll hsome) fun k => ?_
    rw [get?_insertAll]
    cases hlast : es.reverse.find? (·.1 == k) with
    | none => rfl
    | some e => exact (h k e.2 (by rw [get?_insertAll, hlast]; rfl)).symm

end OrderedMap

namespace Search

namespace VectorIndex

def required (dimensions : Value) : List VectorPoint → Value
  | [] => dimensions
  | p :: _ => expected dimensions p

/-- A batch stops at the point `p`, once the points before it are stored under their ids. -/
structure Stops (dimensions : Value) (points : List VectorPoint)
    (stored : List (Key × VectorPoint)) (p : VectorPoint) :
    Prop where
  begins : stored.map Prod.snd ++ [p] <+: points
  keyed : ∀ e ∈ stored, asKey e.2.id = .ok e.1
  fits : ∀ e ∈ stored, (required dimensions points).same (.int e.2.vector.length) = true
  differs : (required dimensions points).same (.int p.vector.length) = false

def stopped (x : VectorIndex) (points : List VectorPoint) (stored : List (Key × VectorPoint)) : VectorIndex :=
  { x with dimensions := required x.dimensions points, points := x.points.insertAll stored }

theorem required_expected (dimensions : Value) (p : VectorPoint) (points : List VectorPoint) :
    required (expected dimensions p) points = expected dimensions p := by
  cases points <;> cases dimensions <;> rfl

theorem asKey_ne_wrongLength {v expected : Value} {operation : String} {got : Nat} :
    asKey v ≠ .error (wrongLength operation expected got) := by
  cases v <;> nofun

variable {x y : VectorIndex} {points : List VectorPoint} {n : Value} {got : Nat}

/-- A batch that is rejected stored the points before the first wrong vector. -/
theorem stops_of_put (h : (put points).on x = (.error (wrongLength "upsert" n got), y)) :
    ∃ stored p, Stops x.dimensions points stored p ∧ y = x.stopped points stored := by
  induction points generalizing x with
  | nil => cases h
  | cons p points ih =>
    rw [on_put_point] at h
    by_cases hfit : (expected x.dimensions p).same (.int p.vector.length) = true
    · rw [if_pos hfit] at h
      cases hid : asKey p.id with
      | error f =>
        rw [hid] at h
        exact absurd (hid.trans (congrArg _ (Except.error.inj (Prod.mk.inj h).1))) asKey_ne_wrongLength
      | ok id =>
        rw [hid] at h
        obtain ⟨stored, q, hstops, rfl⟩ := ih h
        have hlength := required_expected x.dimensions p points
        refine ⟨(id, p) :: stored, q, ⟨?_, ?_, ?_, ?_⟩, ?_⟩
        · exact List.cons_prefix_cons.2 ⟨rfl, hstops.begins⟩
        · exact List.forall_mem_cons.2 ⟨hid, hstops.keyed⟩
        · exact List.forall_mem_cons.2 ⟨hfit, by have := hstops.fits; rwa [hlength] at this⟩
        · have := hstops.differs
          rwa [hlength] at this
        · rw [stopped, hlength]
          rfl
    · rw [if_neg hfit] at h
      refine ⟨[], p, ⟨⟨points, rfl⟩, nofun, nofun, Bool.eq_false_iff.2 hfit⟩, ?_⟩
      exact (Prod.mk.inj h).2.symm

theorem required_ne_null {dimensions : Value} (h : points ≠ []) : required dimensions points ≠ .null := by
  cases points with
  | nil => exact absurd rfl h
  | cons p points => cases dimensions <;> nofun

theorem required_eq_iff {dimensions : Value} (h : points ≠ []) :
    required dimensions points = dimensions ↔ dimensions ≠ .null := by
  refine ⟨fun heq => heq ▸ required_ne_null h, fun hfixed => ?_⟩
  cases points with
  | nil => rfl
  | cons p points =>
    cases dimensions with
    | null => exact absurd rfl hfixed
    | _ => rfl

theorem stopped_eq_self_iff {stored : List (Key × VectorPoint)} (h : points ≠ []) :
    x.stopped points stored = x ↔ x.dimensions ≠ .null ∧
      ∀ k p, (OrderedMap.empty.insertAll stored).get? k = some p → x.points.get? k = some p := by
  rw [← required_eq_iff h, ← OrderedMap.insertAll_eq_self_iff]
  obtain ⟨dimensions, points, table⟩ := x
  simp [stopped]

/-- After a batch was rejected, the points before the first wrong vector are stored, the length is
fixed, and the table is that of before. Nothing changed just if a length was fixed before, and each
of those points was stored as it is. -/
theorem rejected_unchanged_iff (h : (put points).on x = (.error (wrongLength "upsert" n got), y)) :
    ∃ stored p, Stops x.dimensions points stored p ∧ y = x.stopped points stored ∧
      (y = x ↔ x.dimensions ≠ .null ∧
        ∀ k q, (OrderedMap.empty.insertAll stored).get? k = some q → x.points.get? k = some q) := by
  obtain ⟨stored, p, hstops, rfl⟩ := stops_of_put h
  refine ⟨stored, p, hstops, rfl, stopped_eq_self_iff ?_⟩
  rintro rfl
  cases h

end VectorIndex

namespace RemoteIndex

/-- All points are looked at before anything is sent. -/
theorem on_addPoints (r : RemoteIndex) {points : List RemotePoint} (hne : points ≠ []) (c : Connection) :
    (r.addPoints points).on c = match points.mapM fun p => pointDocument (r.dimensions.getD .null) p with
      | .ok documents => (r.addBatches documents).on c
      | .error f => (.error f, c) := by
  have hempty : points.isEmpty = false := by simpa using hne
  rw [addPoints, hempty]
  show (points.mapM (fun p => (liftM (pointDocument (r.dimensions.getD .null) p) : Act Connection Value)) >>=
    fun documents => r.addBatches documents).on c = _
  rw [Act.on_bind, Act.on_mapM_lift]
  cases points.mapM fun p => pointDocument (r.dimensions.getD .null) p <;> rfl

/-- A remote index sends nothing of a batch with a vector of another length. -/
theorem addPoints_unsent {r : RemoteIndex} {points : List RemotePoint} {p : RemotePoint} {n : Nat} (hp : p ∈ points)
    (hn : size p.vector = .ok n) (hlength : (r.dimensions.getD .null).same (.int n) = false) (c : Connection) :
    ∃ f, (points.mapM fun p => pointDocument (r.dimensions.getD .null) p) = .error f ∧
      (r.addPoints points).on c = (.error f, c) := by
  have hwrong : pointDocument (r.dimensions.getD .null) p =
      .error (VectorIndex.wrongLength "upsert" (r.dimensions.getD .null) n) := by
    rw [pointDocument, hn]
    show (if (!(r.dimensions.getD .null).same (.int n)) = true then _ else _ : Outcome Value) = _
    rw [hlength]
    rfl
  rw [on_addPoints r (List.ne_nil_of_mem hp)]
  cases hall : points.mapM fun p => pointDocument (r.dimensions.getD .null) p with
  | error f => exact ⟨f, rfl, rfl⟩
  | ok documents =>
    obtain ⟨d, -, hd⟩ := exists_of_mem_left (mapM_ok_iff.1 hall) hp
    cases hwrong.symm.trans hd

end RemoteIndex

end Search

namespace Sample

open Search (VectorPoint VectorIndex)
open Search.VectorIndex

def uneven : List VectorPoint := [pointAt "1" [.float 1.0, .float 0.0], pointAt "2" [.float 1.0]]

end Sample

namespace Search.VectorIndex

theorem rejected_unchanged_iff_of_uneven :
    ∃ stored p, Stops Sample.searched.dimensions Sample.uneven stored p ∧
      Sample.searched = Sample.searched.stopped Sample.uneven stored := by
  have hput : (put Sample.uneven).on Sample.searched =
      (.error (wrongLength "upsert" (.int 2) 1), Sample.searched) := rfl
  obtain ⟨stored, p, hstops, hafter, -⟩ := rejected_unchanged_iff hput
  exact ⟨stored, p, hstops, hafter⟩

/-- A new index keeps the first of two points when the batch is rejected, and finds it. -/
theorem rejected_point_stays : ∃ y, (put Sample.uneven).on { dimensions := .null } =
      (.error (wrongLength "upsert" (.int 2) 1), y) ∧
    y.dimensions = .int 2 ∧ y.points.size = 1 ∧
    (Sample.alongFirst.on { dimensions := .null }).1.toOption.map List.length = some 0 ∧
    (Sample.alongFirst.on y).1.toOption.map List.length = some 1 :=
  ⟨_, rfl, rfl, rfl, rfl, by decide +kernel⟩

end Search.VectorIndex

end SourceAtlas
