import Mathlib.Data.List.Nodup
import SourceAtlas.Proofs.Adjacency
import SourceAtlas.Proofs.Orders

/-!
# What look-ups list

References are texts, and those at the ends of an edge that is told have
content. Texts can be sorted, so the neighbours of a reference can be listed.
-/

namespace SourceAtlas

open Json (Key Value)

/-! ## Texts -/

def Json.Key.IsText (k : Key) : Prop := ∃ s, k = .str s

def Json.Key.IsName (k : Key) : Prop := ∃ s, k = .str s ∧ s ≠ ""

namespace Json.Key

variable {j k : Key}

theorem IsText.eq_of_beq (h : k.IsText) (hjk : (j == k) = true) : j = k := by
  obtain ⟨s, rfl⟩ := h
  have hrank := (beq_iff _ _).1 hjk
  cases j <;> simp [rank] at hrank
  rw [hrank]

theorem IsText.defined (h : k.IsText) : k.Defined := by
  obtain ⟨s, rfl⟩ := h
  nofun

theorem IsName.isText (h : k.IsName) : k.IsText := by
  obtain ⟨s, hs, -⟩ := h
  exact ⟨s, hs⟩

theorem IsName.eq_of_beq (h : k.IsName) (hjk : (j == k) = true) : j = k := h.isText.eq_of_beq hjk

theorem IsName.truthy (h : k.IsName) : k.toValue.truthy = true := by
  obtain ⟨s, rfl, hs⟩ := h
  simpa [toValue, Value.truthy] using hs

theorem toValue_inj (h : j.toValue = k.toValue) : j = k := by
  cases j <;> cases k <;> simp_all [toValue]

theorem sortKeys_of_texts {l : List Key} (h : ∀ k ∈ l, k.IsText) : sortKeys l = .ok (l.mergeSort Key.le) := by
  refine sortChecked_ok fun j hj k hk => ?_
  obtain ⟨s, rfl⟩ := h j hj
  obtain ⟨t, rfl⟩ := h k hk
  rfl

end Json.Key

namespace Graph

def Spelt (k : EdgeKey) : Prop := k.1.IsText ∧ k.2.1.IsText

def Named (k : EdgeKey) : Prop := k.1.IsName ∧ k.2.1.IsName

def edgeOf (k : EdgeKey) : Outcome Edge := Edge.make k.1.toValue k.2.1.toValue k.2.2

def recordOf (k : EdgeKey) : Json.Record :=
  [("from", k.1.toValue), ("to", k.2.1.toValue), ("type", .str k.2.2.name)]

section
variable {k : EdgeKey} {ks : List EdgeKey}

theorem Spelt.eq_of_beq {j : EdgeKey} (h : Spelt k) (hjk : (j == k) = true) : j = k := by
  obtain ⟨a, b, t⟩ := j
  obtain ⟨c, d, u⟩ := k
  rw [beq_pair, beq_pair] at hjk
  obtain rfl : a = c := h.1.eq_of_beq hjk.1
  obtain rfl : b = d := h.2.eq_of_beq hjk.2.1
  obtain rfl : t = u := beq_iff_eq.1 hjk.2.2
  rfl

theorem contains_spelt (h : ∀ k ∈ ks, Spelt k) (k : EdgeKey) : ks.contains k = true ↔ k ∈ ks := by
  refine ⟨fun hk => ?_, contains_of_mem⟩
  obtain ⟨j, hj, hkj⟩ := List.contains_iff_exists_mem_beq.1 hk
  rwa [(h j hj).eq_of_beq hkj]

theorem Named.spelt (h : Named k) : Spelt k := ⟨h.1.isText, h.2.isText⟩

theorem Named.eq_of_beq {j : EdgeKey} (h : Named k) (hjk : (j == k) = true) : j = k := h.spelt.eq_of_beq hjk

theorem Named.edgeOf (h : Named k) : ∃ e, edgeOf k = .ok e :=
  ⟨⟨_, _, k.2.2, 1.0, h.1.truthy, h.2.truthy⟩, by
    rw [Graph.edgeOf, Edge.make, dif_pos ⟨h.1.truthy, h.2.truthy⟩]; rfl⟩

theorem toRecord_of_edgeOf {e : Edge} (h : edgeOf k = .ok e) : e.toRecord = recordOf k := by
  unfold edgeOf Edge.make at h
  split at h
  · obtain ⟨c, -, hc⟩ := bind_eq_ok.1 h
    obtain rfl := Except.ok.inj hc
    rfl
  · cases h

theorem EdgeType.name_inj {t u : EdgeType} (h : t.name = u.name) : t = u := by
  cases t <;> cases u <;> first | rfl | exact absurd h (by decide)

theorem recordOf_injective : Function.Injective recordOf := by
  rintro ⟨a, b, t⟩ ⟨c, d, u⟩ h
  simp only [recordOf, List.cons.injEq, Prod.mk.injEq, true_and, and_true, Value.str.injEq] at h
  obtain ⟨ha, hb, ht⟩ := h
  rw [Key.toValue_inj ha, Key.toValue_inj hb, EdgeType.name_inj ht]

end

/-! ## Listing neighbours -/

namespace Adjacency

variable {m : Adjacency} {r : Key} {type : Option EdgeType} {t : EdgeType}

def groups (m : Adjacency) (r : Key) (type : Option EdgeType) : List (EdgeType × List Key) :=
  ((m.get? r).getD .empty).entries.filter fun e => type.all (· == e.1)

theorem neighbours_eq (m : Adjacency) (r : Key) (t : EdgeType) :
    m.neighbours r t = (((m.get? r).getD .empty).get? t).getD [] := by
  rw [neighbours]
  cases m.get? r <;> rfl

theorem of_mem_groups {e : EdgeType × List Key} (he : e ∈ m.groups r type) :
    type.all (· == e.1) = true ∧ m.neighbours r e.1 = e.2 := by
  obtain ⟨he, htype⟩ := List.mem_filter.1 he
  refine ⟨htype, ?_⟩
  rw [neighbours_eq, OrderedMap.get?_of_mem (v := e.2) he]
  rfl

theorem exists_group {n : Key} (htype : type.all (· == t) = true) (hn : n ∈ m.neighbours r t) :
    ∃ e ∈ m.groups r type, e.1 = t ∧ n ∈ e.2 := by
  rw [neighbours_eq] at hn
  cases hget : ((m.get? r).getD .empty).get? t with
  | none =>
    rw [hget] at hn
    cases hn
  | some all =>
    rw [hget] at hn
    obtain ⟨u, hu, hut⟩ := OrderedMap.mem_of_get? hget
    obtain rfl := beq_iff_eq.1 hut
    exact ⟨(u, all), List.mem_filter.2 ⟨hu, htype⟩, rfl, hn⟩

/-- Neighbours that are texts can be listed: each group sorted, one group after the other. -/
theorem lookup_eq (htexts : ∀ t, ∀ n ∈ m.neighbours r t, n.IsText) (type : Option EdgeType) :
    m.lookup r type = .ok ((m.groups r type).flatMap fun e => (e.2.mergeSort Key.le).map (·, e.1)) := by
  have hsorted : (m.groups r type).mapM
      (fun e => do pure ((← sortKeys e.2).map (·, e.1)) : EdgeType × List Key → Outcome _) =
        .ok ((m.groups r type).map fun e => (e.2.mergeSort Key.le).map (·, e.1)) := by
    apply mapM_ok_map
    intro e he
    obtain ⟨-, hall⟩ := of_mem_groups he
    have hsort := Key.sortKeys_of_texts fun n hn => htexts e.1 n (hall ▸ hn)
    simp only [hsort]
    rfl
  show (do pure (← (m.groups r type).mapM
    (fun e => do pure ((← sortKeys e.2).map (·, e.1)) : EdgeType × List Key → Outcome _)).flatten : Outcome _) = _
  rw [hsorted]
  rfl

theorem Tidy.nodup_groups (h : m.Tidy) (r : Key) (type : Option EdgeType) :
    ((m.groups r type).flatMap fun e => (e.2.mergeSort Key.le).map (·, e.1)).Nodup := by
  refine List.nodup_flatMap.2 ⟨fun e he => ?_, ?_⟩
  · obtain ⟨-, hall⟩ := of_mem_groups he
    have hdistinct : e.2.Nodup := hall ▸ (h r e.1).nodup
    exact ((List.mergeSort_perm _ _).nodup_iff.2 hdistinct).map fun a b hab => (Prod.mk.inj hab).1
  · refine (((m.get? r).getD .empty).distinct.filter _).imp fun {d e} hde p hd he => ?_
    obtain ⟨n, -, rfl⟩ := List.mem_map.1 hd
    obtain ⟨m, -, hm⟩ := List.mem_map.1 he
    rw [(Prod.mk.inj hm).2] at hde
    exact Bool.false_ne_true (hde.symm.trans BEq.rfl)

theorem lookup_ok (h : m.Tidy) (htexts : ∀ t, ∀ n ∈ m.neighbours r t, n.IsText) (type : Option EdgeType) :
    ∃ found, m.lookup r type = .ok found ∧ found.Nodup ∧
      ∀ n t, (n, t) ∈ found ↔ type.all (· == t) = true ∧ n ∈ m.neighbours r t := by
  refine ⟨_, lookup_eq htexts type, h.nodup_groups r type, fun n t => ?_⟩
  simp only [List.mem_flatMap, List.mem_map, List.mem_mergeSort]
  constructor
  · rintro ⟨e, he, n, hn, heq⟩
    obtain ⟨rfl, rfl⟩ := Prod.mk.inj heq
    obtain ⟨htype, hall⟩ := of_mem_groups he
    exact ⟨htype, hall ▸ hn⟩
  · rintro ⟨htype, hn⟩
    obtain ⟨e, he, rfl, hmem⟩ := exists_group htype hn
    exact ⟨e, he, n, hmem, rfl⟩

theorem joins_iff {n : Key} (htexts : ∀ t, ∀ n ∈ m.neighbours r t, n.IsText) :
    m.joins (r, n, t) = true ↔ n ∈ m.neighbours r t := by
  refine ⟨fun hn => ?_, contains_of_mem⟩
  obtain ⟨s, hs, hns⟩ := List.contains_iff_exists_mem_beq.1 hn
  obtain rfl : n = s := (htexts t s hs).eq_of_beq hns
  exact hs

end Adjacency

end Graph

end SourceAtlas
