import Mathlib.Data.List.Basic
import Mathlib.Data.List.Pairwise
import SourceAtlas.Json.Key
import SourceAtlas.OrderedMap

/-!
# Laws of ordered maps

What is found under a key after each operation. Keys may have several forms
that are equal, so nothing here needs equal keys to be the same.
-/

namespace SourceAtlas

theorem beq_pair {α β : Type} [BEq α] [BEq β] (a b : α × β) :
    (a == b) = true ↔ (a.1 == b.1) = true ∧ (a.2 == b.2) = true :=
  Bool.and_eq_true_iff

instance equivBEq_pair {α β : Type} [BEq α] [BEq β] [EquivBEq α] [EquivBEq β] : EquivBEq (α × β) where
  rfl := (beq_pair _ _).2 ⟨BEq.rfl, BEq.rfl⟩
  symm h := (beq_pair _ _).2 ⟨BEq.symm ((beq_pair _ _).1 h).1, BEq.symm ((beq_pair _ _).1 h).2⟩
  trans h h' := (beq_pair _ _).2 ⟨BEq.trans ((beq_pair _ _).1 h).1 ((beq_pair _ _).1 h').1,
    BEq.trans ((beq_pair _ _).1 h).2 ((beq_pair _ _).1 h').2⟩

namespace OrderedMap

variable {κ α β : Type} [BEq κ]

/-- Same values under the same keys, in whatever order. -/
def Agrees (m n : OrderedMap κ α) : Prop := ∀ k, m.get? k = n.get? k

theorem Agrees.refl (m : OrderedMap κ α) : m.Agrees m := fun _ => rfl

theorem Agrees.symm {m n : OrderedMap κ α} (h : m.Agrees n) : n.Agrees m := fun k => (h k).symm

theorem Agrees.trans {m n o : OrderedMap κ α} (h : m.Agrees n) (h' : n.Agrees o) : m.Agrees o :=
  fun k => (h k).trans (h' k)

theorem ext_entries {m n : OrderedMap κ α} (h : m.entries = n.entries) : m = n := by
  cases m; cases n; cases h; rfl

def insertAll (m : OrderedMap κ α) (es : List (κ × α)) : OrderedMap κ α :=
  es.foldl (fun m e => m.insert e.1 e.2) m

theorem insertAll_cons (m : OrderedMap κ α) (e : κ × α) (es : List (κ × α)) :
    m.insertAll (e :: es) = (m.insert e.1 e.2).insertAll es := rfl

theorem insertAll_append (m : OrderedMap κ α) (es fs : List (κ × α)) :
    m.insertAll (es ++ fs) = (m.insertAll es).insertAll fs := List.foldl_append ..

/-- Entries of other keys are added at the end. -/
theorem entries_insertAll (m : OrderedMap κ α) (es : List (κ × α))
    (h : (m.entries ++ es).Pairwise fun a b => (a.1 == b.1) = false) :
    (m.insertAll es).entries = m.entries ++ es := by
  induction es generalizing m with
  | nil => exact (List.append_nil _).symm
  | cons e es ih =>
    have hnew : (m.insert e.1 e.2).entries = m.entries ++ [e] := by
      have hother : ¬ m.entries.any (·.1 == e.1) = true := fun hany => by
        obtain ⟨d, hd, hde⟩ := List.any_eq_true.1 hany
        exact Bool.false_ne_true (((List.pairwise_append.1 h).2.2 d hd e List.mem_cons_self).symm.trans hde)
      rw [insert, dif_neg hother]
    rw [insertAll_cons, ih _ (by rw [hnew, List.append_assoc]; exact h), hnew, List.append_assoc]
    rfl

/-- A map is what its entries make of an empty one. -/
theorem insertAll_entries (m : OrderedMap κ α) : empty.insertAll m.entries = m :=
  ext_entries (entries_insertAll empty m.entries m.distinct)

def keep (m : OrderedMap κ α) (p : α → Bool) : OrderedMap κ α := m.filter fun _ v => p v

theorem keep_keep (m : OrderedMap κ α) (p q : α → Bool) : (m.keep p).keep q = m.keep fun v => p v && q v := by
  apply ext_entries
  simp [keep, filter, List.filter_filter, Bool.and_comm]

theorem keep_true (m : OrderedMap κ α) : m.keep (fun _ => true) = m := by
  apply ext_entries
  simp [keep, filter]

def mapValues (m : OrderedMap κ α) (f : α → β) : OrderedMap κ β :=
  ⟨m.entries.map fun e => (e.1, f e.2), List.pairwise_map.2 m.distinct⟩

@[simp] theorem get?_mapValues (m : OrderedMap κ α) (f : α → β) (k : κ) :
    (m.mapValues f).get? k = (m.get? k).map f := by
  simp only [get?, mapValues, List.find?_map, Option.map_map]
  rfl

theorem mapValues_keep (m : OrderedMap κ α) (f : α → β) (p : β → Bool) :
    (m.keep (fun v => p (f v))).mapValues f = (m.mapValues f).keep p := by
  apply ext_entries
  simp [keep, filter, mapValues, List.filter_map, Function.comp_def]

theorem Agrees.mapValues {m n : OrderedMap κ α} (h : m.Agrees n) (f : α → β) :
    (m.mapValues f).Agrees (n.mapValues f) := fun k => by
  rw [get?_mapValues, get?_mapValues, h k]

theorem keys_prefix_insert (m : OrderedMap κ α) (k : κ) (v : α) : m.keys <+: (m.insert k v).keys := by
  unfold insert
  by_cases h : m.entries.any (·.1 == k) = true
  · have hkeys : (replace m.entries k v).map Prod.fst = m.keys := keys_replace m.entries k v
    rw [dif_pos h]
    exact hkeys ▸ List.prefix_refl _
  · rw [dif_neg h, keys, keys, List.map_append]
    exact List.prefix_append _ _

theorem find?_key {es : List (κ × α)} {k : κ} {e : κ × α} (h : es.find? (·.1 == k) = some e) :
    (e.1 == k) = true := by
  have := List.find?_some h
  exact this

theorem mem_of_get? {m : OrderedMap κ α} {k : κ} {v : α} (h : m.get? k = some v) :
    ∃ j, (j, v) ∈ m.entries ∧ (j == k) = true := by
  obtain ⟨e, he, rfl⟩ := Option.map_eq_some_iff.1 h
  exact ⟨e.1, List.mem_of_find?_eq_some he, find?_key he⟩

theorem contains_eq (m : OrderedMap κ α) (k : κ) : m.contains k = (m.get? k).isSome := by
  rw [Bool.eq_iff_iff, contains, get?, Option.isSome_map, List.find?_isSome, List.any_eq_true]

/-- Values are kept under keys of their own, in whatever form. -/
def KeyedBy (m : OrderedMap κ α) (f : α → κ) : Prop := ∀ e ∈ m.entries, (e.1 == f e.2) = true

def rekeyed (m : OrderedMap κ α) (f : α → κ) : List (κ × α) := m.entries.map fun e => (f e.2, e.2)

theorem map_snd_rekeyed (m : OrderedMap κ α) (f : α → κ) : (m.rekeyed f).map Prod.snd = m.values := by
  simp [rekeyed, values]

theorem KeyedBy.empty (f : α → κ) : (empty : OrderedMap κ α).KeyedBy f := fun _ he => absurd he List.not_mem_nil

theorem KeyedBy.filter {m : OrderedMap κ α} {f : α → κ} (h : m.KeyedBy f) (p : κ → α → Bool) :
    (m.filter p).KeyedBy f := by
  intro e he
  exact h e (List.mem_filter.1 he).1

section
variable [EquivBEq κ]

theorem find?_of_mem : ∀ {es : List (κ × α)}, es.Pairwise (fun a b => (a.1 == b.1) = false) →
    ∀ {j k : κ} {v : α}, (j, v) ∈ es → (j == k) = true → es.find? (·.1 == k) = some (j, v)
  | [], _, _, _, _, h, _ => absurd h List.not_mem_nil
  | e :: es, hd, j, k, v, h, hk => by
    obtain ⟨he, hd⟩ := List.pairwise_cons.1 hd
    rcases List.mem_cons.1 h with rfl | h
    · simp [hk]
    · have hne : ¬ (e.1 == k) = true := fun hek =>
        Bool.false_ne_true ((he _ h).symm.trans (BEq.trans hek (BEq.symm hk)))
      simp only [List.find?_cons, Bool.eq_false_iff.2 hne]
      exact find?_of_mem hd h hk

theorem eq_of_keys {es : List (κ × α)} (h : es.Pairwise fun a b => (a.1 == b.1) = false) {d e : κ × α} (hd : d ∈ es)
    (he : e ∈ es) (hde : (d.1 == e.1) = true) : d = e :=
  Option.some.inj ((find?_of_mem h hd hde).symm.trans (find?_of_mem h he BEq.rfl))

theorem get?_eq_some_iff {m : OrderedMap κ α} {k : κ} {v : α} :
    m.get? k = some v ↔ ∃ j, (j, v) ∈ m.entries ∧ (j == k) = true := by
  refine ⟨mem_of_get?, ?_⟩
  rintro ⟨j, hj, hk⟩
  rw [get?, find?_of_mem m.distinct hj hk]
  rfl

theorem get?_of_mem {m : OrderedMap κ α} {k : κ} {v : α} (h : (k, v) ∈ m.entries) : m.get? k = some v :=
  get?_eq_some_iff.2 ⟨k, h, BEq.rfl⟩

theorem get?_congr (m : OrderedMap κ α) {j k : κ} (h : (j == k) = true) : m.get? j = m.get? k := by
  apply Option.ext
  intro v
  simp only [get?_eq_some_iff]
  exact ⟨fun ⟨i, hi, hj⟩ => ⟨i, hi, BEq.trans hj h⟩, fun ⟨i, hi, hk⟩ => ⟨i, hi, BEq.trans hk (BEq.symm h)⟩⟩

theorem get?_filter (m : OrderedMap κ α) {p : κ → α → Bool} (hp : ∀ j k v, (j == k) = true → p j v = p k v)
    (k : κ) : (m.filter p).get? k = (m.get? k).filter (p k) := by
  apply Option.ext
  intro v
  simp only [get?_eq_some_iff, filter, List.mem_filter, Option.filter_eq_some_iff]
  constructor
  · rintro ⟨j, ⟨hj, hv⟩, hk⟩
    exact ⟨⟨j, hj, hk⟩, hp j k v hk ▸ hv⟩
  · rintro ⟨⟨j, hj, hk⟩, hv⟩
    exact ⟨j, ⟨hj, (hp j k v hk).symm ▸ hv⟩, hk⟩

@[simp] theorem get?_keep (m : OrderedMap κ α) (p : α → Bool) (k : κ) :
    (m.keep p).get? k = (m.get? k).filter p :=
  m.get?_filter (fun _ _ _ _ => rfl) k

theorem of_get?_keep {m : OrderedMap κ α} {p : α → Bool} {k : κ} {v : α} (h : (m.keep p).get? k = some v) :
    m.get? k = some v ∧ p v = true := by
  rwa [get?_keep, Option.filter_eq_some_iff] at h

theorem get?_insert (m : OrderedMap κ α) (i : κ) (w : α) (k : κ) :
    (m.insert i w).get? k = if (i == k) = true then some w else m.get? k := by
  unfold insert
  split
  · rename_i hany
    simp only [get?, replace, List.find?_map, Function.comp_def, Option.map_map]
    by_cases hik : (i == k) = true
    · obtain ⟨e, he, hei⟩ := List.any_eq_true.1 hany
      have hek := BEq.trans hei hik
      rw [find?_of_mem m.distinct (j := e.1) (v := e.2) he hek]
      simp [hik, hei]
    · rw [if_neg hik]
      cases hf : m.entries.find? (·.1 == k) with
      | none => rfl
      | some e =>
        have hek := find?_key hf
        have hne : ¬ (e.1 == i) = true := fun h => hik (BEq.trans (BEq.symm h) hek)
        simp [hne]
  · rename_i hany
    simp only [get?, List.find?_append, Option.map_or, List.find?_singleton]
    by_cases hik : (i == k) = true
    · have hnone : m.entries.find? (·.1 == k) = none := by
        refine List.find?_eq_none.2 fun e he hek => hany (List.any_eq_true.2 ⟨e, he, ?_⟩)
        exact BEq.trans hek (BEq.symm hik)
      simp [hik, hnone]
    · simp [hik]

theorem insert_of_get? {m : OrderedMap κ α} {k : κ} {v : α} (h : m.get? k = some v) : m.insert k v = m := by
  obtain ⟨j, hj, hjk⟩ := mem_of_get? h
  rw [insert, dif_pos (List.any_eq_true.2 ⟨_, hj, hjk⟩)]
  refine ext_entries ((List.map_congr_left fun e he => ?_).trans (List.map_id _))
  by_cases hek : (e.1 == k) = true
  · rw [eq_of_keys m.distinct he hj (BEq.trans hek (BEq.symm hjk)), if_pos hjk]
    rfl
  · rw [if_neg hek]
    rfl

/-- What is inserted twice under one key is there as it was inserted last. -/
theorem insert_insert (m : OrderedMap κ α) (k : κ) (v w : α) : (m.insert k v).insert k w = m.insert k w := by
  apply ext_entries
  by_cases h : m.entries.any (·.1 == k) = true
  · have hinsert : ∀ u, m.insert k u = ⟨replace m.entries k u, List.pairwise_map.2 m.distinct⟩ := fun u => dif_pos h
    have hany : (replace m.entries k v).any (·.1 == k) = true := by simpa [replace, Function.comp_def] using h
    rw [hinsert, hinsert, insert, dif_pos hany]
    simp only [replace, List.map_map]
    exact List.map_congr_left fun e _ => by by_cases hek : (e.1 == k) = true <;> simp [hek]
  · have hinsert : ∀ u, (m.insert k u).entries = m.entries ++ [(k, u)] := fun u => by rw [insert, dif_neg h]
    have hany : (m.insert k v).entries.any (·.1 == k) = true := by simp [hinsert]
    rw [hinsert, insert, dif_pos hany]
    simp only [hinsert, replace, List.map_append, List.map_singleton, BEq.rfl, reduceIte]
    congr 1
    refine (List.map_congr_left fun e he => ?_).trans (List.map_id _)
    rw [if_neg fun hek => h (List.any_eq_true.2 ⟨e, he, hek⟩)]
    rfl

theorem get?_erase (m : OrderedMap κ α) (i k : κ) :
    (m.erase i).get? k = if (k == i) = true then none else m.get? k := by
  have hp : ∀ (j k : κ) (v : α), (j == k) = true → (fun j (_ : α) => j != i) j v = (fun j (_ : α) => j != i) k v :=
    fun j k _ hjk => by simp only [bne, BEq.congr_left hjk]
  rw [erase, get?_filter m hp]
  by_cases h : (k == i) = true
  · simp [bne, h]
  · simp only [bne, Bool.eq_false_iff.2 h, Bool.not_false, Bool.false_eq_true, reduceIte]
    cases m.get? k <;> rfl

theorem get?_update (m : OrderedMap κ α) (i : κ) (start : α) (f : α → α) (k : κ) :
    (m.update i start f).get? k = if (i == k) = true then some (f ((m.get? k).getD start)) else m.get? k := by
  rw [update, get?_insert]
  by_cases h : (i == k) = true
  · rw [if_pos h, if_pos h, m.get?_congr h]
  · rw [if_neg h, if_neg h]

theorem update_update (m : OrderedMap κ α) (k : κ) (start : α) (f g : α → α) :
    (m.update k start f).update k start g = m.update k start (g ∘ f) := by
  rw [update, update, update, get?_insert, if_pos BEq.rfl, insert_insert]
  rfl

/-- Of entries with one key, the last one counts. -/
theorem get?_insertAll (m : OrderedMap κ α) (es : List (κ × α)) (k : κ) :
    (m.insertAll es).get? k = ((es.reverse.find? (·.1 == k)).map Prod.snd).or (m.get? k) := by
  induction es generalizing m with
  | nil => rfl
  | cons e es ih =>
    rw [insertAll_cons, ih, get?_insert, List.reverse_cons, List.find?_append, Option.map_or,
      Option.or_assoc, List.find?_singleton]
    by_cases h : (e.1 == k) = true <;> simp [h]

theorem mapValues_insertAll (m : OrderedMap κ α) (f : α → β) (es : List (κ × α)) :
    ((m.insertAll es).mapValues f).Agrees ((m.mapValues f).insertAll (es.map fun e => (e.1, f e.2))) := fun k => by
  rw [get?_mapValues, get?_insertAll, get?_insertAll, get?_mapValues, Option.map_or, ← List.map_reverse,
    List.find?_map]
  simp [Function.comp_def]

theorem Agrees.insertAll {m n : OrderedMap κ α} (h : m.Agrees n) (es : List (κ × α)) :
    (m.insertAll es).Agrees (n.insertAll es) := fun k => by
  rw [get?_insertAll, get?_insertAll, h k]

theorem mem_of_get?_insertAll {m : OrderedMap κ α} {es : List (κ × α)} {k : κ} {v : α}
    (h : (m.insertAll es).get? k = some v) :
    (∃ j, (j, v) ∈ es ∧ (j == k) = true) ∨ m.get? k = some v := by
  rw [get?_insertAll, Option.or_eq_some_iff] at h
  rcases h with h | ⟨-, h⟩
  · obtain ⟨e, he, rfl⟩ := Option.map_eq_some_iff.1 h
    exact .inl ⟨e.1, List.mem_reverse.1 (List.mem_of_find?_eq_some he), find?_key he⟩
  · exact .inr h

theorem get?_insertAll_of_mem (m : OrderedMap κ α) {es : List (κ × α)} {e : κ × α} (he : e ∈ es) :
    ∃ f ∈ es, (f.1 == e.1) = true ∧ (m.insertAll es).get? e.1 = some f.2 := by
  have hs : (es.reverse.find? (·.1 == e.1)).isSome :=
    List.find?_isSome.2 ⟨e, List.mem_reverse.2 he, BEq.rfl⟩
  obtain ⟨f, hf⟩ := Option.isSome_iff_exists.1 hs
  refine ⟨f, List.mem_reverse.1 (List.mem_of_find?_eq_some hf), find?_key hf, ?_⟩
  rw [get?_insertAll, hf]
  rfl

theorem isSome_get?_insertAll {m : OrderedMap κ α} {es : List (κ × α)} {k : κ} (h : (m.get? k).isSome = true) :
    ((m.insertAll es).get? k).isSome = true := by
  rw [get?_insertAll, Option.isSome_or, h, Bool.or_true]

theorem get?_insertAll_of_not_mem (m : OrderedMap κ α) {es : List (κ × α)} {k : κ}
    (h : ∀ e ∈ es, ¬ (e.1 == k) = true) : (m.insertAll es).get? k = m.get? k := by
  have hnone : es.reverse.find? (·.1 == k) = none :=
    List.find?_eq_none.2 fun e he => h e (List.mem_reverse.1 he)
  rw [get?_insertAll, hnone]
  rfl

/-- Entries that pass a test may be inserted before or after the others are dropped. -/
theorem keep_insertAll {m : OrderedMap κ α} {p : α → Bool} {es : List (κ × α)} (h : ∀ e ∈ es, p e.2 = true) :
    ((m.insertAll es).keep p).Agrees ((m.keep p).insertAll es) := fun k => by
  rw [get?_keep, get?_insertAll, get?_insertAll, get?_keep]
  cases hf : es.reverse.find? (·.1 == k) with
  | none => rfl
  | some e =>
    have he : p e.2 = true := h e (List.mem_reverse.1 (List.mem_of_find?_eq_some hf))
    simp [Option.filter_some, he]

/-- Dropping twice and adding twice, with what is added first kept by the second drop. -/
theorem insertAll_keep_insertAll (m : OrderedMap κ α) (p : α → Bool) {q : α → Bool} {es : List (κ × α)}
    (fs : List (κ × α)) (h : ∀ e ∈ es, q e.2 = true) :
    ((m.keep fun v => p v && q v).insertAll (es ++ fs)).Agrees
    ((((m.keep p).insertAll es).keep q).insertAll fs) := by
  rw [insertAll_append, ← keep_keep]
  exact (keep_insertAll h).symm.insertAll fs

/-- An entry after an insertion is an old one, or has the new value under a key that is equal. -/
theorem mem_insert {m : OrderedMap κ α} {k : κ} {v : α} {e : κ × α} (h : e ∈ (m.insert k v).entries) :
    e ∈ m.entries ∨ (e.2 = v ∧ (e.1 == k) = true) := by
  unfold insert at h
  split at h
  · obtain ⟨d, hd, rfl⟩ := List.mem_map.1 h
    by_cases hdk : (d.1 == k) = true
    · exact .inr ⟨if_pos hdk, hdk⟩
    · have hsame : (d.1, if (d.1 == k) = true then v else d.2) = d := by rw [if_neg hdk]
      exact .inl (hsame.symm ▸ hd)
  · rcases List.mem_append.1 h with h | h
    · exact .inl h
    · rw [List.mem_singleton.1 h]
      exact .inr ⟨rfl, BEq.rfl⟩

theorem mem_insertAll {es : List (κ × α)} {m : OrderedMap κ α} {e : κ × α} (h : e ∈ (m.insertAll es).entries) :
    e ∈ m.entries ∨ ∃ f ∈ es, e.2 = f.2 ∧ (e.1 == f.1) = true := by
  induction es generalizing m with
  | nil => exact .inl h
  | cons f es ih =>
    rcases ih (insertAll_cons m f es ▸ h) with h | ⟨g, hg, hsame⟩
    · rcases mem_insert h with h | hsame
      · exact .inl h
      · exact .inr ⟨f, List.mem_cons_self, hsame⟩
    · exact .inr ⟨g, List.mem_cons_of_mem _ hg, hsame⟩

theorem KeyedBy.insert {m : OrderedMap κ α} {f : α → κ} (h : m.KeyedBy f) (k : κ) {v : α} (hk : (k == f v) = true) :
    (m.insert k v).KeyedBy f := by
  intro e he
  rcases mem_insert he with he | ⟨hv, hek⟩
  · exact h e he
  · rw [hv]
    exact BEq.trans hek hk

theorem KeyedBy.of_get? {m : OrderedMap κ α} {f : α → κ} (h : m.KeyedBy f) {k : κ} {v : α}
    (hk : m.get? k = some v) :
    (k == f v) = true := by
  obtain ⟨j, hj, hjk⟩ := get?_eq_some_iff.1 hk
  exact BEq.trans (BEq.symm hjk) (h _ hj)

theorem KeyedBy.distinct {m : OrderedMap κ α} {f : α → κ} (h : m.KeyedBy f) :
    (m.rekeyed f).Pairwise fun a b => (a.1 == b.1) = false := by
  refine List.pairwise_map.2 (m.distinct.imp_of_mem ?_)
  intro d e hd he hde
  refine Bool.eq_false_iff.2 fun hsame => ?_
  have hkeys : (d.1 == e.1) = true := BEq.trans (h d hd) (BEq.trans hsame (BEq.symm (h e he)))
  exact Bool.false_ne_true (hde.symm.trans hkeys)

theorem KeyedBy.agrees {m n : OrderedMap κ α} {f : α → κ} (h : m.KeyedBy f) (hn : n.entries = m.rekeyed f) :
    n.Agrees m := by
  intro k
  apply Option.ext
  intro v
  rw [get?_eq_some_iff, get?_eq_some_iff, hn]
  constructor
  · rintro ⟨j, hj, hjk⟩
    obtain ⟨e, he, hsame⟩ := List.mem_map.1 hj
    obtain ⟨rfl, rfl⟩ := Prod.mk.inj hsame
    exact ⟨e.1, he, BEq.trans (h e he) hjk⟩
  · rintro ⟨j, hj, hjk⟩
    exact ⟨f v, List.mem_map.2 ⟨(j, v), hj, rfl⟩, BEq.trans (BEq.symm (h _ hj)) hjk⟩

theorem foldl_erase (m : OrderedMap κ α) (p : α → Bool) :
    (m.entries.filter fun e => p e.2).foldl (fun m e => m.erase e.1) m = m.keep (!p ·) := by
  have hfold : ∀ (ds : List (κ × α)) (m : OrderedMap κ α),
      (ds.foldl (fun m e => m.erase e.1) m).entries = m.entries.filter fun e => ds.all (e.1 != ·.1) := by
    intro ds
    induction ds with
    | nil => intro m; simp
    | cons d ds ih =>
      intro m
      rw [List.foldl_cons, ih]
      simp [erase, filter, List.filter_filter, Bool.and_comm]
  apply ext_entries
  rw [hfold]
  refine List.filter_congr fun e he => ?_
  change _ = !p e.2
  cases hp : p e.2 with
  | true =>
    have hne : ¬ ∀ d ∈ m.entries.filter (fun e => p e.2), (e.1 != d.1) = true := fun h => by
      simpa [bne] using h e (List.mem_filter.2 ⟨he, hp⟩)
    rw [Bool.not_true, Bool.eq_false_iff, ne_eq, List.all_eq_true]
    exact hne
  | false =>
    refine List.all_eq_true.2 fun d hd => ?_
    obtain ⟨hd, hpd⟩ := List.mem_filter.1 hd
    -- two entries of one key would be the same entry
    by_contra hne
    have hed : (e.1 == d.1) = true := by simpa [bne] using hne
    rw [← eq_of_keys m.distinct he hd hed, hp] at hpd
    exact Bool.false_ne_true hpd

end

end OrderedMap

/-! ## Lists without equal members -/

section
variable {α : Type} [BEq α]

/-- No two members are equal, in whatever form. -/
abbrev Distinct (l : List α) : Prop := l.Pairwise fun a b => (a == b) = false

theorem OrderedMap.distinct_keys {β : Type} (m : OrderedMap α β) : Distinct m.keys := List.pairwise_map.2 m.distinct

theorem contains_filter (l : List α) {p : α → Bool} (hp : ∀ a b, (a == b) = true → p a = p b) (a : α) :
    (l.filter p).contains a = (l.contains a && p a) := by
  rw [Bool.eq_iff_iff, Bool.and_eq_true, List.contains_iff_exists_mem_beq, List.contains_iff_exists_mem_beq]
  constructor
  · rintro ⟨b, hb, hab⟩
    obtain ⟨hb, hpb⟩ := List.mem_filter.1 hb
    exact ⟨⟨b, hb, hab⟩, (hp a b hab).trans hpb⟩
  · rintro ⟨⟨b, hb, hab⟩, hpa⟩
    exact ⟨b, List.mem_filter.2 ⟨hb, (hp a b hab).symm.trans hpa⟩, hab⟩

variable [EquivBEq α] {l m : List α} {a b : α}

theorem contains_congr (l : List α) (h : (a == b) = true) : l.contains a = l.contains b := by
  rw [Bool.eq_iff_iff, List.contains_iff_exists_mem_beq, List.contains_iff_exists_mem_beq]
  exact ⟨fun ⟨c, hc, hac⟩ => ⟨c, hc, BEq.trans (BEq.symm h) hac⟩, fun ⟨c, hc, hbc⟩ => ⟨c, hc, BEq.trans h hbc⟩⟩

theorem contains_of_mem (h : a ∈ l) : l.contains a = true :=
  List.contains_iff_exists_mem_beq.2 ⟨a, h, BEq.rfl⟩

theorem contains_iff_countP (l : List α) (a : α) : l.contains a = true ↔ 0 < l.countP (· == a) := by
  rw [List.contains_iff_exists_mem_beq, List.countP_pos_iff]
  exact exists_congr fun b => and_congr_right fun _ => by rw [BEq.comm]

theorem Distinct.nodup (h : Distinct l) : l.Nodup := by
  refine h.imp fun {a b} hab => ?_
  rintro rfl
  exact Bool.false_ne_true (hab.symm.trans BEq.rfl)

theorem Distinct.perm {m : List α} (h : Distinct l) (hperm : l.Perm m) : Distinct m := by
  refine (hperm.pairwise_iff ?_).1 h
  intro a b hab
  rwa [BEq.comm]

theorem Distinct.snoc (h : Distinct l) (ha : l.contains a = false) : Distinct (l ++ [a]) := by
  refine List.pairwise_append.2 ⟨h, List.pairwise_singleton _ _, fun b hb c hc => ?_⟩
  rw [List.mem_singleton.1 hc]
  refine Bool.eq_false_iff.2 fun hba => ?_
  rw [← contains_congr l hba, contains_of_mem hb] at ha
  cases ha

/-- Where the members of such a list are equal, they are at one place. -/
theorem Distinct.get_inj (h : Distinct l) {i j : Fin l.length} (hij : (l.get i == l.get j) = true) : i = j := by
  rcases Nat.lt_trichotomy i j with hlt | heq | hlt
  · rw [h.rel_get_of_lt hlt] at hij
    cases hij
  · exact Fin.ext heq
  · rw [BEq.comm, h.rel_get_of_lt hlt] at hij
    cases hij

theorem Distinct.eq_of_beq (h : Distinct l) (ha : a ∈ l) (hb : b ∈ l) (hab : (a == b) = true) : a = b := by
  obtain ⟨i, rfl⟩ := List.get_of_mem ha
  obtain ⟨j, rfl⟩ := List.get_of_mem hb
  rw [h.get_inj hab]

theorem not_contains_of_ne (h : ∀ b ∈ l, (a == b) = false) {c : α} (hca : (c == a) = true) :
    l.contains c = false := by
  rw [Bool.eq_false_iff, ne_eq, List.contains_iff_exists_mem_beq]
  rintro ⟨b, hb, hcb⟩
  exact Bool.false_ne_true ((h b hb).symm.trans (BEq.trans (BEq.symm hca) hcb))

/-- What such a list contains, it contains once. -/
theorem Distinct.countP_beq (h : Distinct l) (a : α) : l.countP (· == a) = if l.contains a then 1 else 0 := by
  induction l with
  | nil => rfl
  | cons b l ih =>
    obtain ⟨hb, hl⟩ := List.pairwise_cons.1 h
    rw [List.countP_cons, ih hl, List.contains_cons, BEq.comm (a := b)]
    by_cases hab : (a == b) = true
    · simp [hab, not_contains_of_ne hb hab]
    · simp [hab]

/-- Such lists that contain the same are of one length. -/
theorem Distinct.length_eq : ∀ {l m : List α}, Distinct l → Distinct m → (∀ a, l.contains a = m.contains a) →
    l.length = m.length
  | [], [], _, _, _ => rfl
  | [], b :: m, _, _, h => by
    have hb := h b
    rw [contains_of_mem List.mem_cons_self] at hb
    cases hb
  | a :: l, m, hl, hm, h => by
    obtain ⟨ha, hl⟩ := List.pairwise_cons.1 hl
    obtain ⟨b, hb, hab⟩ := List.contains_iff_exists_mem_beq.1
      ((h a).symm.trans (contains_of_mem List.mem_cons_self))
    obtain ⟨s, t, rfl⟩ := List.append_of_mem hb
    have hperm : (s ++ b :: t).Perm (b :: (s ++ t)) := List.perm_middle
    have hm : Distinct (b :: (s ++ t)) := hperm.pairwise hm fun h => by rwa [BEq.comm]
    obtain ⟨hb, hm⟩ := List.pairwise_cons.1 hm
    -- without the two members that are equal, the lists still contain the same
    have hrest : ∀ c, l.contains c = (s ++ t).contains c := fun c => by
      have hc : (a :: l).contains c = (b :: (s ++ t)).contains c := by
        rw [h c, Bool.eq_iff_iff, List.contains_iff_exists_mem_beq, List.contains_iff_exists_mem_beq]
        simp only [hperm.mem_iff]
      rw [List.contains_cons, List.contains_cons] at hc
      by_cases hca : (c == a) = true
      · rw [not_contains_of_ne ha hca, not_contains_of_ne hb (BEq.trans hca hab)]
      · have hcb : ¬ (c == b) = true := fun hcb => hca (BEq.trans hcb (BEq.symm hab))
        simpa [hca, hcb] using hc
    rw [hperm.length_eq, List.length_cons, List.length_cons, Distinct.length_eq hl hm hrest]

theorem OrderedMap.contains_keys {β : Type} (m : OrderedMap α β) (a : α) :
    m.keys.contains a = (m.get? a).isSome := by
  rw [Bool.eq_iff_iff, List.contains_iff_exists_mem_beq, Option.isSome_iff_exists]
  constructor
  · rintro ⟨b, hb, hab⟩
    obtain ⟨e, he, rfl⟩ := List.mem_map.1 hb
    exact ⟨e.2, OrderedMap.get?_eq_some_iff.2 ⟨e.1, he, BEq.symm hab⟩⟩
  · rintro ⟨v, hv⟩
    obtain ⟨b, hb, hba⟩ := OrderedMap.get?_eq_some_iff.1 hv
    exact ⟨b, List.mem_map.2 ⟨(b, v), hb, rfl⟩, BEq.symm hba⟩

/-! ## Counting entries -/

theorem OrderedMap.size_keep_eq_length {β : Type} {m : OrderedMap α β} {p : β → Bool} {ks : List α}
    (hdistinct : Distinct ks) (hks : ∀ k, ks.contains k = true ↔ ∃ v, m.get? k = some v ∧ p v = true) :
    (m.keep p).size = ks.length := by
  have hlength : (m.keep p).size = (m.keep p).keys.length := (List.length_map _).symm
  rw [hlength]
  refine (distinct_keys _).length_eq hdistinct fun k => ?_
  rw [Bool.eq_iff_iff, hks, contains_keys, get?_keep, Option.isSome_iff_exists]
  simp only [Option.filter_eq_some_iff]

theorem OrderedMap.size_keep_eq_zero_iff {β : Type} {m : OrderedMap α β} {p : β → Bool} :
    (m.keep p).size = 0 ↔ ∀ k v, m.get? k = some v → p v = false := by
  have hsize : (m.keep p).size = 0 ↔ ∀ e ∈ m.entries, ¬ p e.2 = true :=
    List.length_eq_zero_iff.trans List.filter_eq_nil_iff
  rw [hsize]
  constructor
  · intro h k v hv
    obtain ⟨j, hj, -⟩ := mem_of_get? hv
    exact Bool.eq_false_iff.2 (h _ hj)
  · exact fun h e he => Bool.eq_false_iff.1 (h e.1 e.2 (get?_of_mem he))

end

theorem OrderedMap.size_keep_add {α β : Type} [BEq α] (m : OrderedMap α β) (p q : β → Bool) :
    (m.keep p).size = (m.keep fun v => p v && q v).size + (m.keep fun v => p v && !q v).size := by
  have hcount : ∀ p : β → Bool, (m.keep p).size = m.entries.countP fun e => p e.2 := fun p =>
    List.countP_eq_length_filter.symm
  rw [hcount, hcount, hcount, List.countP_eq_countP_filter_add m.entries (fun e => p e.2) fun e => q e.2,
    List.countP_filter, List.countP_filter]

end SourceAtlas
