import Mathlib.Algebra.Order.Field.Basic
import Mathlib.Algebra.Order.Field.Rat
import SourceAtlas.Json.Decode
import SourceAtlas.Proofs.Alignment

/-!
# Replies that cannot be read

A run of batches comes to embeddings, or to a failure that says how long the
texts are, unless the last reply is a success that cannot be read, or tells a
number of tokens that cannot be added. What is read of a body is a record with
a list of records that can be sorted, as well as the lengths of their
embeddings and the number of tokens, if there are as many as texts.
-/

namespace SourceAtlas

open Decimal (Binary Extended scaled)
open Json (Value Record)

theorem fieldOr_ok_iff {v w default : Value} {name : String} :
    fieldOr v name default = .ok w ↔ ∃ r, v = .obj r ∧ Record.given r name default = w := by
  constructor
  · intro h
    cases v with
    | obj r => exact ⟨r, rfl, pure_eq_ok.1 h⟩
    | _ => cases h
  · rintro ⟨r, rfl, rfl⟩
    rfl

/-! ## The largest number -/

namespace Decimal

def largest : Nat := (2 ^ 53 - 1) * 2 ^ 971

theorem of_ofFloat {x : Float} {negative : Bool} {m : Nat} {q : Int} (h : Binary.ofFloat x = .finite negative m q) :
    m ≤ 2 ^ 53 - 1 ∧ q ≤ 971 := by
  have hfraction : x.toBits.toNat % Nat.pow 2 52 < 2 ^ 52 := Nat.mod_lt _ (by decide)
  have hexponent : x.toBits.toNat / Nat.pow 2 52 % Nat.pow 2 11 < 2 ^ 11 := Nat.mod_lt _ (by decide)
  have hpow : Nat.pow 2 52 = 2 ^ 52 := rfl
  unfold Binary.ofFloat at h
  dsimp only at h
  generalize x.toBits.toNat / Nat.pow 2 52 % Nat.pow 2 11 = e at h hexponent
  generalize x.toBits.toNat % Nat.pow 2 52 = f at h hfraction
  split at h
  · split at h <;> cases h
  · split at h
    · obtain ⟨-, rfl, rfl⟩ := Binary.finite.inj h
      omega
    · obtain ⟨-, rfl, rfl⟩ := Binary.finite.inj h
      omega

theorem scaled_le {m b e : Nat} {q : Int} (hm : m ≤ b) (hq : q ≤ e) :
    (scaled m 2 q).1 ≤ b * 2 ^ e ∧ 1 ≤ (scaled m 2 q).2 := by
  unfold scaled
  split
  · exact ⟨Nat.mul_le_mul hm (Nat.pow_le_pow_right (by decide) (by omega)), Nat.le_refl 1⟩
  · exact ⟨hm.trans (Nat.le_mul_of_pos_right _ (Nat.pow_pos (by decide))), Nat.pow_pos (by decide)⟩

theorem abs_le_largest {x : Float} {r : Rat} (h : Extended.ofFloat x = .exact r) : |r| ≤ largest := by
  unfold Extended.ofFloat at h
  split at h
  · cases h
  · cases h
  · rename_i negative m q hx
    obtain ⟨hm, hq⟩ := of_ofFloat hx
    obtain ⟨hn, hd⟩ := scaled_le (e := 971) hm hq
    rw [← largest] at hn
    generalize scaled m 2 q = s at h hn hd
    obtain rfl := Extended.exact.inj h
    have habs : |((if negative then -(s.1 : Int) else s.1 : Int) : Rat)| = s.1 := by
      cases negative <;> simp
    rw [Rat.mkRat_eq_div, abs_div, habs, Nat.abs_cast]
    have hpos : (1 : Rat) ≤ s.2 := by exact_mod_cast hd
    calc (s.1 : Rat) / s.2
      _ ≤ s.1 := div_le_self (Nat.cast_nonneg _) hpos
      _ ≤ largest := by exact_mod_cast hn

theorem natAbs_floor_le {r : Rat} {b : Nat} (h : |r| ≤ b) : r.floor.natAbs ≤ b := by
  obtain ⟨hlow, hhigh⟩ := abs_le.1 h
  have hfloor : -(b : Int) ≤ r.floor := Rat.le_floor_iff.2 (by exact_mod_cast hlow)
  have hceil : r.floor ≤ b := by exact_mod_cast (Rat.floor_le r).trans hhigh
  omega

end Decimal

theorem floatOf_ok_iff {n : Int} : (∃ x, floatOf n = .ok x) ↔ n.natAbs < Nat.pow 2 1024 - Nat.pow 2 970 := by
  unfold floatOf
  split
  · rename_i h
    exact iff_of_false (fun ⟨x, hx⟩ => nomatch hx) (Nat.not_lt.2 h)
  · rename_i h
    exact iff_of_true ⟨_, rfl⟩ (Nat.lt_of_not_le h)

theorem largest_lt : Decimal.largest < Nat.pow 2 1024 - Nat.pow 2 970 := by decide +kernel

namespace Embedding

/-! ## Failures of embedding and others -/

section

variable {α β : Type} {x : Outcome α} {g : α → Outcome β}

/-- An answer, or a failure that says how long the texts are. -/
def Reported (x : Outcome α) : Prop := (∃ a, x = .ok a) ∨ ∃ length cause, x = .error (.embedding length cause)

def Foreign (x : Outcome α) : Prop := ∀ length cause, x ≠ .error (.embedding length cause)

theorem reported_error_iff {f : Failure} :
    Reported (.error f : Outcome α) ↔ ∃ length cause, f = .embedding length cause := by
  constructor
  · rintro (⟨a, h⟩ | ⟨length, cause, h⟩)
    · cases h
    · exact ⟨length, cause, Except.error.inj h⟩
  · rintro ⟨length, cause, rfl⟩
    exact .inr ⟨length, cause, rfl⟩

theorem Foreign.reported_iff (h : Foreign x) : Reported x ↔ ∃ a, x = .ok a :=
  ⟨fun hx => hx.resolve_right fun ⟨length, cause, hf⟩ => h length cause hf, .inl⟩

theorem Foreign.reported_bind_iff (h : Foreign x) : Reported (x >>= g) ↔ ∃ a, x = .ok a ∧ Reported (g a) := by
  cases x with
  | ok a => exact ⟨fun hg => ⟨a, rfl, hg⟩, fun ⟨b, hb, hg⟩ => Except.ok.inj hb ▸ hg⟩
  | error f =>
    constructor
    · rintro (⟨b, hb⟩ | ⟨length, cause, hf⟩)
      · cases hb
      · rcases bind_eq_error.1 hf with hf | ⟨a, ha, -⟩
        · exact (h length cause hf).elim
        · cases ha
    · rintro ⟨a, ha, -⟩
      cases ha

theorem Foreign.pure (a : α) : Foreign (Pure.pure a) := nofun

theorem Foreign.bind (h : Foreign x) (hg : ∀ a, Foreign (g a)) : Foreign (x >>= g) := by
  intro length cause hf
  rcases bind_eq_error.1 hf with hx | ⟨a, -, ha⟩
  · exact h length cause hx
  · exact hg a length cause ha

theorem Foreign.mapM {g : α → Outcome β} (hg : ∀ a, Foreign (g a)) (as : List α) : Foreign (as.mapM g) := by
  intro length cause hf
  obtain ⟨a, -, ha⟩ := exists_of_mapM_error hf
  exact hg a length cause ha

end

theorem foreign_misfit {α : Type} : Foreign (misfit : Outcome α) := nofun

theorem foreign_fieldOr (v : Value) (name : String) (default : Value) : Foreign (fieldOr v name default) := by
  cases v <;> nofun

theorem foreign_members (v : Value) : Foreign (members v) := by
  cases v <;> nofun

theorem foreign_size (v : Value) : Foreign (size v) := .bind (foreign_members v) fun _ => .pure _

theorem foreign_asInt (v : Value) : Foreign (asInt v) := by
  cases v <;> nofun

theorem foreign_floatOf (n : Int) : Foreign (floatOf n) := by
  unfold floatOf
  split <;> nofun

theorem foreign_asFloat (v : Value) : Foreign (asFloat v) := by
  cases v with
  | int n => exact foreign_floatOf n
  | _ => nofun

theorem foreign_decode (e : Text.Encoding) (bytes : List UInt8) : Foreign (Json.decode e bytes) := by
  unfold Json.decode
  split
  · rename_i text htext
    unfold Json.parse
    cases Json.read text with
    | ok v => nofun
    | error fault => cases fault <;> nofun
  · nofun

namespace Remote

theorem foreign_byIndex (items : List Value) : Foreign (byIndex items) := by
  refine .bind (.mapM (fun v => .bind (foreign_fieldOr v _ _) fun _ => .pure _) items) fun keyed => ?_
  dsimp only
  split
  · exact foreign_misfit.bind fun _ => .pure _
  · exact .pure _

theorem foreign_share (total : Value) (n : Nat) : Foreign (share total n) := by
  unfold share
  split
  · split
    · exact .bind (foreign_floatOf _) fun _ => .pure _
    · exact .pure _
  · exact .bind (foreign_asInt _) fun _ => .pure _

theorem foreign_addTokens (a b : Value) : Foreign (addTokens a b) := by
  unfold addTokens
  split
  · exact .pure _
  · exact .pure _
  · exact .bind (foreign_asFloat _) fun _ => .bind (foreign_asFloat _) fun _ => .pure _

/-! ## Bodies -/

structure Complete (fields : Record) (items : List Record) : Prop where
  total : ∃ usage, Record.given fields "usage" (.obj []) = .obj usage ∧
    (Record.given usage "total_tokens" (.int 0)).number?.isSome
  embeddings : ∀ r ∈ items, ∃ n, size (Record.given r "embedding" (.list [])) = .ok n

def Sortable (items : List Record) : Prop :=
  2 ≤ items.length → ∀ a ∈ items, ∀ b ∈ items,
    ((Record.given a "index" (.int 0)).before? (Record.given b "index" (.int 0))).isSome

inductive Legible (n : Nat) : Value → Prop
  | intro {fields : Record} {items : List Record}
    (data : members (Record.given fields "data" (.list [])) = .ok (items.map .obj)) (sortable : Sortable items)
    (complete : items.length = n → Complete fields items) : Legible n (.obj fields)

theorem exists_records : ∀ {vs : List Value}, (∀ v ∈ vs, ∃ r, v = .obj r) → ∃ rs : List Record, vs = rs.map .obj
  | [], _ => ⟨[], rfl⟩
  | v :: vs, h => by
    obtain ⟨⟨r, rfl⟩, hvs⟩ := List.forall_mem_cons.1 h
    obtain ⟨rs, rfl⟩ := exists_records hvs
    exact ⟨r :: rs, rfl⟩

def indexed (r : Record) : Value × Value := (Record.given r "index" (.int 0), .obj r)

def incomparable (rs : List Record) : Bool :=
  2 ≤ rs.length && !(rs.map indexed).all fun a => (rs.map indexed).all fun b => (a.1.before? b.1).isSome

theorem incomparable_eq_false_iff {rs : List Record} : incomparable rs = false ↔ Sortable rs := by
  simp only [incomparable, Sortable, indexed, Bool.and_eq_false_iff, decide_eq_false_iff_not, Bool.not_eq_false',
    List.all_eq_true, List.forall_mem_map]
  exact (imp_iff_not_or (a := 2 ≤ rs.length)).symm

theorem byIndex_records (rs : List Record) : byIndex (rs.map .obj) = if incomparable rs then misfit
    else .ok (((rs.map indexed).mergeSort fun a b => b.1.before? a.1 != some true).map (·.2)) := by
  have hkeyed : ((rs.map Value.obj).mapM fun v => do pure (← fieldOr v "index" (.int 0), v)) =
      (.ok (rs.map indexed) : Outcome _) := by
    rw [mapM_ok_iff, List.forall₂_map_left_iff, List.forall₂_map_right_iff, List.forall₂_same]
    exact fun r _ => rfl
  rw [byIndex, hkeyed, incomparable, ← List.length_map indexed]
  simp only [bind, Except.bind]
  split <;> rfl

theorem byIndex_of_sortable {rs : List Record} (h : Sortable rs) :
    ∃ items, byIndex (rs.map .obj) = .ok items ∧ items.Perm (rs.map .obj) := by
  refine ⟨_, by rw [byIndex_records, incomparable_eq_false_iff.2 h, if_neg Bool.false_ne_true], ?_⟩
  have hperm := (List.mergeSort_perm (rs.map indexed) fun a b => b.1.before? a.1 != some true).map (·.2)
  rwa [List.map_map] at hperm

theorem of_byIndex {vs items : List Value} (h : byIndex vs = .ok items) :
    ∃ rs : List Record, vs = rs.map .obj ∧ Sortable rs := by
  have hrecords : ∀ v ∈ vs, ∃ r, v = .obj r := by
    intro v hv
    obtain ⟨keyed, hkeyed, -⟩ := bind_eq_ok.1 h
    obtain ⟨k, hk⟩ := exists_mapM_ok_iff.1 ⟨keyed, hkeyed⟩ v hv
    obtain ⟨i, hi, -⟩ := bind_eq_ok.1 hk
    obtain ⟨r, hr, -⟩ := fieldOr_ok_iff.1 hi
    exact ⟨r, hr⟩
  obtain ⟨rs, rfl⟩ := exists_records hrecords
  refine ⟨rs, rfl, incomparable_eq_false_iff.1 (Bool.eq_false_iff.2 fun hwrong => ?_)⟩
  rw [byIndex_records, if_pos hwrong] at h
  cases h

theorem share_ok_iff {total : Value} {n : Nat} (hn : 1 ≤ n) :
    (∃ v, share total n = .ok v) ↔ total.number?.isSome := by
  cases total with
  | int k => exact iff_of_true ⟨_, rfl⟩ rfl
  | bool b => exact iff_of_true ⟨_, rfl⟩ rfl
  | float x =>
    refine iff_of_true ?_ rfl
    rw [share]
    split
    · rename_i r hr
      have hle := Decimal.abs_le_largest (Option.some.inj hr)
      have hshare : |r / n| ≤ Decimal.largest := by
        have hone : (1 : Rat) ≤ n := by exact_mod_cast hn
        rw [abs_div, Nat.abs_cast]
        exact (div_le_self (abs_nonneg r) hone).trans hle
      obtain ⟨y, hy⟩ := floatOf_ok_iff.2 (Nat.lt_of_le_of_lt (Decimal.natAbs_floor_le hshare) largest_lt)
      exact ⟨.float y, by rw [hy]; rfl⟩
    · exact ⟨_, rfl⟩
  | null | str _ | list _ | obj _ => exact iff_of_false (fun ⟨v, hv⟩ => nomatch hv) nofun

def embeddedOf (c : Config) (total : Value) (n : Nat) (p : String × Value) : Outcome Embedded := do
  let embedding ← fieldOr p.2 "embedding" (.list [])
  let dimensions ← size embedding
  let tokens ← share total n
  pure ⟨p.1, embedding, c.model, dimensions, tokens⟩

def readItems (c : Config) (texts : List String) (body : Value) (items : List Value) :
    Outcome (List Embedded × Value) := do
  let total ← fieldOr (← fieldOr body "usage" (.obj [])) "total_tokens" (.int 0)
  let results ← (texts.zip items).mapM (embeddedOf c total texts.length)
  pure (results, total)

theorem interpret_eq (c : Config) (texts : List String) (body : Value) : interpret c texts body = (do
    let data ← fieldOr body "data" (.list [])
    let vs ← members data
    let items ← byIndex vs
    if items.length = texts.length then readItems c texts body items
    else .error (wrongCount (totalLength texts) texts.length items.length)) := by
  unfold interpret
  refine bind_congr fun data => bind_congr fun vs => bind_congr fun items => ?_
  by_cases hcount : items.length = texts.length
  · rw [if_pos hcount, if_neg (by simp [hcount])]
    rfl
  · rw [if_neg hcount, if_pos (by simp [hcount])]
    rfl

variable {c : Config} {texts : List String}

theorem embeddedOf_ok_iff {total : Value} {n : Nat} {p : String × Value} : (∃ e, embeddedOf c total n p = .ok e) ↔
    ∃ r, p.2 = .obj r ∧ (∃ k, size (Record.given r "embedding" (.list [])) = .ok k) ∧ ∃ v,
      share total n = .ok v := by
  constructor
  · rintro ⟨e, h⟩
    obtain ⟨embedding, hembedding, h⟩ := bind_eq_ok.1 h
    obtain ⟨k, hk, h⟩ := bind_eq_ok.1 h
    obtain ⟨v, hv, -⟩ := bind_eq_ok.1 h
    obtain ⟨r, hr, rfl⟩ := fieldOr_ok_iff.1 hembedding
    exact ⟨r, hr, ⟨k, hk⟩, v, hv⟩
  · rintro ⟨r, hr, ⟨k, hk⟩, v, hv⟩
    refine ⟨⟨p.1, Record.given r "embedding" (.list []), c.model, k, v⟩, ?_⟩
    rw [embeddedOf, fieldOr_ok_iff.2 ⟨r, hr, rfl⟩]
    simp only [bind, Except.bind, hk, hv]
    rfl

theorem readItems_ok_iff {fields : Record} {rs : List Record} {items : List Value} (hne : texts ≠ [])
    (hlength : items.length = texts.length) (hperm : items.Perm (rs.map .obj)) :
    (∃ a, readItems c texts (.obj fields) items = .ok a) ↔ Complete fields rs := by
  have hone : 1 ≤ texts.length := List.length_pos_iff.2 hne
  constructor
  · rintro ⟨a, h⟩
    obtain ⟨usage, husage, h⟩ := bind_eq_ok.1 h
    obtain ⟨total, htotal, h⟩ := bind_eq_ok.1 h
    obtain ⟨results, hresults, -⟩ := bind_eq_ok.1 h
    obtain ⟨u, rfl, rfl⟩ := fieldOr_ok_iff.1 htotal
    have hread := exists_mapM_ok_iff.1 ⟨results, hresults⟩
    have hitem : ∀ v ∈ items, ∃ r, v = .obj r ∧ (∃ k, size (Record.given r "embedding" (.list [])) = .ok k) ∧
        ∃ w, share (Record.given u "total_tokens" (.int 0)) texts.length = .ok w := by
      intro v hv
      have hsnd : (texts.zip items).map Prod.snd = items := List.map_snd_zip hlength.le
      rw [← hsnd] at hv
      obtain ⟨p, hp, rfl⟩ := List.mem_map.1 hv
      exact embeddedOf_ok_iff.1 (hread p hp)
    refine ⟨⟨u, (pure_eq_ok.1 husage), ?_⟩, fun r hr => ?_⟩
    · obtain ⟨v, hv⟩ := List.exists_mem_of_length_pos (hlength ▸ hone)
      obtain ⟨-, -, -, hshare⟩ := hitem v hv
      exact (share_ok_iff hone).1 hshare
    · obtain ⟨r', hr', hsize, -⟩ := hitem (.obj r) (hperm.mem_iff.2 (List.mem_map_of_mem hr))
      exact (Value.obj.inj hr') ▸ hsize
  · rintro ⟨⟨u, husage, htotal⟩, hembeddings⟩
    have hread : ∀ p ∈ texts.zip items, ∃ e,
        embeddedOf c (Record.given u "total_tokens" (.int 0)) texts.length p = .ok e := by
      intro p hp
      obtain ⟨r, hr, hpr⟩ := List.mem_map.1 (hperm.mem_iff.1 (List.of_mem_zip hp).2)
      exact embeddedOf_ok_iff.2 ⟨r, hpr.symm, hembeddings r hr, (share_ok_iff hone).2 htotal⟩
    obtain ⟨results, hresults⟩ := exists_mapM_ok_iff.2 hread
    refine ⟨(results, Record.given u "total_tokens" (.int 0)), ?_⟩
    have hfield : fieldOr (.obj fields) "usage" (.obj []) = .ok (.obj u) := fieldOr_ok_iff.2 ⟨fields, rfl, husage⟩
    have htokens : fieldOr (.obj u) "total_tokens" (.int 0) = .ok (Record.given u "total_tokens" (.int 0)) := rfl
    simp only [readItems, bind, Except.bind, hfield, htokens, hresults]
    rfl

theorem foreign_readItems (body : Value) (items : List Value) : Foreign (readItems c texts body items) := by
  refine .bind (foreign_fieldOr _ _ _) fun usage => .bind (foreign_fieldOr _ _ _) fun total => ?_
  refine .bind (.mapM (fun p => .bind (foreign_fieldOr _ _ _) fun embedding => ?_) _) fun _ => .pure _
  exact .bind (foreign_size _) fun _ => .bind (foreign_share _ _) fun _ => .pure _

theorem reported_interpret_iff (hne : texts ≠ []) (body : Value) :
    Reported (interpret c texts body) ↔ Legible texts.length body := by
  rw [interpret_eq, (foreign_fieldOr _ _ _).reported_bind_iff]
  simp only [(foreign_members _).reported_bind_iff, (foreign_byIndex _).reported_bind_iff]
  constructor
  · rintro ⟨data, hdata, vs, hvs, items, hitems, hreported⟩
    obtain ⟨fields, rfl, rfl⟩ := fieldOr_ok_iff.1 hdata
    obtain ⟨rs, rfl, hsortable⟩ := of_byIndex hitems
    refine .intro hvs hsortable fun hcount => ?_
    obtain ⟨items', hitems', hperm⟩ := byIndex_of_sortable hsortable
    obtain rfl := Except.ok.inj (hitems.symm.trans hitems')
    have hlength : items.length = texts.length := by rw [hperm.length_eq, List.length_map, hcount]
    rw [if_pos hlength, (foreign_readItems _ _).reported_iff] at hreported
    exact (readItems_ok_iff hne hlength hperm).1 hreported
  · rintro ⟨hdata, hsortable, hcomplete⟩
    rename_i fields rs
    obtain ⟨items, hitems, hperm⟩ := byIndex_of_sortable hsortable
    refine ⟨_, fieldOr_ok_iff.2 ⟨fields, rfl, rfl⟩, _, hdata, items, hitems, ?_⟩
    have hcount : items.length = rs.length := by rw [hperm.length_eq, List.length_map]
    split
    · rename_i hlength
      exact .inl ((readItems_ok_iff hne hlength hperm).2 (hcomplete (hcount.symm.trans hlength)))
    · exact .inr ⟨_, _, rfl⟩

theorem text_of_embeddedOf {total : Value} {n : Nat} {p : String × Value} {e : Embedded}
    (h : embeddedOf c total n p = .ok e) : p.1 = e.text := by
  obtain ⟨embedding, -, h⟩ := bind_eq_ok.1 h
  obtain ⟨k, -, h⟩ := bind_eq_ok.1 h
  obtain ⟨v, -, h⟩ := bind_eq_ok.1 h
  obtain rfl := pure_eq_ok.1 h
  rfl

/-- A body that is read gives an embedding for each text, and a number. -/
theorem of_interpret {body tokens : Value} {results : List Embedded} (hne : texts ≠ [])
    (h : interpret c texts body = .ok (results, tokens)) :
    results.map (·.text) = texts ∧ tokens.number?.isSome := by
  have hone : 1 ≤ texts.length := List.length_pos_iff.2 hne
  rw [interpret_eq] at h
  obtain ⟨data, -, h⟩ := bind_eq_ok.1 h
  obtain ⟨vs, -, h⟩ := bind_eq_ok.1 h
  obtain ⟨items, -, h⟩ := bind_eq_ok.1 h
  split at h
  · rename_i hlength
    obtain ⟨usage, -, h⟩ := bind_eq_ok.1 h
    obtain ⟨total, -, h⟩ := bind_eq_ok.1 h
    obtain ⟨embedded, hembedded, h⟩ := bind_eq_ok.1 h
    obtain ⟨rfl, rfl⟩ := Prod.mk.inj (pure_eq_ok.1 h)
    have htexts : (texts.zip items).map Prod.fst = embedded.map (·.text) :=
      map_eq_map_iff.2 ((mapM_ok_iff.1 hembedded).imp fun p e he => text_of_embeddedOf he)
    have hpair : 0 < (texts.zip items).length := by
      rw [List.length_zip, hlength, Nat.min_self]
      exact hone
    obtain ⟨p, hp⟩ := List.exists_mem_of_length_pos hpair
    obtain ⟨-, -, -, hshare⟩ := embeddedOf_ok_iff.1 (exists_mapM_ok_iff.1 ⟨embedded, hembedded⟩ p hp)
    exact ⟨htexts.symm.trans (List.map_fst_zip hlength.ge), (share_ok_iff hone).1 hshare⟩
  · cases h

/-! ## Numbers of tokens -/

def IsTotal (v : Value) : Prop := (∃ n, v = .int n) ∨ ∃ x, v = .float x

/-- Whether two numbers can be added: a whole number that is added to a floating point one has to
be within its range. -/
def Addable (a b : Value) : Prop :=
  ∀ x n, a = .float x ∧ b = .int n ∨ a = .int n ∧ b = .float x → n.natAbs < Nat.pow 2 1024 - Nat.pow 2 970

theorem addTokens_ok_iff {a b : Value} (ha : IsTotal a) (hb : b.number?.isSome) :
    (∃ v, addTokens a b = .ok v) ↔ Addable a b := by
  obtain ⟨m, rfl⟩ | ⟨x, rfl⟩ := ha
  · cases b with
    | int _ | bool _ =>
      refine iff_of_true ⟨_, rfl⟩ fun z k hk => ?_
      rcases hk with ⟨h, -⟩ | ⟨-, h⟩ <;> cases h
    | float y =>
      have hadd : addTokens (.int m) (.float y) = (do pure (.float ((← floatOf m) + y))) := rfl
      have hrange : Addable (.int m) (.float y) ↔ m.natAbs < Nat.pow 2 1024 - Nat.pow 2 970 := by
        refine ⟨fun h => h y m (.inr ⟨rfl, rfl⟩), ?_⟩
        rintro h z n (⟨hz, -⟩ | ⟨hn, -⟩)
        · cases hz
        · exact Value.int.inj hn ▸ h
      rw [hrange, ← floatOf_ok_iff, hadd, exists_pure_ok_iff]
    | null | str _ | list _ | obj _ => cases hb
  · cases b with
    | int n =>
      have hadd : addTokens (.float x) (.int n) = (do pure (.float (x + (← floatOf n)))) := by
        simp only [addTokens, asFloat, pure_bind]
      have hrange : Addable (.float x) (.int n) ↔ n.natAbs < Nat.pow 2 1024 - Nat.pow 2 970 := by
        refine ⟨fun h => h x n (.inl ⟨rfl, rfl⟩), ?_⟩
        rintro h z k (⟨-, hk⟩ | ⟨hz, -⟩)
        · exact Value.int.inj hk ▸ h
        · cases hz
      rw [hrange, ← floatOf_ok_iff, hadd, exists_pure_ok_iff]
    | bool _ | float _ =>
      refine iff_of_true ⟨_, rfl⟩ fun z k hk => ?_
      rcases hk with ⟨-, h⟩ | ⟨h, -⟩ <;> cases h
    | null | str _ | list _ | obj _ => cases hb

theorem isTotal_of_addTokens {a b v : Value} (h : addTokens a b = .ok v) : IsTotal v := by
  unfold addTokens at h
  split at h
  · exact .inl ⟨_, (pure_eq_ok.1 h).symm⟩
  · exact .inl ⟨_, (pure_eq_ok.1 h).symm⟩
  · obtain ⟨x, -, h⟩ := bind_eq_ok.1 h
    obtain ⟨y, -, h⟩ := bind_eq_ok.1 h
    exact .inr ⟨_, (pure_eq_ok.1 h).symm⟩

end Remote

/-! ## Replies -/

/-- Whether the value of a body, if there is a body, is what its bytes spell. -/
def Reply.Spelled : Reply → Prop
  | .answered _ body => ∃ bytes, body = Json.decode (.detect bytes) bytes
  | _ => True

/-- Whether a reply can be read for `n` texts; one that is no success need not be read. -/
def Reply.Legible (n : Nat) : Reply → Prop
  | .answered status body => 200 ≤ status ∧ status < 300 → ∃ v, body = .ok v ∧ Remote.Legible n v
  | _ => True

namespace Remote

variable {c : Config} {texts : List String}

theorem reported_verdict_iff {reply : Reply} (hne : texts ≠ []) (hspelled : reply.Spelled) :
    Reported (reply.verdict c texts) ↔ reply.Legible texts.length := by
  cases reply with
  | answered status body =>
    obtain ⟨bytes, rfl⟩ := hspelled
    rw [Reply.verdict, Reply.Legible]
    split
    · rename_i hstatus
      rw [(foreign_decode _ _).reported_bind_iff]
      simp only [reported_interpret_iff hne, hstatus, and_self, forall_const]
    · rename_i hstatus
      exact iff_of_true (.inr ⟨_, _, rfl⟩) fun h => absurd h hstatus
  | unreachable | timedOut => exact iff_of_true (.inr ⟨_, _, rfl⟩) trivial

theorem of_verdict {reply : Reply} {tokens : Value} {results : List Embedded} (hne : texts ≠ [])
    (h : reply.verdict c texts = .ok (results, tokens)) : results.map (·.text) = texts ∧ tokens.number?.isSome := by
  cases reply with
  | answered status body =>
    rw [Reply.verdict] at h
    split at h
    · obtain ⟨v, -, h⟩ := bind_eq_ok.1 h
      exact of_interpret hne h
    · cases h
  | unreachable | timedOut => cases h

theorem reported_add_iff {b : Batch} {r : Round} (hb : IsTotal b.tokens) (hne : r.texts ≠ [])
    (hspelled : r.reply.Spelled) :
    Reported (b.add c r) ↔ r.reply.Legible r.texts.length ∧
      ∀ results tokens, r.outcome c = .ok (results, tokens) → Addable b.tokens tokens := by
  rw [← reported_verdict_iff hne hspelled, ← Round.outcome, Batch.add]
  cases houtcome : r.outcome c with
  | error f =>
    have hfailed : Reported (.error f : Outcome Batch) ↔ Reported (.error f : Outcome (List Embedded × Value)) :=
      reported_error_iff.trans reported_error_iff.symm
    refine hfailed.trans (and_iff_left ?_).symm
    intro results tokens h
    cases h
  | ok answer =>
    obtain ⟨results, tokens⟩ := answer
    have hsum : Foreign (do pure ⟨b.results ++ results, ← addTokens b.tokens tokens⟩ : Outcome Batch) :=
      (foreign_addTokens _ _).bind fun _ => .pure _
    have hadd : (∃ b' : Batch,
      (do pure ⟨b.results ++ results, ← addTokens b.tokens tokens⟩ : Outcome Batch) = .ok b') ↔
        Addable b.tokens tokens :=
      exists_pure_ok_iff.trans (addTokens_ok_iff hb (of_verdict hne houtcome).2)
    refine (hsum.reported_iff.trans hadd).trans
      ⟨fun h => ⟨.inl ⟨_, rfl⟩, fun results' tokens' hsame => ?_⟩, fun h => ?_⟩
    · obtain ⟨-, rfl⟩ := Prod.mk.inj (Except.ok.inj hsame)
      exact h
    · exact h.2 results tokens rfl

/-- What batches that are added come to: an embedding for each of their texts, and a sum. -/
theorem of_foldlM_add : ∀ {rounds : List Round} {b b' : Batch}, (∀ r ∈ rounds, r.texts ≠ []) →
    rounds.foldlM (Batch.add c) b = .ok b' → IsTotal b.tokens →
    b'.results.map (·.text) = b.results.map (·.text) ++ (rounds.map Round.texts).flatten ∧ IsTotal b'.tokens
  | [], b, b', _, h, hb => by
    obtain rfl := pure_eq_ok.1 h
    exact ⟨(List.append_nil _).symm, hb⟩
  | r :: rounds, b, b', hne, h, _ => by
    obtain ⟨hr, hrounds⟩ := List.forall_mem_cons.1 hne
    rw [List.foldlM_cons] at h
    obtain ⟨m, hm, h⟩ := bind_eq_ok.1 h
    obtain ⟨⟨results, tokens⟩, houtcome, hm⟩ := bind_eq_ok.1 hm
    obtain ⟨sum, hsum, hm⟩ := bind_eq_ok.1 hm
    obtain rfl := pure_eq_ok.1 hm
    obtain ⟨htexts, htotal⟩ := of_foldlM_add hrounds h (isTotal_of_addTokens hsum)
    refine ⟨?_, htotal⟩
    rw [htexts, List.map_append, (of_verdict hr houtcome).1, List.map_cons, List.flatten_cons, List.append_assoc]

theorem ends_of_rounds {service : Nat → Request → Reply} {limit n : Nat} {rounds : List Round} {r : Round}
    (hrounds : Rounds c service limit n rounds) (hr : r ∈ rounds) : ∃ m, r.Ends c service limit m := by
  induction hrounds with
  | nil n => cases hr
  | cons hends _ ih =>
    rcases List.mem_cons.1 hr with rfl | hr
    · exact ⟨_, hends⟩
    · exact ih hr

/-- A run returns an embedding for each text, or fails with a failure of embedding, just if the last
reply can be read and the tokens that it tells can be added to those of the other batches. -/
theorem embedBatch_reports_iff {size limit : Nat} (hsize : asInt c.batchSize = .ok (size : Nat)) (hone : 1 ≤ size)
    (hlimit : asInt c.maxRetries = .ok (limit : Nat)) (hpos : 1 ≤ limit) (hne : texts ≠ []) {d : Dialogue}
    (hspelled : ∀ n r, (d.service n r).Spelled) :
    (∀ b, ((embedBatch c texts).on d).1 = .ok b → b.results.map (·.text) = texts) ∧
    ∃ front r b, Rounds c d.service limit d.sent.length (front ++ [r]) ∧
      (front ++ [r]).map Round.texts <+: Search.batches (size - 1) texts ∧
      ((embedBatch c texts).on d).2.events = d.events ++ (front ++ [r]).flatMap (Round.events c) ∧
      front.foldlM (Batch.add c) ⟨[], .int 0⟩ = .ok b ∧
      (Reported ((embedBatch c texts).on d).1 ↔ r.reply.Legible r.texts.length ∧
        ∀ results tokens, r.outcome c = .ok (results, tokens) → Addable b.tokens tokens) := by
  obtain ⟨piece, pieces, hpieces⟩ :=
    List.exists_cons_of_ne_nil (mt (Search.batches_eq_nil_iff (n := size - 1)).1 hne)
  obtain ⟨front, r, b, hrounds, hsent, hfront, hall, hon⟩ :=
    on_embedPieces_last hlimit hpos pieces piece ⟨[], .int 0⟩ d
  rw [← hpieces] at hsent hall hon
  rw [embedBatch_eq hsize hone, hon]
  have hfilled : ∀ s ∈ front ++ [r], s.texts ≠ [] := by
    intro s hs
    have hpos := (Search.length_of_mem_batches (hsent.subset (List.mem_map_of_mem hs))).1
    exact List.length_pos_iff.1 hpos
  have hzero : IsTotal (⟨[], .int 0⟩ : Batch).tokens := .inl ⟨0, rfl⟩
  obtain ⟨-, htotal⟩ := of_foldlM_add (fun s hs => hfilled s (List.mem_append_left _ hs)) hfront hzero
  refine ⟨fun b' hb' => ?_, front, r, b, hrounds, hsent, rfl, hfront, ?_⟩
  · obtain ⟨htexts, -⟩ := of_foldlM_add hfilled ((foldlM_add_concat hfront r).trans hb') hzero
    rw [htexts, hall (by rw [show b.add c r = .ok b' from hb']; rfl), Search.flatten_batches]
    rfl
  · have hlast : r ∈ front ++ [r] := by simp
    obtain ⟨m, hends⟩ := ends_of_rounds hrounds hlast
    exact reported_add_iff htotal (hfilled r hlast) (hends.reply_eq ▸ hspelled _ _)

def brackets : List UInt8 := [0x5b, 0x5d]

theorem decode_brackets : Json.decode (.detect brackets) brackets = .ok (.list []) := by
  have htext : (Text.Encoding.detect brackets).decode? brackets = some "[]" := by decide +kernel
  rw [Json.decode, htext]
  rfl

def bracketed : Nat → Request → Reply := fun _ _ => .answered 200 (Json.decode (.detect brackets) brackets)

theorem bracketed_eq : bracketed = fun _ _ => .answered 200 (.ok (.list [])) := by
  funext n q
  exact congrArg (Reply.answered 200) decode_brackets

theorem spelled_bracketed (n : Nat) (q : Request) : (bracketed n q).Spelled := ⟨brackets, rfl⟩

theorem embedBatch_reports_iff_of_brackets :
    (∀ n q, (bracketed n q).Spelled) ∧ ¬ Reported ((embedBatch {} ["f"]).on { service := bracketed }).1 := by
  refine ⟨spelled_bracketed, fun hreported => ?_⟩
  have hsize : asInt ({} : Config).batchSize = .ok (32 : Nat) := rfl
  have hlimit : asInt ({} : Config).maxRetries = .ok (3 : Nat) := rfl
  obtain ⟨-, front, r, b, hrounds, -, -, -, hiff⟩ := embedBatch_reports_iff hsize (by decide) hlimit (by decide)
    (List.cons_ne_nil "f" []) (d := { service := bracketed }) spelled_bracketed
  have hreply : r.reply = .answered 200 (.ok (.list [])) := by
    obtain ⟨n, hends⟩ := ends_of_rounds hrounds (List.mem_append_right front (List.mem_singleton_self r))
    rw [hends.reply_eq, bracketed_eq]
  have hlegible := (hiff.1 hreported).1
  rw [hreply] at hlegible
  obtain ⟨v, hv, hlegible⟩ := hlegible (by decide)
  obtain rfl := Except.ok.inj hv
  cases hlegible

/-- A list is no reply, and what comes of it is no failure of embedding. -/
theorem list_is_unreported : ¬ ∀ (c : Config) (size limit : Nat) (texts : List String) (d : Dialogue),
    asInt c.batchSize = .ok (size : Nat) → 1 ≤ size → asInt c.maxRetries = .ok (limit : Nat) →
    1 ≤ limit → texts ≠ [] →
    (∀ n q, (d.service n q).Spelled) → Reported ((embedBatch c texts).on d).1 := by
  intro hall
  have hpieces : Search.batches (32 - 1) ["f"] = [["f"]] := by simp [Search.batches]
  have hsize : asInt ({} : Config).batchSize = .ok (32 : Nat) := rfl
  have hfails : ((embedBatch {} ["f"]).on { service := bracketed }).1 = .error (.mishap .missingAttribute) := by
    rw [embedBatch_eq hsize (by decide), hpieces, bracketed_eq]
    rfl
  have hreported := hall {} 32 3 ["f"] { service := bracketed } hsize (by decide) rfl (by decide)
    (by decide) spelled_bracketed
  rw [hfails, reported_error_iff] at hreported
  obtain ⟨length, cause, h⟩ := hreported
  cases h

end Remote

end Embedding

end SourceAtlas
