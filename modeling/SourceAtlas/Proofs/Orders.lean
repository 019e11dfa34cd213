import Mathlib.Data.List.Sort
import SourceAtlas.Graph.Edges
import SourceAtlas.Proofs.Maps
import SourceAtlas.Proofs.Acts
import SourceAtlas.Search.Ranking

/-!
# Orders that hold for some members

Numbers that are undefined have no place in any order, so keys, edges and
scores are in order only where they have none. Sorting what is in order gives
one list, whatever it was sorted from.
-/

namespace SourceAtlas

open Json (Key Value)
open Decimal (Extended)

/-- `le` puts everything that satisfies `P` in order, up to what is the same. -/
structure OrdersOn {α : Type} (P : α → Prop) (same le : α → α → Bool) : Prop where
  total : ∀ a b, P a → P b → le a b = true ∨ le b a = true
  trans : ∀ a b c, P a → P b → P c → le a b = true → le b c = true → le a c = true
  same_iff : ∀ a b, P a → P b → (same a b = true ↔ le a b = true ∧ le b a = true)

namespace OrdersOn

section

variable {α β γ : Type} {P : α → Prop} {same le : α → α → Bool} {Q : β → Prop} {same' le' : β → β → Bool}

/-- The order of pairs by their first difference. -/
theorem lex (h : OrdersOn P same le) (h' : OrdersOn Q same' le') (f : γ → α) (g : γ → β) :
    OrdersOn (fun c => P (f c) ∧ Q (g c)) (fun a b => same (f a) (f b) && same' (g a) (g b))
      (fun a b => if same (f a) (f b) then le' (g a) (g b) else le (f a) (f b)) where
  total a b ha hb := by
    have hsame : same (f a) (f b) = same (f b) (f a) := by
      rw [Bool.eq_iff_iff, h.same_iff _ _ ha.1 hb.1, h.same_iff _ _ hb.1 ha.1, And.comm]
    rw [← hsame]
    by_cases hab : same (f a) (f b) = true
    · simpa [hab] using h'.total _ _ ha.2 hb.2
    · simpa [hab] using h.total _ _ ha.1 hb.1
  trans a b c ha hb hc hab hbc := by
    have hsab := h.same_iff _ _ ha.1 hb.1
    have hsbc := h.same_iff _ _ hb.1 hc.1
    have hsac := h.same_iff _ _ ha.1 hc.1
    have hle : le (f a) (f b) = true ∧ le (f b) (f c) = true := by
      constructor
      · by_cases hs : same (f a) (f b) = true
        · exact (hsab.1 hs).1
        · simpa [hs] using hab
      · by_cases hs : same (f b) (f c) = true
        · exact (hsbc.1 hs).1
        · simpa [hs] using hbc
    have hac := h.trans _ _ _ ha.1 hb.1 hc.1 hle.1 hle.2
    by_cases hs : same (f a) (f c) = true
    · -- the ends are the same, and so is what lies between
      have hca := (hsac.1 hs).2
      have hba := h.trans _ _ _ hb.1 hc.1 ha.1 hle.2 hca
      have hcb := h.trans _ _ _ hc.1 ha.1 hb.1 hca hle.1
      rw [if_pos (hsab.2 ⟨hle.1, hba⟩)] at hab
      rw [if_pos (hsbc.2 ⟨hle.2, hcb⟩)] at hbc
      rw [if_pos hs]
      exact h'.trans _ _ _ ha.2 hb.2 hc.2 hab hbc
    · rwa [if_neg hs]
  same_iff a b ha hb := by
    have hs := h.same_iff _ _ ha.1 hb.1
    have hs' := h.same_iff _ _ hb.1 ha.1
    have ht := h'.same_iff _ _ ha.2 hb.2
    rw [Bool.and_eq_true]
    by_cases hab : same (f a) (f b) = true
    · have hba := hs'.2 (hs.1 hab).symm
      simp [hab, hba, ht]
    · have hba : ¬ same (f b) (f a) = true := fun hba => hab (hs.2 (hs'.1 hba).symm)
      rw [if_neg hab, if_neg hba]
      exact ⟨fun h => absurd h.1 hab, fun h => absurd (hs.2 h) hab⟩

variable (h : OrdersOn P same le) {xs ys : List α}

include h

theorem comap (f : γ → α) :
    OrdersOn (fun c => P (f c)) (fun a b => same (f a) (f b)) fun a b => le (f a) (f b) where
  total a b := h.total (f a) (f b)
  trans a b c := h.trans (f a) (f b) (f c)
  same_iff a b := h.same_iff (f a) (f b)

theorem congr {P' : α → Prop} {same' le' : α → α → Bool} (hP : ∀ a, P' a → P a)
    (hsame : ∀ a b, same' a b = same a b)
    (hle : ∀ a b, le' a b = le a b) : OrdersOn P' same' le' := by
  obtain rfl : same' = same := funext fun a => funext (hsame a)
  obtain rfl : le' = le := funext fun a => funext (hle a)
  exact ⟨fun a b ha hb => h.total a b (hP a ha) (hP b hb),
    fun a b c ha hb hc => h.trans a b c (hP a ha) (hP b hb) (hP c hc),
    fun a b ha hb => h.same_iff a b (hP a ha) (hP b hb)⟩

theorem pairwise_mergeSort (hxs : ∀ a ∈ xs, P a) : (xs.mergeSort le).Pairwise fun a b => le a b = true := by
  -- among the members alone the order has no exception
  let among (a b : { a // a ∈ xs }) : Bool := le a.1 b.1
  have hsorted : (xs.attach.mergeSort among).Pairwise fun a b => among a b = true := by
    apply List.pairwise_mergeSort
    · intro a b c
      exact h.trans _ _ _ (hxs _ a.2) (hxs _ b.2) (hxs _ c.2)
    · intro a b
      rw [Bool.or_eq_true]
      exact h.total _ _ (hxs _ a.2) (hxs _ b.2)
  have hmap : (xs.attach.mergeSort among).map Subtype.val = xs.mergeSort le := by
    rw [List.map_mergeSort (s := le) fun a _ b _ => rfl, List.attach_map_subtype_val]
  rw [← hmap]
  exact List.pairwise_map.2 hsorted

/-- Members that are apart have one order only. -/
theorem mergeSort_eq_of_perm (hxs : ∀ a ∈ xs, P a) (hapart : ∀ a ∈ xs, ∀ b ∈ xs, same a b = true → a = b)
    (hperm : xs.Perm ys) : xs.mergeSort le = ys.mergeSort le := by
  have hys : ∀ a ∈ ys, P a := fun a ha => hxs a (hperm.mem_iff.2 ha)
  refine List.Perm.eq_of_pairwise (fun a b ha hb hab hba => ?_) (h.pairwise_mergeSort hxs)
    (h.pairwise_mergeSort hys)
    ((List.mergeSort_perm xs _).trans (hperm.trans (List.mergeSort_perm ys _).symm))
  have ha := List.mem_mergeSort.1 ha
  have hb := hperm.mem_iff.2 (List.mem_mergeSort.1 hb)
  exact hapart a ha b hb ((h.same_iff a b (hxs a ha) (hxs b hb)).2 ⟨hab, hba⟩)

theorem sortChecked_eq_of_perm (hxs : ∀ a ∈ xs, P a) (hapart : ∀ a ∈ xs, ∀ b ∈ xs, same a b = true → a = b)
    (hperm : xs.Perm ys) (comparable : α → α → Bool) :
    sortChecked le comparable xs = sortChecked le comparable ys := by
  unfold sortChecked
  rw [h.mergeSort_eq_of_perm hxs hapart hperm]

theorem sortChecked_sorted (hxs : ∀ a ∈ xs, P a) {comparable : α → α → Bool}
    (hys : sortChecked le comparable xs = .ok ys) : sortChecked le comparable ys = .ok ys := by
  have hsorted := h.pairwise_mergeSort hxs
  unfold sortChecked at hys
  dsimp only at hys
  split at hys
  · obtain rfl := pure_eq_ok.1 hys
    unfold sortChecked
    rw [List.mergeSort_of_pairwise hsorted]
    rwa [if_pos ‹_›]
  · cases hys

end

end OrdersOn

theorem sortChecked_perm {α : Type} {le comparable : α → α → Bool} {xs ys : List α}
    (h : sortChecked le comparable xs = .ok ys) : ys.Perm xs := by
  unfold sortChecked at h
  dsimp only at h
  split at h
  · rw [← pure_eq_ok.1 h]
    exact List.mergeSort_perm _ _
  · cases h

theorem sortChecked_ok {α : Type} {le comparable : α → α → Bool} {xs : List α}
    (h : ∀ a ∈ xs, ∀ b ∈ xs, comparable a b = true) : sortChecked le comparable xs = .ok (xs.mergeSort le) := by
  have hperm := List.mergeSort_perm xs le
  refine if_pos (List.all_eq_true.2 ?_)
  rintro ⟨a, b⟩ hab
  obtain ⟨ha, hb⟩ := List.of_mem_zip hab
  exact h a (hperm.mem_iff.1 ha) b (hperm.mem_iff.1 (List.mem_of_mem_tail hb))

/-! ## Numbers and keys -/

theorem text_antisymm_iff {s t : String} : s = t ↔ s ≤ t ∧ t ≤ s :=
  ⟨fun h => h ▸ ⟨String.le_refl s, String.le_refl s⟩, fun h => String.le_antisymm h.1 h.2⟩

theorem Decimal.Extended.orders : OrdersOn (· ≠ .undefined) (fun x y : Extended => x == y) fun x y => !y.lt x where
  total x y hx hy := by
    cases x <;> cases y <;> simp_all [Extended.lt] <;> grind
  trans x y z hx hy hz hxy hyz := by
    cases x <;> cases y <;> cases z <;> simp_all [Extended.lt] <;> grind
  same_iff x y hx hy := by
    cases x <;> cases y <;> simp_all [Extended.lt] <;> grind

theorem isAbove_int (m n : Int) : isAbove (.int n) m = .ok (decide (m < n)) := by
  have hlt : Extended.lt (.ofInt m) (.ofInt n) = decide (m < n) := decide_eq_decide.2 Rat.intCast_lt_intCast
  exact congrArg Except.ok hlt

theorem isAbove_of_asInt {v : Value} {n : Int} (h : asInt v = .ok n) (m : Int) :
    isAbove v m = .ok (decide (m < n)) := by
  cases v with
  | int k =>
    obtain rfl := pure_eq_ok.1 h
    exact isAbove_int m k
  | bool b =>
    obtain rfl := pure_eq_ok.1 h
    rw [← isAbove_int]
    cases b <;> rfl
  | _ => cases h

theorem asCount_int (bound : Nat) (n : Int) : asCount bound (.int n) = .ok n.toNat := by
  simp [asCount, Value.number?, Extended.ofInt, pure, Except.pure]

namespace Json.Key

def Defined (k : Key) : Prop := k.rank ≠ .number .undefined

instance (k : Key) : Decidable k.Defined := inferInstanceAs (Decidable (_ ≠ _))

theorem orders : OrdersOn Defined (fun j k : Key => j == k) le where
  total j k hj hk := by
    have htotal := Extended.orders.total
    unfold le Defined at *
    cases hr : j.rank <;> cases hs : k.rank <;> simp_all
    exact String.le_total ..
  trans j k l hj hk hl hjk hkl := by
    have htrans := Extended.orders.trans
    unfold le Defined at *
    cases hr : j.rank <;> cases hs : k.rank <;> cases ht : l.rank <;> simp_all
    · exact htrans _ _ _ hj hk hl hjk hkl
    · exact String.le_trans hjk hkl
  same_iff j k hj hk := by
    have hsame := Extended.orders.same_iff
    rw [beq_iff]
    unfold le Defined at *
    cases hr : j.rank <;> cases hs : k.rank <;> simp_all
    exact text_antisymm_iff

end Json.Key

/-! ## Scores -/

namespace Search

open Float.Model (UnpackedFloat)

section
variable {u v : UnpackedFloat}

/-- The place of a number among all: its kind, from minus infinity up, then its exponent and its mantissa. -/
def orderKey : UnpackedFloat → Int × Int × Int
  | .infinity .negative => (-2, 0, 0)
  | .finite .negative m e _ => (-1, -e, -m)
  | .zero _ | .notANumber => (0, 0, 0)
  | .finite .positive m e _ => (1, e, m)
  | .infinity .positive => (2, 0, 0)

theorem compare_sign (s t : UnpackedFloat.Sign) : compare s t = match s, t with
    | .negative, .positive => .lt
    | .positive, .negative => .gt
    | _, _ => .eq := by
  cases s <;> cases t <;> rfl

theorem lt_iff_orderKey (hu : u ≠ .notANumber) (hv : v ≠ .notANumber) : u.lt v = true ↔
    (orderKey u).1 < (orderKey v).1 ∨ (orderKey u).1 = (orderKey v).1 ∧ ((orderKey u).2.1 < (orderKey v).2.1 ∨
      (orderKey u).2.1 = (orderKey v).2.1 ∧ (orderKey u).2.2 < (orderKey v).2.2) := by
  rcases u with ⟨_ | _⟩ | _ | ⟨_ | _⟩ | ⟨_ | _, m, e, hm⟩ <;>
    rcases v with ⟨_ | _⟩ | _ | ⟨_ | _⟩ | ⟨_ | _, n, d, hn⟩ <;>
    first
      | exact absurd rfl hu
      | exact absurd rfl hv
      | dsimp only [UnpackedFloat.lt, UnpackedFloat.compare, orderKey]
        simp [Ordering.then_eq_lt, Ordering.then_eq_gt, compare_sign, Int.compare_eq_lt, Nat.compare_eq_lt,
          Int.compare_eq_gt, Nat.compare_eq_gt]

theorem compare_swap (u v : UnpackedFloat) : v.compare u = (u.compare v).map Ordering.swap := by
  rcases u with ⟨_ | _⟩ | _ | ⟨_ | _⟩ | ⟨_ | _, m, e, hm⟩ <;>
    rcases v with ⟨_ | _⟩ | _ | ⟨_ | _⟩ | ⟨_ | _, n, d, hn⟩ <;>
    dsimp only [UnpackedFloat.compare] <;>
      simp [compare_sign, Ordering.swap_then, Int.compare_swap, Nat.compare_swap]

theorem compare_isSome (hu : u ≠ .notANumber) (hv : v ≠ .notANumber) : ∃ o, u.compare v = some o := by
  rcases u with ⟨_ | _⟩ | _ | ⟨_ | _⟩ | ⟨_ | _, m, e, hm⟩ <;>
    rcases v with ⟨_ | _⟩ | _ | ⟨_ | _⟩ | ⟨_ | _, n, d, hn⟩ <;>
    first
      | exact absurd rfl hu
      | exact absurd rfl hv
      | exact ⟨_, rfl⟩

theorem le_eq_not_lt (hu : u ≠ .notANumber) (hv : v ≠ .notANumber) : u.le v = !v.lt u := by
  obtain ⟨o, ho⟩ := compare_isSome hu hv
  show (u.compare v).any (·.isLE) = !(v.compare u == some .lt)
  rw [compare_swap u v, ho]
  cases o <;> rfl

theorem beq_eq_not_lt (hu : u ≠ .notANumber) (hv : v ≠ .notANumber) : u.beq v = (!u.lt v && !v.lt u) := by
  obtain ⟨o, ho⟩ := compare_isSome hu hv
  show (u.compare v == some .eq) = (!(u.compare v == some .lt) && !(v.compare u == some .lt))
  rw [compare_swap u v, ho]
  cases o <;> rfl

theorem number_orders : OrdersOn (· ≠ .notANumber) UnpackedFloat.beq fun u v => !u.lt v where
  total u v hu hv := by
    simp only [Bool.not_eq_true', ← Bool.not_eq_true, lt_iff_orderKey hu hv, lt_iff_orderKey hv hu]
    omega
  trans u v w hu hv hw huv hvw := by
    simp only [Bool.not_eq_true', ← Bool.not_eq_true, lt_iff_orderKey hu hv, lt_iff_orderKey hv hw,
      lt_iff_orderKey hu hw] at *
    omega
  same_iff u v hu hv := by
    rw [beq_eq_not_lt hu hv, Bool.and_eq_true]

end

inductive Above : UnpackedFloat → Prop where
  | infinity : Above (.infinity .positive)
  | finite (m : Nat) (e : Int) (hm : 0 < m) : Above (.finite .positive m e hm)

theorem above_of_lt {s : UnpackedFloat.Sign} {u : UnpackedFloat} (h : (UnpackedFloat.zero s).lt u = true) :
    Above u := by
  cases u with
  | notANumber => cases h
  | zero t => cases h
  | infinity t =>
    cases t with
    | positive => exact .infinity
    | negative => cases h
  | finite t m e hm =>
    cases t with
    | positive => exact .finite m e hm
    | negative => cases h

theorem Above.isNumber {u : UnpackedFloat} (h : Above u) : u ≠ .notANumber := by
  rintro rfl
  cases h

theorem lt_eq (x y : Float) : Scalar.lt x y = x.toModel.unpack.lt y.toModel.unpack := by
  show decide (decide (x.toModel.unpack.lt y.toModel.unpack = true) = true) = _
  simp

/-- Scores that are numbers are in order, the highest first. -/
theorem float_orders :
    OrdersOn (fun x : Float => x.toModel.unpack ≠ .notANumber) (· == ·) fun x y => !Scalar.lt x y :=
  (number_orders.comap fun x : Float => x.toModel.unpack).congr (fun _ hx => hx) (fun _ _ => rfl) fun x y => by
    rw [lt_eq]

/-- Scores and ids that are in order are so together. -/
theorem orders_ranksBefore {α : Type} [Scalar α] {P : α → Prop}
    (h : OrdersOn P (· == ·) fun x y => !Scalar.lt x y) :
    OrdersOn (fun a : α × Key => P a.1 ∧ a.2.Defined) (fun a b => a.1 == b.1 && a.2 == b.2) ranksBefore :=
  (h.lex Key.orders Prod.fst Prod.snd).congr (fun _ ha => ha) (fun _ _ => rfl) fun _ _ => rfl

theorem above_or_before {α : Type} [Scalar α] {P : α → Prop}
    (h : OrdersOn P (· == ·) fun x y => !Scalar.lt x y) {x y : α}
    {j k : Key} (hx : P x) (hy : P y) (hxy : ranksBefore (x, j) (y, k) = true) :
    Scalar.lt y x = true ∨ (x == y) = true ∧ j.le k = true := by
  unfold ranksBefore at hxy
  by_cases hsame : (x == y) = true
  · simp [hsame] at hxy
    exact .inr ⟨hsame, hxy⟩
  · simp [hsame] at hxy
    have hiff := h.same_iff x y hx hy
    simp [hsame, hxy] at hiff
    exact .inl hiff

theorem ranksBefore_orders : OrdersOn (fun a : Float × Key => isPositive a.1 = true ∧ a.2.Defined)
    (fun a b => a.1 == b.1 && a.2 == b.2) ranksBefore := by
  have hpositive : ∀ x : Float, isPositive x = true → x.toModel.unpack ≠ .notANumber := by
    intro x hx
    rw [isPositive, lt_eq] at hx
    exact (above_of_lt hx).isNumber
  exact orders_ranksBefore (float_orders.congr hpositive (fun _ _ => rfl) fun _ _ => rfl)

end Search

/-! ## Edges -/

namespace Graph

theorem EdgeType.orders :
    OrdersOn (fun _ => True) (fun s t : EdgeType => s == t) fun s t => decide (s.name ≤ t.name) where
  total s t _ _ := by
    simpa using String.le_total s.name t.name
  trans s t u _ _ _ hst htu := by
    rw [decide_eq_true_eq] at *
    exact String.le_trans hst htu
  same_iff s t _ _ := by
    rw [beq_iff_eq, decide_eq_true_eq, decide_eq_true_eq, ← text_antisymm_iff]
    cases s <;> cases t <;> simp [EdgeType.name]

def Placed (k : EdgeKey) : Prop := k.1.Defined ∧ k.2.1.Defined

instance (k : EdgeKey) : Decidable (Placed k) := inferInstanceAs (Decidable (_ ∧ _))

theorem keyLe_eq (j k : EdgeKey) : keyLe j k =
    if j.1 == k.1 then (if j.2.1 == k.2.1 then decide (j.2.2.name ≤ k.2.2.name) else j.2.1.le k.2.1)
    else j.1.le k.1 := by
  unfold keyLe pairLe
  by_cases h : (j.1 == k.1) = true <;> by_cases h' : (j.2.1 == k.2.1) = true <;> simp [h, h']

theorem keyLe_orders : OrdersOn Placed (fun j k : EdgeKey => j == k) keyLe := by
  have houter := Key.orders.lex (Key.orders.lex EdgeType.orders Prod.fst Prod.snd)
    (@Prod.fst Key (Key × EdgeType)) Prod.snd
  refine houter.congr (fun k hk => ⟨hk.1, hk.2, trivial⟩) (fun j k => rfl) fun j k => ?_
  rw [keyLe_eq]

end Graph

end SourceAtlas
