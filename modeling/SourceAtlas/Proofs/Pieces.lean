import SourceAtlas.Search.RemoteIndex

/-!
# Pieces of lists

The batches of a list join to it in order. None is empty or too long, and all
but the last one are full.
-/

namespace SourceAtlas.Search

/-- Consecutive pieces of a list, none of them empty or longer than `size`, and all but the last one full. -/
structure Batched {α : Type} (size : Int) (xs : List α) (pieces : List (List α)) : Prop where
  whole : pieces.flatten = xs
  sized : ∀ piece ∈ pieces, 1 ≤ piece.length ∧ (piece.length : Int) ≤ size
  full : ∀ piece ∈ pieces.dropLast, (piece.length : Int) = size

variable {α : Type} {n : Nat} {xs piece : List α}

theorem flatten_batches (n : Nat) (xs : List α) : (batches n xs).flatten = xs := by
  induction xs using batches.induct n with
  | case1 => rw [batches, List.flatten_nil]
  | case2 x rest ih => rw [batches, List.flatten_cons, ih, List.cons_append, List.take_append_drop]

theorem batches_eq_nil_iff : batches n xs = [] ↔ xs = [] := by
  cases xs <;> simp [batches]

theorem length_batches (n : Nat) (xs : List α) : (batches n xs).length = (xs.length + n) / (n + 1) := by
  induction xs using batches.induct n with
  | case1 => rw [batches, List.length_nil, List.length_nil, Nat.zero_add, Nat.div_eq_of_lt (Nat.lt_succ_self n)]
  | case2 x rest ih =>
    have hfirst : (rest.length + 1 + n) / (n + 1) = rest.length / (n + 1) + 1 := by
      rw [Nat.add_assoc, Nat.add_comm 1, Nat.add_div_right _ (Nat.succ_pos n)]
    rw [batches, List.length_cons, ih, List.length_drop, List.length_cons, hfirst]
    rcases Nat.le_total n rest.length with hfull | hshort
    · rw [Nat.sub_add_cancel hfull]
    · -- the first batch takes all that there is
      rw [Nat.sub_eq_zero_of_le hshort, Nat.zero_add, Nat.div_eq_of_lt (Nat.lt_succ_self n),
        Nat.div_eq_of_lt (Nat.lt_succ_of_le hshort)]

theorem length_of_mem_batches (h : piece ∈ batches n xs) : 1 ≤ piece.length ∧ piece.length ≤ n + 1 := by
  induction xs using batches.induct n with
  | case1 =>
    rw [batches] at h
    cases h
  | case2 x rest ih =>
    rw [batches] at h
    rcases List.mem_cons.1 h with rfl | h
    · rw [List.length_cons, List.length_take]
      omega
    · exact ih h

theorem length_of_mem_dropLast_batches (h : piece ∈ (batches n xs).dropLast) : piece.length = n + 1 := by
  induction xs using batches.induct n with
  | case1 =>
    rw [batches] at h
    cases h
  | case2 x rest ih =>
    rw [batches] at h
    by_cases hrest : batches n (rest.drop n) = []
    · rw [hrest] at h
      cases h
    · rw [List.dropLast_cons_of_ne_nil hrest] at h
      rcases List.mem_cons.1 h with rfl | h
      · -- something is left, so that this batch took all that it can
        have hlong : n < rest.length := by
          rw [batches_eq_nil_iff, List.drop_eq_nil_iff] at hrest
          exact Nat.lt_of_not_le hrest
        rw [List.length_cons, List.length_take, Nat.min_eq_left (Nat.le_of_lt hlong)]
      · exact ih h

theorem batched_batches (n : Nat) (xs : List α) : Batched (n + 1) xs (batches n xs) where
  whole := flatten_batches n xs
  sized piece h := by
    have hlength := length_of_mem_batches h
    omega
  full piece h := by
    have hlength := length_of_mem_dropLast_batches h
    omega

theorem batchesOf_ok {size : Int} (h : 1 ≤ size) (xs : List α) :
    ∃ pieces, batchesOf size xs = .ok pieces ∧ Batched size xs pieces := by
  obtain ⟨n, rfl⟩ : ∃ n : Nat, size = n + 1 := ⟨size.toNat - 1, by omega⟩
  refine ⟨batches n xs, ?_, batched_batches n xs⟩
  rw [batchesOf, if_neg (by omega), if_neg (by omega)]
  congr

end SourceAtlas.Search
