import SourceAtlas.Graph.Breadth
import SourceAtlas.Proofs.Acts
import SourceAtlas.Proofs.Maps

/-!
# What a search finds

A search of depth `d` lists the nodes that are at most `d` steps from its
start, each once and the nearer ones first, and takes every step out of those
that are fewer away.
-/

namespace SourceAtlas.Graph

section
variable {ν : Type} {steps : ν → Outcome (List (Step ν))} {out : ν → List (Step ν)}

variable [BEq ν]

/-! ## The lists of a search -/

def spread (out : ν → List (Step ν)) : (depth : Nat) → (seen frontier : List ν) → List ν
  | 0, _, _ => []
  | depth + 1, seen, frontier =>
    let new := fresh seen ((frontier.flatMap out).map Step.next)
    new ++ spread out depth (seen ++ new) new

def reached (out : ν → List (Step ν)) (depth : Nat) (start : ν) : List ν :=
  start :: spread out depth [start] [start]

def expanded (out : ν → List (Step ν)) : (depth : Nat) → (start : ν) → List ν
  | 0, _ => []
  | depth + 1, start => reached out depth start

theorem spread_nil (out : ν → List (Step ν)) (depth : Nat) (seen : List ν) : spread out depth seen [] = [] := by
  induction depth generalizing seen with
  | zero => rfl
  | succ depth ih => simp [spread, fresh, ih]

theorem expand_eq (h : ∀ x, steps x = .ok (out x)) (depth : Nat) (seen frontier : List ν) :
    expand steps (depth + 1) seen frontier =
      .ok ⟨spread out (depth + 1) seen frontier, (frontier ++ spread out depth seen frontier).flatMap out⟩ := by
  induction depth generalizing seen frontier with
  | zero =>
    cases frontier with
    | nil => simp [expand, spread, fresh, pure, Except.pure]
    | cons x xs =>
      rw [expand, mapM_ok_map fun y _ => h y]
      · simp [expand, spread, bind, pure, Except.bind, Except.pure, ← List.flatMap_def]
      · simp
  | succ depth ih =>
    cases frontier with
    | nil => simp [expand, spread_nil, pure, Except.pure]
    | cons x xs =>
      rw [expand, mapM_ok_map fun y _ => h y]
      · simp only [bind, pure, Except.bind, Except.pure, ih, ← List.flatMap_def]
        simp [spread, List.flatMap_append]
      · simp

theorem search_eq (h : ∀ x, steps x = .ok (out x)) (depth : Nat) (start : ν) :
    search steps depth start = .ok ⟨reached out depth start, (expanded out depth start).flatMap out⟩ := by
  cases depth with
  | zero => rfl
  | succ depth =>
    rw [search, expand_eq h]
    rfl

/-! ## Fresh nodes -/

theorem mem_of_mem_fresh {y : ν} : ∀ {seen xs : List ν}, y ∈ fresh seen xs → y ∈ xs
  | _, x :: xs, h => by
    rw [fresh] at h
    split at h
    · exact List.mem_cons_of_mem _ (mem_of_mem_fresh h)
    · rcases List.mem_cons.1 h with rfl | h
      · exact List.mem_cons_self
      · exact List.mem_cons_of_mem _ (mem_of_mem_fresh h)

theorem mem_spread {y : ν} {depth : Nat} {seen frontier : List ν} (h : y ∈ spread out depth seen frontier) :
    ∃ x, ∃ s ∈ out x, s.next = y := by
  induction depth generalizing seen frontier with
  | zero => cases h
  | succ depth ih =>
    rcases List.mem_append.1 h with h | h
    · obtain ⟨s, hs, hy⟩ := List.mem_map.1 (mem_of_mem_fresh h)
      obtain ⟨x, -, hx⟩ := List.mem_flatMap.1 hs
      exact ⟨x, s, hx, hy⟩
    · exact ih h

/-! ## Reachability -/

inductive Reaches (out : ν → List (Step ν)) (start : ν) : (n : Nat) → ν → Prop
  | here {n : Nat} {y : ν} (h : (start == y) = true) : Reaches out start n y
  | step {n : Nat} {x y : ν} {s : Step ν} (h : Reaches out start n x) (hs : s ∈ out x) (hy : (s.next == y) = true) :
      Reaches out start (n + 1) y

def Uniform (out : ν → List (Step ν)) : Prop :=
  ∀ x y, (x == y) = true → ∀ s ∈ out x, ∃ t ∈ out y, (t.next == s.next) = true

variable {start : ν} {n : Nat} {x y : ν}

theorem Reaches.later (h : Reaches out start n x) : Reaches out start (n + 1) x := by
  induction h with
  | here h => exact .here h
  | step _ hs hy ih => exact .step ih hs hy

theorem Reaches.mono {m : Nat} (h : Reaches out start m x) (hmn : m ≤ n) : Reaches out start n x := by
  induction hmn with
  | refl => exact h
  | step _ ih => exact ih.later

variable [EquivBEq ν]

theorem contains_fresh (seen xs : List ν) (y : ν) :
    (seen ++ fresh seen xs).contains y = (seen.contains y || xs.contains y) := by
  induction xs generalizing seen with
  | nil => simp [fresh]
  | cons x xs ih =>
    rw [fresh]
    by_cases hx : seen.contains x = true
    · rw [if_pos hx, ih, List.contains_cons]
      by_cases hyx : (y == x) = true
      · rw [contains_congr seen hyx, hx, Bool.true_or, Bool.true_or]
      · simp [hyx]
    · have hrest := ih (x :: seen)
      simp only [List.cons_append, List.contains_cons, List.contains_append] at hrest
      rw [if_neg hx]
      simp only [List.contains_append, List.contains_cons, Bool.or_left_comm (seen.contains y), hrest]
      rw [Bool.or_assoc, Bool.or_left_comm]

theorem distinct_fresh {seen : List ν} (h : Distinct seen) (xs : List ν) : Distinct (seen ++ fresh seen xs) := by
  induction xs generalizing seen with
  | nil => simpa [fresh] using h
  | cons x xs ih =>
    rw [fresh]
    by_cases hx : seen.contains x = true
    · rw [if_pos hx]
      exact ih h
    · rw [if_neg hx]
      have hrest : Distinct (x :: seen ++ fresh (x :: seen) xs) :=
        ih (List.pairwise_cons.2 ⟨fun y hy => by
          rw [List.contains_iff_exists_mem_beq] at hx
          exact Bool.eq_false_iff.2 fun hxy => hx ⟨y, hy, hxy⟩, h⟩)
      exact (List.perm_middle.symm.pairwise hrest fun hab => by rwa [BEq.comm])

theorem distinct_spread {seen : List ν} (h : Distinct seen) (depth : Nat) (frontier : List ν) :
    Distinct (seen ++ spread out depth seen frontier) := by
  induction depth generalizing seen frontier with
  | zero => simpa [spread] using h
  | succ depth ih =>
    rw [spread, ← List.append_assoc]
    exact ih (distinct_fresh h _) _

theorem distinct_reached (out : ν → List (Step ν)) (depth : Nat) (start : ν) : Distinct (reached out depth start) :=
  distinct_spread (List.pairwise_singleton _ _) depth [start]

theorem distinct_expanded (out : ν → List (Step ν)) (depth : Nat) (start : ν) :
    Distinct (expanded out depth start) := by
  cases depth with
  | zero => exact .nil
  | succ depth => exact distinct_reached out depth start

/-! ## Level by level -/

theorem Reaches.congr (h : Reaches out start n x) (hxy : (x == y) = true) : Reaches out start n y := by
  cases h with
  | here h => exact .here (BEq.trans h hxy)
  | step h hs hx => exact .step h hs (BEq.trans hx hxy)

/-- Between two levels: all nodes so near are seen, and those that are not on the frontier lead
nowhere new. -/
structure Level (out : ν → List (Step ν)) (start : ν) (n : Nat) (seen frontier : List ν) : Prop where
  seen_iff : ∀ y, seen.contains y = true ↔ Reaches out start n y
  frontier_seen : ∀ y ∈ frontier, seen.contains y = true
  closed : ∀ x, seen.contains x = true → frontier.contains x = false → ∀ s ∈ out x, seen.contains s.next = true

theorem Level.first (out : ν → List (Step ν)) (start : ν) : Level out start 0 [start] [start] where
  seen_iff y := by
    rw [List.contains_cons, List.contains_nil, Bool.or_false, BEq.comm]
    refine ⟨.here, fun h => ?_⟩
    cases h with
    | here h => exact h
  frontier_seen _ hy := contains_of_mem hy
  closed x hx hx' := by rw [hx] at hx'; cases hx'

theorem Level.next {seen frontier : List ν} (h : Level out start n seen frontier) (hout : Uniform out) :
    Level out start (n + 1) (seen ++ fresh seen ((frontier.flatMap out).map Step.next))
      (fresh seen ((frontier.flatMap out).map Step.next)) := by
  have hnext : ∀ y, ((frontier.flatMap out).map Step.next).contains y = true ↔
      ∃ x ∈ frontier, ∃ s ∈ out x, (s.next == y) = true := fun y => by
    simp only [List.contains_iff_exists_mem_beq, List.mem_map, List.mem_flatMap]
    constructor
    · rintro ⟨-, ⟨s, ⟨x, hx, hs⟩, rfl⟩, hy⟩
      exact ⟨x, hx, s, hs, BEq.symm hy⟩
    · rintro ⟨x, hx, s, hs, hy⟩
      exact ⟨s.next, ⟨s, ⟨x, hx, hs⟩, rfl⟩, BEq.symm hy⟩
  -- whatever a seen node leads to is seen now
  have hstep : ∀ x, seen.contains x = true → ∀ s ∈ out x,
      (seen ++ fresh seen ((frontier.flatMap out).map Step.next)).contains s.next = true := fun x hx s hs => by
    rw [contains_fresh, Bool.or_eq_true, hnext]
    by_cases hf : frontier.contains x = true
    · obtain ⟨x', hx', hxx'⟩ := List.contains_iff_exists_mem_beq.1 hf
      obtain ⟨t, ht, hts⟩ := hout x x' hxx' s hs
      exact .inr ⟨x', hx', t, ht, hts⟩
    · exact .inl (h.closed x hx (Bool.eq_false_iff.2 hf) s hs)
  refine ⟨fun y => ⟨fun hy => ?_, fun hy => ?_⟩, fun y hy => contains_of_mem (List.mem_append_right _ hy),
    fun x hx hnew => ?_⟩
  · rw [contains_fresh, Bool.or_eq_true, hnext] at hy
    rcases hy with hy | ⟨x, hx, s, hs, hy⟩
    · exact ((h.seen_iff y).1 hy).later
    · exact .step ((h.seen_iff x).1 (h.frontier_seen x hx)) hs hy
  · cases hy with
    | here hy =>
      rw [contains_fresh, Bool.or_eq_true]
      exact .inl ((h.seen_iff y).2 (.here hy))
    | step hx hs hy =>
      rw [← contains_congr _ hy]
      exact hstep _ ((h.seen_iff _).2 hx) _ hs
  · refine hstep x ?_
    rwa [List.contains_append, hnew, Bool.or_false] at hx

theorem Level.contains_spread {seen frontier : List ν} (h : Level out start n seen frontier) (hout : Uniform out)
    (depth : Nat) (y : ν) :
    (seen ++ spread out depth seen frontier).contains y = true ↔ Reaches out start (n + depth) y := by
  induction depth generalizing n seen frontier with
  | zero => simpa [spread] using h.seen_iff y
  | succ depth ih =>
    rw [spread, ← List.append_assoc, ih (h.next hout), Nat.add_right_comm, Nat.add_assoc]

/-- A search lists the nodes that its depth reaches. -/
theorem contains_reached (hout : Uniform out) (depth : Nat) (start y : ν) :
    (reached out depth start).contains y = true ↔ Reaches out start depth y := by
  have h := (Level.first out start).contains_spread hout depth y
  rwa [Nat.zero_add] at h

/-! ## The order of a search -/

/-- What is still to come is farther than the level. -/
theorem Level.lt_of_mem_spread {seen frontier : List ν} (h : Level out start n seen frontier)
    (hseen : Distinct seen)
    {depth m : Nat} (hy : y ∈ spread out depth seen frontier) (hreach : Reaches out start m y) : n < m := by
  have hall : Distinct (seen ++ spread out depth seen frontier) := distinct_spread hseen depth frontier
  by_contra hmn
  have hcontains := (h.seen_iff y).2 (hreach.mono (Nat.le_of_not_lt hmn))
  obtain ⟨x, hx, hyx⟩ := List.contains_iff_exists_mem_beq.1 hcontains
  exact Bool.false_ne_true (((List.pairwise_append.1 hall).2.2 x hx y hy).symm.trans (BEq.symm hyx))

theorem Level.pairwise_spread {seen frontier : List ν} (h : Level out start n seen frontier) (hseen : Distinct seen)
    (hout : Uniform out) (depth : Nat) :
    (spread out depth seen frontier).Pairwise fun x y => ∀ m, Reaches out start m y → Reaches out start m x := by
  induction depth generalizing n seen frontier with
  | zero => exact .nil
  | succ depth ih =>
    have hnext := h.next hout
    have hnew : ∀ x ∈ fresh seen ((frontier.flatMap out).map Step.next), ∀ y ∈ spread out (depth + 1) seen frontier,
        ∀ m, Reaches out start m y → Reaches out start m x := fun x hx y hy m hm =>
      ((hnext.seen_iff x).1 (hnext.frontier_seen x hx)).mono (h.lt_of_mem_spread hseen hy hm)
    exact List.pairwise_append.2
      ⟨List.pairwise_of_forall_mem_list fun x hx y hy => hnew x hx y (List.mem_append_left _ hy),
        ih hnext (distinct_fresh hseen _), fun x hx y hy => hnew x hx y (List.mem_append_right _ hy)⟩

/-- A search lists nearer nodes before those that are farther. -/
theorem pairwise_reached (hout : Uniform out) (depth : Nat) (start : ν) :
    (reached out depth start).Pairwise fun x y => ∀ m, Reaches out start m y → Reaches out start m x :=
  List.pairwise_cons.2 ⟨fun _ _ _ _ => .here BEq.rfl,
    (Level.first out start).pairwise_spread (List.pairwise_singleton _ _) hout depth⟩

end

end SourceAtlas.Graph
