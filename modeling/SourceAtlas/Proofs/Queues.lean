import Mathlib.Logic.Function.Iterate
import SourceAtlas.Proofs.Breadth

/-!
# Searches with a queue

Instead of whole levels a search can keep a queue of nodes, each with its
level. It takes the first node off, takes the steps out of it unless the node
is too deep, and puts what is new at the end. The queue runs empty, and by
then the search has found what the search by levels finds, in the same order.
-/

namespace SourceAtlas.Graph

/-- A search under way: the nodes that are still to be taken off with their levels, the nodes and the
steps that were found. -/
structure Tour (ν : Type) where
  queue : List (ν × Nat)
  seen : List ν
  taken : List (Step ν)

section
variable {ν : Type} [BEq ν] {out : ν → List (Step ν)}

def Tour.take (level : Nat) (t : Tour ν) (s : Step ν) : Tour ν :=
  if t.seen.contains s.next then { t with taken := t.taken ++ [s] }
  else ⟨t.queue ++ [(s.next, level + 1)], t.seen ++ [s.next], t.taken ++ [s]⟩

def Tour.advance (out : ν → List (Step ν)) (depth : Nat) (t : Tour ν) : Tour ν :=
  match t.queue with
  | [] => t
  | (x, level) :: rest =>
    if depth ≤ level then { t with queue := rest }
    else (out x).foldl (Tour.take level) { t with queue := rest }

/-- Only which nodes are seen matters, not their order. -/
theorem fresh_congr {seen seen' : List ν} (h : ∀ y, seen.contains y = seen'.contains y) (xs : List ν) :
    fresh seen xs = fresh seen' xs := by
  induction xs generalizing seen seen' with
  | nil => rfl
  | cons x xs ih =>
    have hcons : ∀ y, (x :: seen).contains y = (x :: seen').contains y := fun y => by
      rw [List.contains_cons, List.contains_cons, h]
    rw [fresh, fresh, h, ih h, ih hcons]

theorem fresh_append (seen xs ys : List ν) :
    fresh seen (xs ++ ys) = fresh seen xs ++ fresh (seen ++ fresh seen xs) ys := by
  induction xs generalizing seen with
  | nil => simp [fresh]
  | cons x xs ih =>
    rw [List.cons_append, fresh, fresh]
    by_cases hx : seen.contains x = true
    · rw [if_pos hx, if_pos hx, ih]
    · have hswap : ∀ y, (x :: seen ++ fresh (x :: seen) xs).contains y =
          (seen ++ x :: fresh (x :: seen) xs).contains y := fun y => by
        simp only [List.cons_append, List.contains_cons, List.contains_append]
        exact Bool.or_left_comm _ _ _
      rw [if_neg hx, if_neg hx, ih, fresh_congr hswap, List.cons_append]

/-- The steps out of a node put its new neighbours at the end of the queue. -/
theorem foldl_take (level : Nat) (ss : List (Step ν)) (t : Tour ν) : ss.foldl (Tour.take level) t =
    ⟨t.queue ++ (fresh t.seen (ss.map Step.next)).map (·, level + 1), t.seen ++ fresh t.seen (ss.map Step.next),
      t.taken ++ ss⟩ := by
  induction ss generalizing t with
  | nil => simp [fresh]
  | cons s ss ih =>
    rw [List.foldl_cons, ih, Tour.take, List.map_cons, fresh]
    by_cases hs : t.seen.contains s.next = true
    · simp [hs]
    · have hswap : ∀ y, (t.seen ++ [s.next]).contains y = (s.next :: t.seen).contains y := fun y => by
        simp [Bool.or_comm]
      simp only [if_neg hs, fresh_congr hswap]
      simp

/-- A level is taken off the queue while the next one is put at its end. -/
theorem advance_level (out : ν → List (Step ν)) {depth level : Nat} (h : level < depth)
    (frontier : List ν) (t : Tour ν) :
    (Tour.advance out depth)^[frontier.length] { t with queue := frontier.map (·, level) ++ t.queue } =
      ⟨t.queue ++ (fresh t.seen ((frontier.flatMap out).map Step.next)).map (·, level + 1),
        t.seen ++ fresh t.seen ((frontier.flatMap out).map Step.next), t.taken ++ frontier.flatMap out⟩ := by
  induction frontier generalizing t with
  | nil => simp [fresh]
  | cons x xs ih =>
    have hfirst : Tour.advance out depth { t with queue := (x :: xs).map (·, level) ++ t.queue } =
        ⟨xs.map (·, level) ++ (t.queue ++ (fresh t.seen ((out x).map Step.next)).map (·, level + 1)),
          t.seen ++ fresh t.seen ((out x).map Step.next), t.taken ++ out x⟩ := by
      simp [Tour.advance, Nat.not_le.2 h, foldl_take]
    rw [List.length_cons, Function.iterate_succ_apply, hfirst]
    refine (ih ⟨t.queue ++ (fresh t.seen ((out x).map Step.next)).map (·, level + 1),
      t.seen ++ fresh t.seen ((out x).map Step.next), t.taken ++ out x⟩).trans ?_
    simp [fresh_append]

/-- The last level is taken off and nothing is put behind it. -/
theorem advance_last (depth : Nat) (frontier seen : List ν) (taken : List (Step ν)) :
    (Tour.advance out depth)^[frontier.length] ⟨frontier.map (·, depth), seen, taken⟩ = ⟨[], seen, taken⟩ := by
  induction frontier with
  | nil => rfl
  | cons x xs ih =>
    have hfirst : Tour.advance out depth ⟨(x :: xs).map (·, depth), seen, taken⟩ =
        ⟨xs.map (·, depth), seen, taken⟩ := by
      simp [Tour.advance]
    rw [List.length_cons, Function.iterate_succ_apply, hfirst, ih]

def expandedFrom (out : ν → List (Step ν)) : (depth : Nat) → (seen frontier : List ν) → List ν
  | 0, _, _ => []
  | depth + 1, seen, frontier => frontier ++ spread out depth seen frontier

theorem expandedFrom_succ (out : ν → List (Step ν)) (depth : Nat) (seen frontier : List ν) :
    expandedFrom out (depth + 1) seen frontier = frontier ++ expandedFrom out depth
      (seen ++ fresh seen ((frontier.flatMap out).map Step.next))
      (fresh seen ((frontier.flatMap out).map Step.next)) := by
  cases depth <;> rfl

theorem advance_from (left level : Nat) (frontier seen : List ν) (taken : List (Step ν)) :
    ∃ n, (Tour.advance out (level + left))^[n] ⟨frontier.map (·, level), seen, taken⟩ =
      ⟨[], seen ++ spread out left seen frontier, taken ++ (expandedFrom out left seen frontier).flatMap out⟩ := by
  induction left generalizing level frontier seen taken with
  | zero => exact ⟨frontier.length, by simpa [spread, expandedFrom] using advance_last level frontier seen taken⟩
  | succ left ih =>
    have hdeep : level < level + (left + 1) := Nat.lt_add_of_pos_right (Nat.succ_pos left)
    have hlevel := advance_level out hdeep frontier ⟨[], seen, taken⟩
    obtain ⟨n, hn⟩ := ih (level + 1) (fresh seen ((frontier.flatMap out).map Step.next))
      (seen ++ fresh seen ((frontier.flatMap out).map Step.next)) (taken ++ frontier.flatMap out)
    rw [Nat.add_assoc, Nat.add_comm 1] at hn
    refine ⟨n + frontier.length, ?_⟩
    rw [List.append_nil, List.nil_append] at hlevel
    rw [Function.iterate_add_apply, hlevel, hn, expandedFrom_succ, spread]
    simp

/-- The queue runs empty, and then the nodes and the steps are those of the search by levels. -/
theorem search_of_queue {steps : ν → Outcome (List (Step ν))} (h : ∀ x, steps x = .ok (out x))
    (depth : Nat) (start : ν) :
    ∃ n nodes taken, (Tour.advance out depth)^[n] ⟨[(start, 0)], [start], []⟩ = ⟨[], nodes, taken⟩ ∧
      search steps depth start = .ok ⟨nodes, taken⟩ := by
  obtain ⟨n, hn⟩ := advance_from depth 0 [start] [start] []
  refine ⟨n, _, _, (Nat.zero_add depth ▸ hn), ?_⟩
  rw [search_eq h]
  cases depth <;> rfl

end

end SourceAtlas.Graph
