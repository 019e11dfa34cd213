import SourceAtlas.LogContext
import SourceAtlas.Proofs.Maps

/-!
# Nested log contexts

A block takes its names out again when it is left, also those that had a value
before. So blocks leave what is bound as it was just if no name is bound twice
at one time.
-/

namespace SourceAtlas

open Json (Record)

/-! ## Maps without some keys -/

namespace OrderedMap

variable {κ α : Type} [BEq κ]

def without (m : OrderedMap κ α) (ks : List κ) : OrderedMap κ α := m.filter fun k _ => !ks.contains k

theorem without_nil (m : OrderedMap κ α) : m.without [] = m := by
  apply ext_entries
  simp [without, filter]

theorem without_without (m : OrderedMap κ α) (ks js : List κ) :
    (m.without ks).without js = m.without (ks ++ js) := by
  apply ext_entries
  simp [without, filter, List.filter_filter, Bool.and_comm]

theorem foldl_erase_eq (m : OrderedMap κ α) (ks : List κ) : ks.foldl erase m = m.without ks := by
  induction ks generalizing m with
  | nil => exact m.without_nil.symm
  | cons k ks ih =>
    have herase : m.erase k = m.without [k] := by
      apply ext_entries
      simp [erase, without, filter, bne]
    rw [List.foldl_cons, ih, herase, without_without]
    rfl

section
variable [LawfulBEq κ]

theorem get?_without (m : OrderedMap κ α) (ks : List κ) (k : κ) :
    (m.without ks).get? k = if ks.contains k then none else m.get? k := by
  have hsame : ∀ (i j : κ) (_ : α), (i == j) = true → (!ks.contains i) = !ks.contains j := by
    intro i j _ h
    rw [eq_of_beq h]
  rw [without, m.get?_filter hsame]
  cases ks.contains k <;> cases m.get? k <;> simp

theorem without_eq_self_iff (m : OrderedMap κ α) (ks : List κ) : m.without ks = m ↔ ∀ k ∈ ks, m.get? k = none := by
  constructor
  · intro h k hk
    rw [← h, get?_without, if_pos (List.contains_iff_mem.2 hk)]
  · intro h
    apply ext_entries
    apply List.filter_eq_self.2
    intro e he
    by_cases hk : e.1 ∈ ks
    · have hget := get?_of_mem (k := e.1) (v := e.2) he
      rw [h e.1 hk] at hget
      cases hget
    · simpa using hk

theorem without_insert (m : OrderedMap κ α) {ks : List κ} {k : κ} (hk : k ∈ ks) (v : α) :
    (m.insert k v).without ks = m.without ks := by
  apply ext_entries
  by_cases hany : m.entries.any (·.1 == k) = true
  · have hinsert : (m.insert k v).entries = replace m.entries k v := by rw [insert, dif_pos hany]
    simp only [without, filter, hinsert, replace, List.filter_map]
    refine (List.map_congr_left fun e he => ?_).trans (List.map_id _)
    have hother : ¬ e.1 = k := by
      rintro rfl
      simp [hk] at he
    simp [hother]
  · have hinsert : (m.insert k v).entries = m.entries ++ [(k, v)] := by rw [insert, dif_neg hany]
    simp [without, filter, hinsert, hk]

theorem without_insertAll (m : OrderedMap κ α) {ks : List κ} {es : List (κ × α)} (h : ∀ e ∈ es, e.1 ∈ ks) :
    (m.insertAll es).without ks = m.without ks := by
  induction es generalizing m with
  | nil => rfl
  | cons e es ih =>
    obtain ⟨he, hes⟩ := List.forall_mem_cons.1 h
    rw [insertAll_cons, ih _ hes, without_insert m he]

theorem get?_insertAll_eq_none_iff (m : OrderedMap κ α) (es : List (κ × α)) (k : κ) :
    (m.insertAll es).get? k = none ↔ k ∉ es.map Prod.fst ∧ m.get? k = none := by
  rw [get?_insertAll, Option.or_eq_none_iff, Option.map_eq_none_iff, List.find?_eq_none]
  refine and_congr_left' ⟨fun h hk => ?_, fun h e he hek => h ?_⟩
  · obtain ⟨e, he, rfl⟩ := List.mem_map.1 hk
    exact h e (List.mem_reverse.2 he) BEq.rfl
  · rw [← eq_of_beq hek]
    exact List.mem_map_of_mem (List.mem_reverse.1 he)

end

end OrderedMap

namespace LogContext

/-! ## Sequences of blocks -/

inductive Event where
  | enter (vars : Record)
  | leave

def step (x : LogContext) : Event → LogContext
  | .enter vars => x.enter vars
  | .leave => x.leave

def run (x : LogContext) (es : List Event) : LogContext := es.foldl step x

/-- A well-nested sequence: no block, or one with those inside it and those after it. -/
inductive Blocks where
  | none
  | block (vars : Record) (inner later : Blocks)

namespace Blocks

def events : Blocks → List Event
  | none => []
  | block vars inner later => .enter vars :: (inner.events ++ .leave :: later.events)

/-- The names that are bound, in the order in which they are taken out again. -/
def names : Blocks → List String
  | none => []
  | block vars inner later => inner.names ++ vars.map Prod.fst ++ later.names

/-- No block binds a name again that a block around it has bound. -/
def Apart : Blocks → Prop
  | none => True
  | block vars inner later => (∀ name ∈ inner.names, name ∉ vars.map Prod.fst) ∧ inner.Apart ∧ later.Apart

end Blocks

def around (x : LogContext) (vars : Record) (inner : Blocks) : LogContext := ((x.enter vars).run inner.events).leave

/-- After each block of a sequence the same is bound as just before it. -/
def Restores : LogContext → Blocks → Prop
  | _, .none => True
  | x, .block vars inner later =>
    (x.around vars inner).bound = x.bound ∧ (x.enter vars).Restores inner ∧ (x.around vars inner).Restores later

theorem run_block (x : LogContext) (vars : Record) (inner later : Blocks) :
    x.run (Blocks.block vars inner later).events = (x.around vars inner).run later.events := List.foldl_append ..

theorem of_leave {x : LogContext} {names : List String} {outer : List (List String)}
    (h : x.blocks = names :: outer) :
    x.leave.bound = x.bound.without names ∧ x.leave.blocks = outer := by
  simp [leave, h, unbind, OrderedMap.foldl_erase_eq]

theorem of_around {x : LogContext} {vars : Record} {inner : Blocks}
    (hbound : ((x.enter vars).run inner.events).bound = (x.enter vars).bound.without inner.names)
    (hblocks : ((x.enter vars).run inner.events).blocks = (x.enter vars).blocks) :
    (x.around vars inner).bound = x.bound.without (inner.names ++ vars.map Prod.fst) ∧
      (x.around vars inner).blocks = x.blocks := by
  obtain ⟨hleft, hclosed⟩ := of_leave (hblocks.trans (show _ = vars.map Prod.fst :: x.blocks from rfl))
  refine ⟨?_, hclosed⟩
  have henter : (x.enter vars).bound = x.bound.insertAll vars := rfl
  rw [around, hleft, hbound, henter, OrderedMap.without_without]
  apply OrderedMap.without_insertAll
  intro v hv
  exact List.mem_append_right _ (List.mem_map_of_mem hv)

/-- What no block has bound is still bound, and nothing else is. -/
theorem after_blocks (x : LogContext) (b : Blocks) :
    (x.run b.events).bound = x.bound.without b.names ∧ (x.run b.events).blocks = x.blocks := by
  induction b generalizing x with
  | none => exact ⟨x.bound.without_nil.symm, rfl⟩
  | block vars inner later ihinner ihlater =>
    obtain ⟨hbound, hblocks⟩ := of_around (ihinner (x.enter vars)).1 (ihinner (x.enter vars)).2
    obtain ⟨hlater, hrest⟩ := ihlater (x.around vars inner)
    rw [run_block, hlater, hrest, hbound, hblocks, OrderedMap.without_without]
    exact ⟨rfl, rfl⟩

/-- Blocks leave what is bound as it was just if they bind no name that has a value already, be it
from before or from a block around. In any case, what none of them has bound is still bound after
them, and nothing else. -/
theorem restores_iff (x : LogContext) (b : Blocks) :
    (x.Restores b ↔ (∀ name ∈ b.names, x.bound.get? name = none) ∧ b.Apart) ∧
      (x.run b.events).bound = x.bound.without b.names := by
  refine ⟨?_, (x.after_blocks b).1⟩
  induction b generalizing x with
  | none => simp [Restores, Blocks.names, Blocks.Apart]
  | block vars inner later ihinner ihlater =>
    obtain ⟨hbound, -⟩ := of_around ((x.enter vars).after_blocks inner).1 ((x.enter vars).after_blocks inner).2
    have hentered : ∀ name, (x.enter vars).bound.get? name = none ↔ name ∉ vars.map Prod.fst ∧
        x.bound.get? name = none :=
      fun name => x.bound.get?_insertAll_eq_none_iff vars name
    have hleft : (x.around vars inner).bound = x.bound ↔
        ∀ name ∈ inner.names ++ vars.map Prod.fst, x.bound.get? name = none := by
      rw [hbound]
      exact x.bound.without_eq_self_iff _
    rw [Restores, ihinner, ihlater, hleft, Blocks.names, Blocks.Apart]
    constructor
    · rintro ⟨hfree, ⟨hinner, hapart⟩, hlater, hrest⟩
      rw [hleft.2 hfree] at hlater
      exact ⟨List.forall_mem_append.2 ⟨hfree, hlater⟩, fun name hname => ((hentered name).1 (hinner name hname)).1,
        hapart, hrest⟩
    · rintro ⟨hall, hinner, hapart, hrest⟩
      obtain ⟨hfree, hlater⟩ := List.forall_mem_append.1 hall
      rw [hleft.2 hfree]
      refine ⟨hfree, ⟨fun name hname => (hentered name).2 ⟨hinner name hname, ?_⟩, hapart⟩, hlater, hrest⟩
      exact hfree name (List.mem_append_left _ hname)

/-! A job binds its repository, and the run over the files of the repository binds it again. -/

def jobVars : Record := [("job_id", .str "job_1"), ("repo_id", .str "repo")]

def runVars : Record := [("repo_id", .str "repo")]

theorem repository_unbound_within_job :
    let x := ({} : LogContext).run [.enter jobVars]
    let y := x.run [.enter runVars, .leave]
    x.bound.get? "repo_id" = some (.str "repo") ∧ y.bound.get? "repo_id" = none ∧
      ¬ ({} : LogContext).Restores (.block jobVars (.block runVars .none .none) .none) := by
  refine ⟨rfl, rfl, ?_⟩
  rintro ⟨-, ⟨hinner, -⟩, -⟩
  have hget := congrArg (·.get? "repo_id") hinner
  cases hget

end LogContext

end SourceAtlas
