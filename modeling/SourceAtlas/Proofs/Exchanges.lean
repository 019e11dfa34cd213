import Mathlib.Algebra.Group.Nat.Defs
import Mathlib.Data.List.Infix
import SourceAtlas.Embedding.Remote
import SourceAtlas.Proofs.Acts

/-!
# Exchanges with a service

Texts go to an embedding service in batches, and each batch is one request. The
request is repeated, after waits that double, while the service asks for it and
attempts are left. The reply that a batch was left at decides what comes of it,
and the next batch is sent only if that was a success.
-/

namespace SourceAtlas.Embedding

open Json (Value)

/-- Replies after which the same request may be sent again. -/
inductive Reply.Repeatable : Reply → Prop where
  | slowDown (body : Outcome Value) : Repeatable (.answered 429 body)
  | unreachable : Repeatable .unreachable
  | timedOut : Repeatable .timedOut

def Reply.verdict (c : Config) (texts : List String) : Reply → Outcome (List Embedded × Value)
  | .answered status body =>
    if 200 ≤ status ∧ status < 300 then do Remote.interpret c texts (← body)
    else throw (.embedding (totalLength texts) (.mishap .httpStatus))
  | .unreachable => throw (.embedding (totalLength texts) (.mishap .connection))
  | .timedOut => throw (.embedding (totalLength texts) (.mishap .timeout))

/-- One batch: how often its request was repeated, and the reply that it was left at. -/
structure Round where
  texts : List String
  repeats : Nat
  reply : Reply

namespace Round

/-- What happens when `done` attempts were made before: waits that double stand between the requests. -/
def eventsAfter (c : Config) (done : Nat) (r : Round) : List Event :=
  ((List.range r.repeats).flatMap fun j => [.sent (Remote.requestFor c r.texts), .waited (2 ^ (done + j + 1))]) ++
    [.sent (Remote.requestFor c r.texts)]

def events (c : Config) (r : Round) : List Event := r.eventsAfter c 0

def outcome (c : Config) (r : Round) : Outcome (List Embedded × Value) := r.reply.verdict c r.texts

/-- Whether a batch whose first request is the `n`-th ends as it has to: at the first reply that
allows no repeat, or at the last attempt. -/
structure Ends (c : Config) (service : Nat → Request → Reply) (limit n : Nat) (r : Round) : Prop where
  within_limit : r.repeats < limit
  repeated : ∀ j < r.repeats, (service (n + j) (Remote.requestFor c r.texts)).Repeatable
  reply_eq : r.reply = service (n + r.repeats) (Remote.requestFor c r.texts)
  last : r.reply.Repeatable → r.repeats + 1 = limit

end Round

inductive Rounds (c : Config) (service : Nat → Request → Reply) (limit : Nat) : Nat → List Round → Prop where
  | nil (n : Nat) : Rounds c service limit n []
  | cons {n r rs} : r.Ends c service limit n → Rounds c service limit (n + (r.repeats + 1)) rs →
      Rounds c service limit n (r :: rs)

def Remote.Batch.add (c : Config) (b : Remote.Batch) (r : Round) : Outcome Remote.Batch := do
  let (results, tokens) ← r.outcome c
  pure ⟨b.results ++ results, ← Remote.addTokens b.tokens tokens⟩

namespace Dialogue

variable (d : Dialogue)

@[simp] theorem sent_record_sent (r : Request) : (d.record (.sent r)).sent = d.sent ++ [r] := by
  simp [sent, record, Event.request?]

@[simp] theorem sent_record_waited (seconds : Nat) : (d.record (.waited seconds)).sent = d.sent := by
  simp [sent, record, Event.request?]

/-- A batch is one request more than it is repeated. -/
theorem length_sent_events (c : Config) (r : Round) :
    (sent { d with events := d.events ++ r.events c }).length = d.sent.length + (r.repeats + 1) := by
  simp [sent, Round.events, Round.eventsAfter, Event.request?, List.filterMap_flatMap, List.filterMap_cons]

end Dialogue

namespace Remote

variable {c : Config} {texts : List String} {left done limit n : Nat} {d : Dialogue}

/-! ## One batch -/

theorem judge_of_repeatable {reply : Reply} (h : reply.Repeatable) : ∃ cause, judge reply = some (cause, true) := by
  cases h with
  | slowDown body => exact ⟨_, rfl⟩
  | unreachable => exact ⟨_, rfl⟩
  | timedOut => exact ⟨_, rfl⟩

theorem repeatable_of_judge {reply : Reply} {cause : Failure} (h : judge reply = some (cause, true)) :
    reply.Repeatable := by
  cases reply with
  | answered status body =>
    by_cases hstatus : 200 ≤ status ∧ status < 300
    · simp [judge, hstatus] at h
    · simp only [judge, hstatus, if_false, Option.some.injEq, Prod.mk.injEq, beq_iff_eq] at h
      rw [h.2]
      exact .slowDown body
  | unreachable => exact .unreachable
  | timedOut => exact .timedOut

theorem verdict_of_judge {reply : Reply} {cause : Failure} {repeatable : Bool}
    (h : judge reply = some (cause, repeatable))
    (c : Config) (texts : List String) : reply.verdict c texts = .error (.embedding (totalLength texts) cause) := by
  cases reply with
  | answered status body =>
    by_cases hstatus : 200 ≤ status ∧ status < 300
    · simp [judge, hstatus] at h
    · simp only [judge, hstatus, if_false, Option.some.injEq, Prod.mk.injEq] at h
      rw [← h.1, Reply.verdict, if_neg hstatus]
      rfl
  | unreachable | timedOut =>
    obtain ⟨rfl, -⟩ := Prod.mk.inj (Option.some.inj h)
    rfl

theorem on_post (r : Request) (d : Dialogue) :
    (post r).on d = (.ok (d.service d.sent.length r), d.record (.sent r)) := rfl

/-- An attempt that may be repeated is followed by a wait and the rest of the attempts. -/
theorem on_attempts_again (h : (d.service d.sent.length (requestFor c texts)).Repeatable) (hleft : left ≠ 0) :
    (attempts c texts (left + 1) done).on d = (attempts c texts left (done + 1)).on
      ((d.record (.sent (requestFor c texts))).record (.waited (2 ^ (done + 1)))) := by
  obtain ⟨cause, hjudge⟩ := judge_of_repeatable h
  have hagain : (true && left != 0) = true := by simpa using hleft
  rw [attempts, Act.on_bind, on_post]
  dsimp only
  rw [hjudge]
  dsimp only
  rw [if_pos hagain, Act.on_bind, Act.on_modify]
  rfl

theorem on_attempts_last (h : (d.service d.sent.length (requestFor c texts)).Repeatable → left = 0) :
    (attempts c texts (left + 1) done).on d = ((d.service d.sent.length (requestFor c texts)).verdict c texts,
      d.record (.sent (requestFor c texts))) := by
  rw [attempts, Act.on_bind, on_post]
  dsimp only
  generalize d.service d.sent.length (requestFor c texts) = reply at h
  cases hjudge : judge reply with
  | some verdict =>
    obtain ⟨cause, repeatable⟩ := verdict
    have hagain : ¬ (repeatable && left != 0) = true := by
      rw [Bool.and_eq_true, bne_iff_ne]
      rintro ⟨rfl, hleft⟩
      exact hleft (h (repeatable_of_judge hjudge))
    dsimp only
    rw [if_neg hagain, verdict_of_judge hjudge]
    rfl
  | none =>
    cases reply with
    | answered status body =>
      by_cases hstatus : 200 ≤ status ∧ status < 300
      · rw [Reply.verdict, if_pos hstatus]
        rfl
      · simp [judge, hstatus] at hjudge
    | unreachable => cases hjudge
    | timedOut => cases hjudge

/-- By induction on the attempts that are left: a repeat is a request and a wait before a round of the others. -/
theorem on_attempts (c : Config) (texts : List String) (left done : Nat) (d : Dialogue) :
    ∃ r : Round, r.texts = texts ∧ r.Ends c d.service (left + 1) d.sent.length ∧
      (attempts c texts (left + 1) done).on d =
        (r.outcome c, { d with events := d.events ++ r.eventsAfter c done }) := by
  induction left generalizing done d with
  | zero =>
    refine ⟨⟨texts, 0, d.service d.sent.length (requestFor c texts)⟩, rfl,
      ⟨Nat.zero_lt_one, nofun, rfl, fun _ => rfl⟩, ?_⟩
    rw [on_attempts_last fun _ => rfl]
    rfl
  | succ left ih =>
    by_cases hfirst : (d.service d.sent.length (requestFor c texts)).Repeatable
    · obtain ⟨r, rfl, hends, hon⟩ := ih (done + 1)
        ((d.record (.sent (requestFor c texts))).record (.waited (2 ^ (done + 1))))
      rw [Dialogue.sent_record_waited, Dialogue.sent_record_sent] at hends
      have hnext : ∀ j, (d.sent ++ [requestFor c r.texts]).length + j = d.sent.length + (j + 1) := by
        intro j
        rw [List.length_append, List.length_singleton]
        omega
      refine ⟨{ r with repeats := r.repeats + 1 }, rfl, ⟨?_, ?_, ?_, ?_⟩, ?_⟩
      · exact Nat.succ_lt_succ hends.within_limit
      · intro j hj
        cases j with
        | zero => exact hfirst
        | succ j => exact hnext j ▸ hends.repeated j (Nat.lt_of_succ_lt_succ hj)
      · rw [hends.reply_eq, hnext]
        rfl
      · exact fun hlast => congrArg (· + 1) (hends.last hlast)
      · have hexponent : ∀ j, done + 1 + j + 1 = done + (j + 1) + 1 := by omega
        rw [on_attempts_again hfirst (Nat.succ_ne_zero left), hon]
        simp [Round.outcome, Round.eventsAfter, Dialogue.record, List.range_succ_eq_map,
          List.flatMap_map, hexponent]
    · refine ⟨⟨texts, 0, d.service d.sent.length (requestFor c texts)⟩, rfl,
        ⟨Nat.succ_pos _, nofun, rfl, fun hlast => absurd hlast hfirst⟩, ?_⟩
      rw [on_attempts_last fun hlast => absurd hlast hfirst]
      rfl

/-! ## All batches -/

def embedPiece (c : Config) (b : Batch) (piece : List String) : Act Dialogue Batch := do
  let (results, tokens) ← attempts c piece (← Act.ofOutcome (asInt c.maxRetries)).toNat 0
  pure ⟨b.results ++ results, ← Act.ofOutcome (addTokens b.tokens tokens)⟩

theorem on_embedPiece (hlimit : asInt c.maxRetries = .ok (limit : Nat)) (hpos : 1 ≤ limit) (b : Batch)
    (piece : List String) (d : Dialogue) :
    ∃ r : Round, r.texts = piece ∧ r.Ends c d.service limit d.sent.length ∧
      (embedPiece c b piece).on d = (b.add c r, { d with events := d.events ++ r.events c }) := by
  obtain ⟨left, rfl⟩ := Nat.exists_eq_add_of_le' hpos
  obtain ⟨r, htexts, hends, hon⟩ := on_attempts c piece left 0 d
  rw [show r.eventsAfter c 0 = r.events c from rfl] at hon
  refine ⟨r, htexts, hends, ?_⟩
  rw [embedPiece, hlimit, Act.on_bind, Act.on_ofOutcome]
  dsimp only
  rw [Int.toNat_natCast, Act.on_bind, hon, Batch.add]
  cases r.outcome c with
  | error f => rfl
  | ok answer =>
    dsimp only
    rw [Act.on_bind, Act.on_ofOutcome]
    cases htokens : addTokens b.tokens answer.2 with
    | error f =>
      simp only [bind, Except.bind, htokens]
    | ok tokens =>
      simp only [bind, Except.bind, htokens]
      rfl

theorem embedBatch_eq {size : Nat} (hsize : asInt c.batchSize = .ok (size : Nat)) (hone : 1 ≤ size)
    (texts : List String) :
    embedBatch c texts = (Search.batches (size - 1) texts).foldlM (embedPiece c) ⟨[], .int 0⟩ := by
  cases texts with
  | nil => simp [embedBatch, Search.batches]
  | cons text texts =>
    have hbatches : (do Search.batchesOf (← asInt c.batchSize) (text :: texts)) =
        .ok (Search.batches (size - 1) (text :: texts)) := by
      rw [hsize]
      show Search.batchesOf (size : Int) _ = _
      rw [Search.batchesOf, if_neg (by omega), if_neg (by omega), Int.toNat_natCast]
      rfl
    rw [embedBatch, hbatches]
    rfl

/-- By induction on the batches: the last that is sent decides what a run comes to, and what the
others come to could be added. -/
theorem on_embedPieces_last {limit : Nat} (hlimit : asInt c.maxRetries = .ok (limit : Nat)) (hpos : 1 ≤ limit)
    (pieces : List (List String)) (piece : List String) (b : Batch) (d : Dialogue) :
    ∃ front r b', Rounds c d.service limit d.sent.length (front ++ [r]) ∧
      (front ++ [r]).map Round.texts <+: piece :: pieces ∧ front.foldlM (Batch.add c) b = .ok b' ∧
      ((b'.add c r).toBool = true → (front ++ [r]).map Round.texts = piece :: pieces) ∧
      ((piece :: pieces).foldlM (embedPiece c) b).on d =
        (b'.add c r, { d with events := d.events ++ (front ++ [r]).flatMap (Round.events c) }) := by
  induction pieces generalizing piece b d with
  | nil =>
    obtain ⟨r, rfl, hends, hon⟩ := on_embedPiece hlimit hpos b piece d
    refine ⟨[], r, b, .cons hends (.nil _), List.prefix_refl _, rfl, fun _ => rfl, ?_⟩
    rw [List.foldlM_cons, Act.on_bind, hon]
    cases b.add c r <;> simp
  | cons next pieces ih =>
    obtain ⟨r, rfl, hends, hon⟩ := on_embedPiece hlimit hpos b piece d
    rw [List.foldlM_cons, Act.on_bind, hon]
    cases hadd : b.add c r with
    | error f =>
      refine ⟨[], r, b, .cons hends (.nil _), by simp, rfl, ?_, ?_⟩
      · rw [hadd]
        nofun
      · rw [hadd]
        simp
    | ok m =>
      obtain ⟨front, s, b', hrounds, hfront, hfold, hall, hrest⟩ :=
        ih next m { d with events := d.events ++ r.events c }
      rw [Dialogue.length_sent_events] at hrounds
      refine ⟨r :: front, s, b', .cons hends hrounds, ?_, ?_, ?_, ?_⟩
      · rw [List.cons_append, List.map_cons, List.prefix_cons_inj]
        exact hfront
      · rw [List.foldlM_cons, hadd]
        exact hfold
      · exact fun hok => congrArg (r.texts :: ·) (hall hok)
      · dsimp only
        rw [hrest]
        simp

theorem foldlM_add_concat {front : List Round} {b b' : Batch}
    (h : front.foldlM (Batch.add c) b = .ok b') (r : Round) :
    (front ++ [r]).foldlM (Batch.add c) b = b'.add c r := by
  rw [List.foldlM_append, h]
  exact bind_pure (b'.add c r)

theorem outcome_of_foldlM_add {rounds : List Round} {b b' : Batch} (h : rounds.foldlM (Batch.add c) b = .ok b') :
    ∀ r ∈ rounds, (r.outcome c).toBool = true := by
  induction rounds generalizing b with
  | nil => exact fun r hr => absurd hr List.not_mem_nil
  | cons r rounds ih =>
    rw [List.foldlM_cons] at h
    obtain ⟨m, hadd, hrest⟩ := bind_eq_ok.1 h
    obtain ⟨answer, hanswer, -⟩ := bind_eq_ok.1 hadd
    exact List.forall_mem_cons.2 ⟨by rw [hanswer]; rfl, ih hrest⟩

theorem on_embedPieces (hlimit : asInt c.maxRetries = .ok (limit : Nat)) (hpos : 1 ≤ limit)
    (pieces : List (List String)) (b : Batch) (d : Dialogue) :
    ∃ rounds, Rounds c d.service limit d.sent.length rounds ∧ rounds.map Round.texts <+: pieces ∧
      (∀ r ∈ rounds.dropLast, (r.outcome c).toBool = true) ∧
      ((rounds.foldlM (Batch.add c) b).toBool = true → rounds.map Round.texts = pieces) ∧
      (pieces.foldlM (embedPiece c) b).on d =
        (rounds.foldlM (Batch.add c) b, { d with events := d.events ++ rounds.flatMap (Round.events c) }) := by
  cases pieces with
  | nil =>
    refine ⟨[], .nil _, List.prefix_refl _, nofun, fun _ => rfl, ?_⟩
    rw [List.flatMap_nil, List.append_nil]
    rfl
  | cons piece pieces =>
    obtain ⟨front, r, b', hrounds, hfront, hfold, hall, hon⟩ := on_embedPieces_last hlimit hpos pieces piece b d
    have hboth := foldlM_add_concat hfold r
    refine ⟨front ++ [r], hrounds, hfront, ?_, hboth ▸ hall, hboth ▸ hon⟩
    rw [List.dropLast_concat]
    exact outcome_of_foldlM_add hfold

/-- Batches are sent one after the other, each as one request that is repeated as often as it may be
and has to be, and each but the last one succeeded. The run comes to what its batches come to, and
returns only if all were sent. -/
theorem embedBatch_rounds {size : Nat} (hsize : asInt c.batchSize = .ok (size : Nat)) (hone : 1 ≤ size)
    (hlimit : asInt c.maxRetries = .ok (limit : Nat)) (hpos : 1 ≤ limit) (texts : List String) (d : Dialogue) :
    ∃ rounds, Rounds c d.service limit d.sent.length rounds ∧
      rounds.map Round.texts <+: Search.batches (size - 1) texts ∧
      (∀ r ∈ rounds.dropLast, (r.outcome c).toBool = true) ∧
      ((rounds.foldlM (Batch.add c) ⟨[], .int 0⟩).toBool = true →
        rounds.map Round.texts = Search.batches (size - 1) texts) ∧
      (embedBatch c texts).on d = (rounds.foldlM (Batch.add c) ⟨[], .int 0⟩,
        { d with events := d.events ++ rounds.flatMap (Round.events c) }) := by
  obtain ⟨rounds, hrounds, hfront, hsucceeded, hall, hon⟩ :=
    on_embedPieces hlimit hpos (Search.batches (size - 1) texts) ⟨[], .int 0⟩ d
  exact ⟨rounds, hrounds, hfront, hsucceeded, hall, by rw [embedBatch_eq hsize hone, hon]⟩

def unsteady : Nat → Request → Reply
  | 0, _ => .answered 429 (.error (.mishap .malformedJson))
  | 1, _ => .timedOut
  | 2, _ => .answered 200 (.ok (.obj [("data", .list [.obj [("embedding", .list [.int 1])]])]))
  | _, _ => .answered 500 (.error (.mishap .malformedJson))

def shown : Event → List String ⊕ Nat
  | .sent r => .inl r.input
  | .waited seconds => .inr seconds

theorem embedBatch_rounds_unsteady : ∃ rounds, Rounds { batchSize := .int 1 } unsteady 3 0 rounds ∧
    rounds.map Round.texts <+: [["f"], ["g"], ["h"]] ∧
    (∀ r ∈ rounds.dropLast, (r.outcome { batchSize := .int 1 }).toBool = true) ∧
    (rounds.flatMap (Round.events { batchSize := .int 1 })).map shown =
      [.inl ["f"], .inr 2, .inl ["f"], .inr 4, .inl ["f"], .inl ["g"]] := by
  have hpieces : Search.batches (1 - 1) ["f", "g", "h"] = [["f"], ["g"], ["h"]] := by simp [Search.batches]
  have hsize : asInt ({ batchSize := .int 1 } : Config).batchSize = .ok (1 : Nat) := rfl
  have hlimit : asInt ({ batchSize := .int 1 } : Config).maxRetries = .ok (3 : Nat) := rfl
  obtain ⟨rounds, hrounds, hfront, hsucceeded, -, hon⟩ :=
    embedBatch_rounds hsize (Nat.le_refl 1) hlimit (by decide) ["f", "g", "h"] { service := unsteady }
  rw [hpieces] at hfront
  rw [embedBatch_eq hsize (Nat.le_refl 1), hpieces] at hon
  refine ⟨rounds, hrounds, hfront, hsucceeded, ?_⟩
  calc (rounds.flatMap (Round.events { batchSize := .int 1 })).map shown
    _ = (([["f"], ["g"], ["h"]].foldlM (embedPiece { batchSize := .int 1 }) ⟨[], .int 0⟩).on
          { service := unsteady }).2.events.map shown := by rw [hon]; rfl
    _ = _ := by decide +kernel

end Remote

end SourceAtlas.Embedding
