import Mathlib.Algebra.Ring.Int.Defs
import SourceAtlas.Proofs.Exchanges
import SourceAtlas.Proofs.Orders
import SourceAtlas.Proofs.Pieces

/-!
# Embeddings and their texts

A service returns the embeddings of one request in any order, each with the place
of its text. Sorting brings back the order of the texts, so the embeddings of all
batches together stand in the order of the texts they are of.
-/

namespace SourceAtlas

open Json (Value)

theorem forall₂_zip_left {α β : Type} {R : α → β → Prop} {as : List α} {bs : List β} (h : List.Forall₂ R as bs) :
    List.Forall₂ (fun p a => p.1 = a ∧ R a p.2) (as.zip bs) as := by
  induction h with
  | nil => exact .nil
  | cons hab _ ih => exact .cons ⟨rfl, hab⟩ ih

namespace Embedding

/-- The text that stands for another one in a request: a blank one is sent as a space. -/
def sentAs (text : String) : String := if Text.strip text == "" then " " else text

structure Item (i : Nat) (embedding : List Value) (v : Value) : Prop where
  index : fieldOr v "index" (.int 0) = .ok (.int i)
  embedding : fieldOr v "embedding" (.list []) = .ok (.list embedding)

/-- A success that has one item for each input, with the place and the embedding of that input, in any order. -/
inductive Reply.Answers (f : String → List Value) (input : List String) (tokens : Int) : Reply → Prop where
  | intro {status : Int} {body usage : Value} {items listing : List Value} (success : 200 ≤ status ∧ status < 300)
      (data : fieldOr body "data" (.list []) = .ok (.list items)) (perm : items.Perm listing)
      (listed : List.Forall₂ (fun p v => Item p.2 (f p.1) v) input.zipIdx listing)
      (used : fieldOr body "usage" (.obj []) = .ok usage)
      (total : fieldOr usage "total_tokens" (.int 0) = .ok (.int tokens)) :
      Answers f input tokens (.answered status (.ok body))

/-- Each of some batches is answered, the first one from the `n`-th request on, each after fewer
than `limit` requests that may be repeated. -/
inductive Serves (c : Config) (f : String → List Value) (service : Nat → Request → Reply) (limit : Nat) :
    Nat → List (List String) → List Int → Prop where
  | nil (n : Nat) : Serves c f service limit n [] []
  | cons {n refused : Nat} {texts : List String} {tokens : Int} {pieces : List (List String)} {ts : List Int}
      (within_limit : refused < limit)
      (refusals : ∀ j < refused, (service (n + j) (Remote.requestFor c texts)).Repeatable)
      (answer : (service (n + refused) (Remote.requestFor c texts)).Answers f (texts.map sentAs) tokens)
      (others : Serves c f service limit (n + (refused + 1)) pieces ts) :
      Serves c f service limit n (texts :: pieces) (tokens :: ts)

namespace Remote

variable {c : Config} {f : String → List Value} {texts : List String} {tokens : Int}

/-! ## One body -/

theorem before?_int (m n : Int) : (Value.int m).before? (.int n) = some (decide (m < n)) :=
  congrArg some (decide_eq_decide.2 Rat.intCast_lt_intCast)

theorem index_orders : OrdersOn (fun k : Value × Value => ∃ n : Int, k.1 = .int n)
    (fun a b => a.1.before? b.1 != some true && b.1.before? a.1 != some true) fun a b =>
      b.1.before? a.1 != some true where
  total := by
    rintro ⟨_, v⟩ ⟨_, w⟩ ⟨m, rfl⟩ ⟨n, rfl⟩
    simp only [before?_int, bne_iff_ne, ne_eq, Option.some.injEq, decide_eq_true_eq]
    omega
  trans := by
    rintro ⟨_, u⟩ ⟨_, v⟩ ⟨_, w⟩ ⟨l, rfl⟩ ⟨m, rfl⟩ ⟨n, rfl⟩
    simp only [before?_int, bne_iff_ne, ne_eq, Option.some.injEq, decide_eq_true_eq]
    omega
  same_iff a b _ _ := by rw [Bool.and_eq_true, And.comm]

def place (v : Value) : Value := (fieldOr v "index" (.int 0)).toOption.getD (.int 0)

theorem byIndex_of_perm {items listing : List Value} (hperm : items.Perm listing)
    (hindex : ∀ (i : Nat) (h : i < listing.length), fieldOr listing[i] "index" (.int 0) = .ok (.int i)) :
    byIndex items = .ok listing := by
  have hplace : ∀ (i : Nat) (h : i < listing.length), place listing[i] = .int i := fun i h => by
    rw [place, hindex i h]
    rfl
  have hget : ∀ v ∈ items, ∃ (i : Nat) (h : i < listing.length), listing[i] = v := fun v hv =>
    List.mem_iff_getElem.1 (hperm.mem_iff.1 hv)
  have hkeyed : (items.mapM fun v => do pure (← fieldOr v "index" (.int 0), v)) =
      (.ok (items.map fun v => (place v, v)) : Outcome _) := by
    refine mapM_ok_map fun v hv => ?_
    obtain ⟨i, hi, rfl⟩ := hget v hv
    rw [hplace i hi, hindex i hi]
    rfl
  have hints : ∀ k ∈ items.map fun v => (place v, v), ∃ n : Int, k.1 = .int n := by
    rw [List.forall_mem_map]
    intro v hv
    obtain ⟨i, hi, rfl⟩ := hget v hv
    exact ⟨i, hplace i hi⟩
  have hapart : ∀ a ∈ items.map fun v => (place v, v), ∀ b ∈ items.map fun v => (place v, v),
      (a.1.before? b.1 != some true && b.1.before? a.1 != some true) = true → a = b := by
    simp only [List.forall_mem_map]
    intro v hv w hw hsame
    obtain ⟨i, hi, rfl⟩ := hget v hv
    obtain ⟨j, hj, rfl⟩ := hget w hw
    simp only [hplace, before?_int, Bool.and_eq_true, bne_iff_ne, ne_eq, Option.some.injEq,
      decide_eq_true_eq] at hsame
    obtain rfl : i = j := by omega
    rfl
  have hordered : (listing.map fun v => (place v, v)).Pairwise fun a b =>
      (b.1.before? a.1 != some true) = true := by
    rw [List.pairwise_map, List.pairwise_iff_getElem]
    intro i j hi hj hij
    simp only [hplace, before?_int, bne_iff_ne, ne_eq, Option.some.injEq, decide_eq_true_eq]
    omega
  have hcomparable : ((items.map fun v => (place v, v)).all fun a => (items.map fun v => (place v, v)).all fun b =>
      (a.1.before? b.1).isSome) = true := by
    simp only [List.all_eq_true]
    intro a ha b hb
    obtain ⟨m, hm⟩ := hints a ha
    obtain ⟨n, hn⟩ := hints b hb
    rw [hm, hn, before?_int]
    rfl
  rw [byIndex, hkeyed]
  show (if _ then _ else _) = _
  dsimp only
  rw [hcomparable, index_orders.mergeSort_eq_of_perm hints hapart (hperm.map _),
    List.mergeSort_of_pairwise hordered]
  rw [Bool.not_true, Bool.and_false, if_neg Bool.false_ne_true, List.map_map]
  exact congrArg Except.ok (List.map_id _)

theorem interpret_of_answers {body usage : Value} {items listing : List Value}
    (data : fieldOr body "data" (.list []) = .ok (.list items)) (perm : items.Perm listing)
    (listed : List.Forall₂ (fun p v => Item p.2 (f p.1) v) (texts.map sentAs).zipIdx listing)
    (used : fieldOr body "usage" (.obj []) = .ok usage)
    (total : fieldOr usage "total_tokens" (.int 0) = .ok (.int tokens)) :
    ∃ results, interpret c texts body = .ok (results, .int tokens) ∧
      List.Forall₂ (fun t e => e.text = t ∧ e.embedding = .list (f (sentAs t))) texts results := by
  have hlength : listing.length = texts.length := by simpa using listed.length_eq.symm
  have hsorted : byIndex items = .ok listing := by
    refine byIndex_of_perm perm fun i hi => ?_
    have hitem := listed.get (by simpa [hlength] using hi) hi
    simpa using hitem.index
  have hembeddings : List.Forall₂ (fun t v => fieldOr v "embedding" (.list []) = .ok (.list (f (sentAs t)))) texts
      listing := by
    have hmapped : List.Forall₂ (fun s v => fieldOr v "embedding" (.list []) = .ok (.list (f s))) (texts.map sentAs)
        listing := by
      rw [← List.zipIdx_map_fst 0 (texts.map sentAs), List.forall₂_map_left_iff]
      exact listed.imp fun _ _ h => h.embedding
    exact List.forall₂_map_left_iff.1 hmapped
  obtain ⟨results, hresults, haligned⟩ := mapM_ok_of_forall₂ (forall₂_zip_left hembeddings)
    (T := fun t (e : Embedded) => e.text = t ∧ e.embedding = .list (f (sentAs t)))
    (f := fun p => do
      let embedding ← fieldOr p.2 "embedding" (.list [])
      let dimensions ← size embedding
      let tokens ← share (.int tokens) texts.length
      pure ⟨p.1, embedding, c.model, dimensions, tokens⟩)
    (by
      rintro ⟨_, v⟩ - t - ⟨rfl, h⟩
      dsimp only at h ⊢
      rw [h]
      exact ⟨_, rfl, rfl, rfl⟩)
  refine ⟨results, ?_, haligned⟩
  have hcount : (listing.length != texts.length) = false := by simp [hlength]
  simp only [interpret, bind, Except.bind, data, members, pure, Except.pure, hsorted, hcount, used, total]
  exact congrArg (fun read : Outcome (List Embedded) => do pure (← read, Value.int tokens)) hresults

theorem verdict_of_answers {reply : Reply} (h : reply.Answers f (texts.map sentAs) tokens) :
    ∃ results, reply.verdict c texts = .ok (results, .int tokens) ∧
      List.Forall₂ (fun t e => e.text = t ∧ e.embedding = .list (f (sentAs t))) texts results := by
  obtain ⟨success, data, perm, listed, used, total⟩ := h
  obtain ⟨results, hresults, haligned⟩ := interpret_of_answers (c := c) data perm listed used total
  exact ⟨results, (if_pos success).trans hresults, haligned⟩

/-! ## All batches -/

theorem not_repeatable {reply : Reply} {input : List String} (h : reply.Answers f input tokens) :
    ¬ reply.Repeatable := by
  rintro ⟨⟩ <;> cases h
  omega

/-- Where the n-th request is answered after some refusals, these are all its repeats. -/
theorem repeats_eq {service : Nat → Request → Reply} {limit n refused : Nat} {r : Round}
    (hr : r.Ends c service limit n)
    (hlimit : refused < limit) (hrefusals : ∀ j < refused, (service (n + j) (requestFor c r.texts)).Repeatable)
    (hanswer : ¬ (service (n + refused) (requestFor c r.texts)).Repeatable) : r.repeats = refused := by
  rcases Nat.lt_trichotomy r.repeats refused with h | h | h
  · have := hr.last (hr.reply_eq ▸ hrefusals _ h)
    omega
  · exact h
  · exact absurd (hr.repeated _ h) hanswer

/-- By induction on the batches: what they yield is added to what there is. -/
theorem on_embedPieces_of_serves {service : Nat → Request → Reply} {limit n : Nat}
    (hlimit : asInt c.maxRetries = .ok (limit : Nat)) {pieces : List (List String)} {ts : List Int}
    (h : Serves c f service limit n pieces ts) (b : Batch) {spent : Int}
    (hspent : b.tokens = .int spent) (d : Dialogue)
    (hservice : d.service = service) (hn : d.sent.length = n) :
    ∃ more, ((pieces.foldlM (embedPiece c) b).on d).1 = .ok ⟨b.results ++ more, .int (spent + ts.sum)⟩ ∧
      List.Forall₂ (fun t e => e.text = t ∧ e.embedding = .list (f (sentAs t))) pieces.flatten more := by
  induction h generalizing b spent d with
  | nil n =>
    refine ⟨[], ?_, .nil⟩
    rw [List.append_nil, List.sum_nil, Int.add_zero, ← hspent]
    rfl
  | @cons n refused texts tokens pieces ts within_limit refusals answer others ih =>
    subst hservice hn
    obtain ⟨r, rfl, hends, hon⟩ := on_embedPiece hlimit (Nat.one_le_of_lt within_limit) b texts d
    have hrepeats := repeats_eq hends within_limit refusals (not_repeatable answer)
    obtain ⟨results, hverdict, hresults⟩ := verdict_of_answers (c := c) answer
    rw [← hrepeats, ← hends.reply_eq] at hverdict
    have hadd : b.add c r = .ok ⟨b.results ++ results, .int (spent + tokens)⟩ := by
      rw [Batch.add, Round.outcome, hverdict, hspent]
      rfl
    have hsent := d.length_sent_events c r
    rw [hrepeats] at hsent
    rw [hadd] at hon
    obtain ⟨more, hmore, haligned⟩ := ih ⟨b.results ++ results, .int (spent + tokens)⟩ rfl
      { d with events := d.events ++ r.events c } rfl hsent
    refine ⟨results ++ more, ?_, ?_⟩
    · rw [List.foldlM_cons, Act.on_bind_ok hon, hmore, List.append_assoc, List.sum_cons, Int.add_assoc]
    · rw [List.flatten_cons]
      exact List.rel_append hresults haligned

/-- Every text gets the embedding of what stands for it in the requests, however the service orders
its answers, and the tokens of all answers are added up. -/
theorem embedBatch_aligned {size limit : Nat} (hsize : asInt c.batchSize = .ok (size : Nat)) (hone : 1 ≤ size)
    (hlimit : asInt c.maxRetries = .ok (limit : Nat)) {ts : List Int} {d : Dialogue}
    (h : Serves c f d.service limit d.sent.length (Search.batches (size - 1) texts) ts) :
    ∃ results, ((embedBatch c texts).on d).1 = .ok ⟨results, .int ts.sum⟩ ∧
      List.Forall₂ (fun t e => e.text = t ∧ e.embedding = .list (f (sentAs t))) texts results := by
  obtain ⟨results, hresults, haligned⟩ := on_embedPieces_of_serves hlimit h ⟨[], .int 0⟩ rfl d rfl rfl
  rw [List.nil_append, Int.zero_add] at hresults
  rw [Search.flatten_batches] at haligned
  rw [embedBatch_eq hsize hone]
  exact ⟨results, hresults, haligned⟩

def backward : Nat → Request → Reply
  | 0, _ => .answered 429 (.error (.mishap .malformedJson))
  | _ + 1, r => .answered 200 (.ok (.obj [
      ("data", .list (r.input.zipIdx.map fun p =>
        .obj [("index", .int p.2), ("embedding", .list [.int p.1.length])]).reverse),
      ("usage", .obj [("total_tokens", .int r.input.length)])]))

theorem answers_backward (n : Nat) (r : Request) :
    (backward (n + 1) r).Answers (fun t => [.int t.length]) r.input r.input.length := by
  refine .intro (by decide) rfl (List.reverse_perm _) ?_ rfl rfl
  rw [List.forall₂_map_right_iff, List.forall₂_same]
  exact fun p _ => ⟨rfl, rfl⟩

theorem embedBatch_aligned_backward : ∃ results,
    ((embedBatch { batchSize := .int 2 } ["two", " ", "w"]).on { service := backward }).1 = .ok ⟨results, .int 3⟩ ∧
    List.Forall₂ (fun t e => e.text = t ∧ e.embedding = .list [.int (sentAs t).length])
      ["two", " ", "w"] results := by
  have hpieces : Search.batches (2 - 1) ["two", " ", "w"] = [["two", " "], ["w"]] := by simp [Search.batches]
  have hlast : Serves { batchSize := .int 2 } (fun t => [.int t.length]) backward 3 2 [["w"]] [1] :=
    .cons (Nat.zero_lt_succ 2) (fun j hj => absurd hj j.not_lt_zero)
      (answers_backward 1 (requestFor { batchSize := .int 2 } ["w"])) (.nil 3)
  have hserves : Serves { batchSize := .int 2 } (fun t => [.int t.length]) backward 3 0
      [["two", " "], ["w"]] [2, 1] := by
    refine .cons (Nat.one_lt_succ_succ 1) (fun j hj => ?_)
      (answers_backward 0 (requestFor { batchSize := .int 2 } ["two", " "])) hlast
    obtain rfl := Nat.lt_one_iff.1 hj
    exact .slowDown _
  rw [← hpieces] at hserves
  have hsize : asInt ({ batchSize := .int 2 } : Config).batchSize = .ok (2 : Nat) := rfl
  have hlimit : asInt ({ batchSize := .int 2 } : Config).maxRetries = .ok (3 : Nat) := rfl
  exact @embedBatch_aligned _ _ _ _ _ hsize (by decide) hlimit _ { service := backward } hserves

end Remote

end Embedding

end SourceAtlas
