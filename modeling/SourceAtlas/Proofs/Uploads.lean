import SourceAtlas.Proofs.Orders
import SourceAtlas.Proofs.Pieces
import SourceAtlas.Proofs.Rejections

/-!
# Uploads to a remote index

Documents are sent in full batches, but for the last one, and in their order.
The first batch that the server turns down is the last that is sent. Points are
sent in the same way, once all their vectors have the right length.
-/

namespace SourceAtlas

open Json (Value Record)

theorem Json.Record.get?_set (r : Record) (name other : String) (v : Value) :
    get? (set r name v) other = if name = other then some v else get? r other := by
  have hreplaced : ∀ f : String × Value, (if f.1 == name then (name, v) else f).1 = f.1 := fun f => by
    split
    · exact (beq_iff_eq.1 ‹_›).symm
    · rfl
  unfold set get?
  split
  · rename_i hany
    rw [List.find?_map, Option.map_map]
    have hsame : ((fun f : String × Value => f.1 == other) ∘ fun f => if f.1 == name then (name, v) else f) =
        (·.1 == other) :=
      funext fun f => by rw [Function.comp_apply, hreplaced]
    rw [hsame]
    by_cases h : name = other
    · subst h
      obtain ⟨f, hf⟩ := Option.isSome_iff_exists.1 (List.find?_isSome.2 (List.any_eq_true.1 hany))
      have hname : (f.1 == name) = true := List.find?_some (p := fun f : String × Value => f.1 == name) hf
      rw [hf, if_pos rfl, Option.map_some, Function.comp_apply, if_pos hname]
    · rw [if_neg h]
      refine Option.map_congr fun f hf => ?_
      have hname : f.1 = other := beq_iff_eq.1 (List.find?_some (p := fun f : String × Value => f.1 == other) hf)
      rw [Function.comp_apply, if_neg fun hname' => h ((beq_iff_eq.1 hname').symm.trans hname)]
  · rename_i hany
    rw [List.find?_append, Option.map_or, List.find?_singleton]
    by_cases h : name = other
    · subst h
      have hnone : r.find? (·.1 == name) = none :=
        List.find?_eq_none.2 fun f hf hname => hany (List.any_eq_true.2 ⟨f, hf, hname⟩)
      simp [hnone]
    · simp [h]

namespace Search

/-! ## Requests -/

namespace Connection

def past (c : Connection) (rs : List Request) : Connection := { c with sent := c.sent ++ rs }

/-- In which words the server turns down a request of this kind after `n` more of them. -/
def refusal? (c : Connection) (kind : String) (n : Nat) : Option String :=
  (c.server.refusals.find? fun f => f.request == kind && f.after ≤ (c.sent.filter (·.name == kind)).length + n).map
    (·.message)

theorem past_nil (c : Connection) : c.past [] = c := by
  rw [past, List.append_nil]

theorem past_past (c : Connection) (rs ss : List Request) : (c.past rs).past ss = c.past (rs ++ ss) := by
  simp only [past, List.append_assoc]

theorem refusal?_past (c : Connection) (rs : List Request) (kind : String) (n : Nat) :
    (c.past rs).refusal? kind n = c.refusal? kind ((rs.filter (·.name == kind)).length + n) := by
  simp only [refusal?, past, List.filter_append, List.length_append, Nat.add_assoc]

end Connection

namespace RemoteIndex

variable {x : RemoteIndex} {c d : Connection} {size : Int}

theorem on_send (r : Request) (c : Connection) : (send r).on c = (match c.refusal? r.name 0 with
    | some m => .error (.rejected m)
    | none => .ok (), c.past [r]) := by
  rw [send, Act.on_bind_ok (Act.on_get c), Connection.refusal?]
  dsimp only
  rw [Act.on_bind_ok (Act.on_set _ _), Nat.add_zero]
  cases c.server.refusals.find? fun f => f.request == r.name && f.after ≤
    (c.sent.filter (·.name == r.name)).length <;> rfl

/-- What becomes of batches: all are sent, or the first that is turned down is the last that is sent. -/
inductive Sends (c : Connection) (pieces : List (List Value)) : Option String → List (List Value) → Prop
  | all : (∀ k < pieces.length, c.refusal? "add_documents" k = none) → Sends c pieces none pieces
  | refused {k : Nat} {m : String} : k < pieces.length → (∀ j < k, c.refusal? "add_documents" j = none) →
    c.refusal? "add_documents" k = some m → Sends c pieces (some m) (pieces.take (k + 1))

variable {pieces front : List (List Value)} {refused : Option String}

theorem Sends.ne_nil (h : Sends c pieces refused front) (hpieces : pieces ≠ []) : front ≠ [] := by
  cases h with
  | all => exact hpieces
  | refused => simpa using hpieces

theorem Sends.congr (h : Sends c pieces refused front)
    (hcd : ∀ n, d.refusal? "add_documents" n = c.refusal? "add_documents" n) :
    Sends d pieces refused front := by
  cases h with
  | all hall => exact .all fun k hk => (hcd k).trans (hall k hk)
  | refused hk hbefore hm => exact .refused hk (fun j hj => (hcd j).trans (hbefore j hj)) ((hcd _).trans hm)

theorem Sends.cons {piece : List Value} (hfirst : c.refusal? "add_documents" 0 = none)
    (h : Sends (c.past [.addDocuments piece]) pieces refused front) :
    Sends c (piece :: pieces) refused (piece :: front) := by
  have hnext : ∀ n, (c.past [.addDocuments piece]).refusal? "add_documents" n =
      c.refusal? "add_documents" (n + 1) := by
    intro n
    rw [c.refusal?_past, Nat.add_comm n]
    rfl
  have hcons : ∀ {k}, (∀ j < k, (c.past [.addDocuments piece]).refusal? "add_documents" j = none) →
      ∀ j < k + 1, c.refusal? "add_documents" j = none := by
    intro k hk j hj
    cases j with
    | zero => exact hfirst
    | succ j => exact (hnext j).symm.trans (hk j (Nat.lt_of_succ_lt_succ hj))
  cases h with
  | all hall => exact .all (hcons hall)
  | refused hk hbefore hm => exact .refused (Nat.succ_lt_succ hk) (hcons hbefore) ((hnext _).symm.trans hm)

def said (refused : Option String) : Outcome Unit :=
  match refused with
  | some m => .error (.rejected m)
  | none => .ok ()

theorem on_sendAll : ∀ (pieces : List (List Value)) (c : Connection), ∃ refused front,
    Sends c pieces refused front ∧
    (pieces.forM fun piece => send (.addDocuments piece)).on c = (said refused, c.past (front.map .addDocuments))
  | [], c => by
    refine ⟨none, [], .all (fun k hk => absurd hk (Nat.not_lt_zero k)), ?_⟩
    rw [List.map_nil, c.past_nil]
    rfl
  | piece :: pieces, c => by
    have hsend := on_send (.addDocuments piece) c
    cases hfirst : c.refusal? "add_documents" 0 with
    | some m =>
      refine ⟨some m, [piece],
        .refused (k := 0) (Nat.succ_pos _) (fun j hj => absurd hj (Nat.not_lt_zero j)) hfirst, ?_⟩
      rw [Act.on_forM_cons, Act.on_bind, hsend, Request.name, hfirst]
      rfl
    | none =>
      obtain ⟨refused, front, hsends, hrest⟩ := on_sendAll pieces (c.past [.addDocuments piece])
      refine ⟨refused, piece :: front, hsends.cons hfirst, ?_⟩
      rw [Act.on_forM_cons, Act.on_bind, hsend, Request.name, hfirst]
      dsimp only
      rw [hrest, c.past_past]
      rfl

/-! ## Uploads -/

/-- The requests by which batches are sent; none are needed for no batches. -/
def requests (x : RemoteIndex) (pieces : List (List Value)) : List Request :=
  if pieces = [] then [] else .index x.name :: pieces.map .addDocuments

def added (x : RemoteIndex) (refused : Option String) : Outcome Unit :=
  match refused with
  | some m => .error (.searchIndex x.name "add_documents" (.rejected m))
  | none => .ok ()

/-- Documents are sent in batches: all of them, or those up to the first batch that is turned down. -/
def Uploads (x : RemoteIndex) (size : Int) (c : Connection) (documents : List Value)
    (o : Outcome Unit) (d : Connection) :
    Prop :=
  ∃ pieces refused front, Batched size documents pieces ∧ Sends c pieces refused front ∧ o = x.added refused ∧
    d.sent = c.sent ++ x.requests front

theorem uploads_nil (x : RemoteIndex) (size : Int) (c : Connection) : Uploads x size c [] (.ok ()) c := by
  refine ⟨[], none, [], ⟨rfl, ?_, ?_⟩, .all ?_, rfl, (List.append_nil _).symm⟩
  · exact fun piece h => absurd h List.not_mem_nil
  · exact fun piece h => absurd h List.not_mem_nil
  · exact fun k hk => absurd hk (Nat.not_lt_zero k)

section

variable (hsize : asInt x.batchSize = .ok size) (hpos : 1 ≤ size) (hindex : c.refusal? "index" 0 = none)

include hsize hpos hindex

theorem uploads_addBatches {documents : List Value} (hne : documents ≠ []) :
    Uploads x size c documents ((x.addBatches documents).on c).1 ((x.addBatches documents).on c).2 := by
  obtain ⟨pieces, hpieces, hbatched⟩ := batchesOf_ok hpos documents
  let o : Connection := { c with isOpen := true }
  obtain ⟨refused, front, hsends, hsent⟩ := on_sendAll pieces (o.past [.index x.name])
  have hne : pieces ≠ [] := fun h => hne (by rw [← hbatched.whole, h, List.flatten_nil])
  have hfront : front ≠ [] := hsends.ne_nil hne
  have hadd : (x.addBatches documents).on c =
      (x.added refused, (o.past [.index x.name]).past (front.map .addDocuments)) := by
    have hopen : connect.on c = (.ok (), o) := rfl
    have hname : (send (.index x.name)).on o = (.ok (), o.past [.index x.name]) := by
      have hnone : o.refusal? "index" 0 = none := hindex
      rw [on_send, Request.name, hnone]
    have hread : (Act.ofOutcome (do batchesOf (← asInt x.batchSize) documents) : Act Connection _).on
        (o.past [.index x.name]) = (.ok pieces, o.past [.index x.name]) := by
      rw [Act.on_ofOutcome, hsize]
      exact congrArg (·, _) hpieces
    rw [addBatches, Act.on_bind_ok hopen, Act.on_bind_ok hname, Act.on_bind_ok hread, rejectedAs, Act.on_bind,
      Act.on_attempt, hsent]
    cases refused <;> rfl
  refine ⟨pieces, refused, front, hbatched, hsends.congr fun n => ?_, ?_, ?_⟩
  · -- the name of the index is no batch
    rw [o.refusal?_past, show ([Request.index x.name].filter (·.name == "add_documents")).length = 0 from rfl,
      Nat.zero_add]
    rfl
  · rw [hadd]
  · rw [hadd, requests, if_neg hfront, o.past_past]
    rfl

/-- The number of documents is answered once all are sent. -/
theorem uploads_addDocuments (ds : List Value) :
    Uploads x size c ds (discard ((x.addDocuments (.list ds)).on c).1) ((x.addDocuments (.list ds)).on c).2 ∧
      ∀ n, ((x.addDocuments (.list ds)).on c).1 = .ok n → n = ds.length := by
  cases ds with
  | nil =>
    refine ⟨uploads_nil x size c, fun n h => ?_⟩
    exact (Except.ok.inj h).symm
  | cons v ds =>
    have hadd := uploads_addBatches hsize hpos hindex (List.cons_ne_nil v ds)
    have hcount : isAbove x.batchSize 0 = .ok true := by
      rw [isAbove_of_asInt hsize, decide_eq_true (by omega)]
    have hon : (x.addDocuments (.list (v :: ds))).on c = (do
        x.addBatches (v :: ds)
        pure (if ← isAbove x.batchSize 0 then (v :: ds).length else 0) : Act Connection Nat).on c := rfl
    rw [hon, Act.on_bind]
    generalize (x.addBatches (v :: ds)).on c = r at hadd
    obtain ⟨o, d⟩ := r
    cases o with
    | error f => exact ⟨hadd, fun n h => nomatch h⟩
    | ok u =>
      dsimp only
      rw [Act.on_bind, Act.on_liftOutcome, hcount]
      exact ⟨hadd, fun n h => (Except.ok.inj h).symm⟩

end

/-! ## Points -/

structure Typed (p : RemotePoint) : Prop where
  vector : ∃ n, SourceAtlas.size p.vector = .ok n
  payload : ∃ r, p.payload = .obj r

def Suits (x : RemoteIndex) (p : RemotePoint) (suits : Bool) : Prop :=
  ∃ n : Nat, SourceAtlas.size p.vector = .ok n ∧ (x.dimensions.getD .null).same (.int n) = suits

/-- The payload of a point, overridden by its id and its vector. -/
inductive SentAs (p : RemotePoint) : Value → Prop
  | intro {r s : Record} (payload : p.payload = .obj r) (id : Record.get? s "id" = some p.id)
    (vector : Record.get? s "_vectors" = some (.obj [("default", p.vector)]))
    (others : ∀ name, name ≠ "id" → name ≠ "_vectors" → Record.get? s name = Record.get? r name) : SentAs p (.obj s)

variable {p : RemotePoint}

theorem pointDocument_eq {n : Nat} (hn : SourceAtlas.size p.vector = .ok n) (x : RemoteIndex) :
    pointDocument (x.dimensions.getD .null) p =
      if (x.dimensions.getD .null).same (.int n) then do
        pure (.obj (Record.extend (← asRecord p.payload)
          [("id", p.id), ("_vectors", .obj [("default", p.vector)])]))
      else .error (VectorIndex.wrongLength "upsert" (x.dimensions.getD .null) n) := by
  rw [pointDocument, hn]
  simp only [bind, Except.bind]
  cases (x.dimensions.getD .null).same (.int n) <;> rfl

theorem sentAs_of_suits (hp : Typed p) (h : x.Suits p true) :
    ∃ v, pointDocument (x.dimensions.getD .null) p = .ok v ∧ SentAs p v := by
  obtain ⟨r, hr⟩ := hp.payload
  obtain ⟨n, hn, hsame⟩ := h
  refine ⟨_, by rw [pointDocument_eq hn, hsame, if_pos rfl, hr]; rfl, .intro hr ?_ ?_ fun name hid hvectors => ?_⟩
  all_goals simp only [Record.extend, List.foldl_cons, List.foldl_nil, Record.get?_set]
  · rfl
  · rfl
  · rw [if_neg (Ne.symm hvectors), if_neg (Ne.symm hid)]

/-- What a point fails with is that its vector has another length. -/
theorem wrongLength_of_fault (hp : Typed p) {f : Failure}
    (h : pointDocument (x.dimensions.getD .null) p = .error f) :
    ∃ n : Nat, SourceAtlas.size p.vector = .ok n ∧ (x.dimensions.getD .null).same (.int n) = false ∧
      f = VectorIndex.wrongLength "upsert" (x.dimensions.getD .null) n := by
  obtain ⟨r, hr⟩ := hp.payload
  obtain ⟨n, hn⟩ := hp.vector
  rw [pointDocument_eq hn, hr] at h
  cases hsame : (x.dimensions.getD .null).same (.int n) with
  | true =>
    rw [hsame, if_pos rfl] at h
    cases h
  | false =>
    rw [hsame] at h
    exact ⟨n, hn, hsame, (Except.error.inj h).symm⟩

/-- A remote index sends documents and points batch by batch, in their order. The first batch that
is turned down is the last that is sent and fails the upload, and of points with a vector of another
length none is sent. -/
theorem uploads_in_batches (hsize : asInt x.batchSize = .ok size) (hpos : 1 ≤ size)
    (hindex : c.refusal? "index" 0 = none) :
    (∀ ds : List Value, let r := (x.addDocuments (.list ds)).on c
      Uploads x size c ds (discard r.1) r.2 ∧ ∀ n, r.1 = .ok n → n = ds.length) ∧
    (∀ points : List RemotePoint, (∀ p ∈ points, Typed p ∧ x.Suits p true) → let r := (x.addPoints points).on c
      ∃ ds, List.Forall₂ SentAs points ds ∧ Uploads x size c ds r.1 r.2) ∧
    ∀ points : List RemotePoint, (∃ p ∈ points, x.Suits p false) →
      ∃ f, (x.addPoints points).on c = (.error f, c) ∧ ((∀ p ∈ points, Typed p) → ∃ p ∈ points, ∃ n : Nat,
        SourceAtlas.size p.vector = .ok n ∧ (x.dimensions.getD .null).same (.int n) = false ∧
        f = VectorIndex.wrongLength "upsert" (x.dimensions.getD .null) n) := by
  refine ⟨uploads_addDocuments hsize hpos hindex, fun points hpoints => ?_, fun points hwrong => ?_⟩
  · cases points with
    | nil => exact ⟨[], .nil, uploads_nil x size c⟩
    | cons p points =>
      have hread : ∀ q ∈ p :: points, ∃ v, pointDocument (x.dimensions.getD .null) q = .ok v ∧ SentAs q v :=
        fun q hq => sentAs_of_suits (hpoints q hq).1 (hpoints q hq).2
      obtain ⟨ds, hds, hsent⟩ := mapM_ok_of_forall₂ (R := Eq) (T := SentAs)
        (f := fun p => pointDocument (x.dimensions.getD .null) p) (List.forall₂_same.2 fun _ _ => rfl)
        fun q hq _ _ hsame => hsame ▸ hread q hq
      have hne : ds ≠ [] := by
        rintro rfl
        cases hsent
      refine ⟨ds, hsent, ?_⟩
      rw [on_addPoints x (List.cons_ne_nil p points), hds]
      exact uploads_addBatches hsize hpos hindex hne
  · obtain ⟨p, hp, n, hn, hsame⟩ := hwrong
    obtain ⟨f, hf, hon⟩ := addPoints_unsent hp hn hsame c
    refine ⟨f, hon, fun htyped => ?_⟩
    obtain ⟨q, hq, hfault⟩ := exists_of_mapM_error hf
    exact ⟨q, hq, wrongLength_of_fault (htyped q hq) hfault⟩

end RemoteIndex

end Search

namespace Sample

open Search (Connection RemoteIndex RemotePoint)

def remote : RemoteIndex := { name := "symbols", batchSize := .int 2, dimensions := some (.int 2) }

def reluctant : Connection := { server := { refusals := [⟨"add_documents", 1, "full"⟩] } }

def three : List Value := [.int 1, .int 2, .int 3]

def fitting : RemotePoint := ⟨"1", .list [.float 1.0, .float 0.0], .obj [("id", "0")]⟩

def short : RemotePoint := ⟨"2", .list [.float 1.0], .obj []⟩

end Sample

namespace Search.RemoteIndex

open Sample

theorem uploads_in_batches_of_two :
    Uploads remote 2 reluctant three (discard ((remote.addDocuments (.list three)).on reluctant).1)
      ((remote.addDocuments (.list three)).on reluctant).2 ∧
    (∃ ds, List.Forall₂ SentAs [fitting] ds ∧
      Uploads remote 2 reluctant ds ((remote.addPoints [fitting]).on reluctant).1
        ((remote.addPoints [fitting]).on reluctant).2) ∧
    ∃ f, (remote.addPoints [fitting, short]).on reluctant = (.error f, reluctant) := by
  have hsize : asInt remote.batchSize = .ok 2 := rfl
  obtain ⟨hdocuments, hpoints, hwrong⟩ :=
    uploads_in_batches (x := remote) (c := reluctant) hsize (by decide) rfl
  refine ⟨(hdocuments _).1, hpoints [fitting] fun p hp => ?_, ?_⟩
  · obtain rfl := List.mem_singleton.1 hp
    exact ⟨⟨⟨2, rfl⟩, _, rfl⟩, 2, rfl, rfl⟩
  · obtain ⟨f, hf, -⟩ := hwrong [fitting, short] ⟨short, by simp, 1, rfl, rfl⟩
    exact ⟨f, hf⟩

end Search.RemoteIndex

end SourceAtlas
