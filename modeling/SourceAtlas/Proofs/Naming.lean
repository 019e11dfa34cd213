import SourceAtlas.Proofs.Chunks
import SourceAtlas.Proofs.RoundTrips

/-!
# References that are known

A store knows a reference from when a document is stored with it until a
document with it is replaced or removed, no matter which other documents have
it by then. A reference that is known leads to a document that has it.
-/

namespace SourceAtlas

open Json (Value Record Key)
open Act (Keeps)

namespace Document

/-- The reference of a document in the form that it is looked up by. -/
def refKey? (d : Document) : Option Key := d.ref?.bind Key.ofValue?

instance (d : Document) : Decidable d.Referable :=
  decidable_of_iff (d.ref?.all fun ref => (Key.ofValue? ref).isSome) (by simp [Referable, Option.all_eq_true])

theorem refKey?_of_not_referable {d : Document} (h : ¬ d.Referable) : d.refKey? = none := by
  rw [Referable] at h
  push Not at h
  obtain ⟨ref, href, hnone⟩ := h
  rw [refKey?, href]
  exact Option.not_isSome_iff_eq_none.1 hnone

theorem refKey?_eq_str_iff {d : Document} {name : String} :
    d.refKey? = some (.str name) ↔ d.ref? = some (.str name) := by
  cases href : d.ref? with
  | none => simp [refKey?, href]
  | some ref => cases ref <;> simp [refKey?, href, Key.ofValue?]

theorem get?_of_ref? {d : Document} {v : Value} (h : d.ref? = some v) : Record.get? d "symbol_ref" = some v :=
  (Option.filter_eq_some_iff.1 h).1

end Document

namespace Graph

/-! ## What is said of references -/

inductive Mention where
  /-- A document was stored with it. -/
  | given (ref : Key)
  /-- A document with it was replaced or removed. -/
  | taken (ref : Key)
  /-- All documents were removed. -/
  | cleared

def Mention.tell (r : Key) (known : Bool) : Mention → Bool
  | given ref => ref == r || known
  | taken ref => !(r == ref) && known
  | cleared => false

/-- Whether a reference is known after mentions: if the last that concerns it gives it. -/
def told (ms : List Mention) (r : Key) (known : Bool) : Bool := ms.foldl (Mention.tell r) known

theorem told_append (ms ns : List Mention) (r : Key) (known : Bool) :
    told (ms ++ ns) r known = told ns r (told ms r known) := List.foldl_append

def givenBy (d : Document) : List Mention := (d.refKey?.map .given).toList

def takenWith (d : Document) : List Mention := (d.refKey?.map .taken).toList

namespace Symbols

variable {x : Symbols} {id : Key} {d : Document} {p : Document → Bool}

def mentionsOfPut (x : Symbols) (id : Key) (d : Document) : List Mention :=
  match x.documents.get? id with
  | none => givenBy d
  | some previous => if previous.Referable then takenWith previous ++ givenBy d else []

/-- The removal stops at the first reference that is no key. -/
def mentionsOfDrop (x : Symbols) (p : Document → Bool) : List Mention :=
  (((x.documents.entries.filter fun e => p e.2).map Prod.snd).takeWhile fun d =>
    decide d.Referable).flatMap takenWith

/-! ## States after each operation -/

def unnamed (x : Symbols) (d : Document) : Symbols :=
  { x with idOfRef := d.refKey?.elim x.idOfRef x.idOfRef.erase }

def named (x : Symbols) (id : Key) (d : Document) : Symbols where
  documents := x.documents.insert id d
  idOfRef := d.refKey?.elim x.idOfRef fun r => x.idOfRef.insert r id

theorem after_forget (d : Document) (x : Symbols) : ((forget d).on x).2 = x.unnamed d := by
  unfold forget unnamed Document.refKey?
  cases d.ref? with
  | none => rfl
  | some ref =>
    simp only [Act.on_bind, Act.on_liftOutcome, Option.bind_some]
    obtain ⟨k, hk, hv⟩ | ⟨hk, f, hv⟩ := asKey_cases ref <;> simp [hk, hv]

theorem after_settle (id : Key) (d : Document) (x : Symbols) : ((settle id d).on x).2 = x.named id d := by
  unfold settle named Document.refKey?
  rw [Act.on_bind, Act.on_modify]
  cases d.ref? with
  | none => rfl
  | some ref =>
    simp only [Act.on_bind, Act.on_liftOutcome, Option.bind_some]
    obtain ⟨k, hk, hv⟩ | ⟨hk, f, hv⟩ := asKey_cases ref <;> simp [hk, hv]

theorem after_put (id : Key) (d : Document) (x : Symbols) :
    ((put id d).on x).2 = match x.documents.get? id with
      | none => x.named id d
      | some previous => if previous.Referable then (x.unnamed previous).named id d else x := by
  rw [on_put]
  cases x.documents.get? id with
  | none => exact after_settle id d x
  | some previous =>
    have hok := forget_ok_iff previous x
    have hafter := after_forget previous x
    dsimp only
    rw [Act.on_bind]
    generalize (forget previous).on x = r at hok hafter
    obtain ⟨o, y⟩ := r
    obtain rfl : y = x.unnamed previous := hafter
    cases o with
    | ok u =>
      rw [if_pos (hok.1 rfl)]
      exact after_settle id d _
    | error f =>
      have hno : ¬ previous.Referable := fun h => by cases hok.2 h
      rw [if_neg hno, unnamed, Document.refKey?_of_not_referable hno]
      rfl

theorem after_remove (refs : List Key) (id : Key) (d : Document) (x : Symbols) :
    ((remove refs id d).on x).2 = unnamed { x with documents := x.documents.erase id } d := by
  unfold remove unnamed Document.refKey?
  rw [Act.on_bind, Act.on_modify]
  cases d.ref? with
  | none => rfl
  | some ref =>
    simp only [Act.on_bind, Act.on_liftOutcome, Option.bind_some]
    obtain ⟨k, hk, hv⟩ | ⟨hk, f, hv⟩ := asKey_cases ref <;> simp [hk, hv]

/-! ## What is known after each operation -/

def Knows (x : Symbols) (r : Key) : Bool := (x.idOfRef.get? r).isSome

theorem knows_unnamed (x : Symbols) (d : Document) (r : Key) :
    (x.unnamed d).Knows r = told (takenWith d) r (x.Knows r) := by
  unfold unnamed takenWith Knows
  cases d.refKey? with
  | none => rfl
  | some ref =>
    show ((x.idOfRef.erase ref).get? r).isSome = (!(r == ref) && (x.idOfRef.get? r).isSome)
    rw [OrderedMap.get?_erase]
    cases r == ref <;> simp

theorem knows_named (x : Symbols) (id : Key) (d : Document) (r : Key) :
    (x.named id d).Knows r = told (givenBy d) r (x.Knows r) := by
  unfold named givenBy Knows
  cases d.refKey? with
  | none => rfl
  | some ref =>
    show ((x.idOfRef.insert ref id).get? r).isSome = (ref == r || (x.idOfRef.get? r).isSome)
    rw [OrderedMap.get?_insert]
    cases ref == r <;> simp

theorem knows_put (x : Symbols) (id : Key) (d : Document) (r : Key) :
    ((put id d).on x).2.Knows r = told (x.mentionsOfPut id d) r (x.Knows r) := by
  rw [after_put, mentionsOfPut]
  cases x.documents.get? id with
  | none => exact knows_named x id d r
  | some previous =>
    dsimp only
    split
    · rw [knows_named, knows_unnamed, told_append]
    · rfl

theorem knows_removeAll (r : Key) (es : List (Key × Document)) : ∀ (refs : List Key) (x : Symbols),
    ((es.foldlM (fun refs e => remove refs e.1 e.2) refs : Act Symbols _).on x).2.Knows r =
      told (((es.map Prod.snd).takeWhile fun d => decide d.Referable).flatMap takenWith) r (x.Knows r) := by
  induction es with
  | nil => exact fun refs x => rfl
  | cons e es ih =>
    intro refs x
    have hok := remove_ok_iff refs e.1 e.2 x
    have hafter := after_remove refs e.1 e.2 x
    have hknows := knows_unnamed { x with documents := x.documents.erase e.1 } e.2 r
    rw [List.foldlM_cons, Act.on_bind, List.map_cons, List.takeWhile_cons]
    generalize (remove refs e.1 e.2).on x = z at hok hafter ⊢
    obtain ⟨o, y⟩ := z
    rw [← hafter] at hknows
    cases o with
    | ok refs' =>
      rw [if_pos (decide_eq_true (hok.1 ⟨refs', rfl⟩)), List.flatMap_cons, told_append]
      exact (ih refs' y).trans (congrArg _ hknows)
    | error f =>
      have hno : ¬ e.2.Referable := fun h => by
        obtain ⟨refs', h⟩ := hok.2 h
        cases h
      rw [if_neg (by simpa using hno)]
      rw [takenWith, Document.refKey?_of_not_referable hno] at hknows
      exact hknows

theorem knows_drop (x : Symbols) (p : Document → Bool) (r : Key) :
    ((drop p).on x).2.Knows r = told (x.mentionsOfDrop p) r (x.Knows r) := by
  unfold drop
  rw [Act.on_bind, Act.on_get]
  exact knows_removeAll r _ [] x

/-! ## Where references lead -/

/-- Whether each reference that is known leads to a document that has it. -/
def Led (x : Symbols) : Prop :=
  ∀ r k, x.idOfRef.get? r = some k → ∃ d ref, x.documents.get? k = some d ∧ d.refKey? = some ref ∧ (r == ref) = true

def Unled (x : Symbols) (id : Key) : Prop := ∀ r k, x.idOfRef.get? r = some k → (k == id) = false

theorem Led.empty : Led {} := fun r k h => by cases h

theorem Led.unled_of_none (h : x.Led) (hid : x.documents.get? id = none) : x.Unled id := by
  intro r k hk
  obtain ⟨d, ref, hd, -⟩ := h r k hk
  refine Bool.eq_false_iff.2 fun hkey => ?_
  rw [x.documents.get?_congr hkey, hid] at hd
  cases hd

theorem of_get?_unnamed {r k : Key} (hk : (x.unnamed d).idOfRef.get? r = some k) :
    x.idOfRef.get? r = some k ∧ ∀ ref, d.refKey? = some ref → (r == ref) = false := by
  unfold unnamed at hk
  cases href : d.refKey? with
  | none =>
    rw [href] at hk
    exact ⟨hk, fun ref h => by cases h⟩
  | some ref =>
    rw [href] at hk
    replace hk : (x.idOfRef.erase ref).get? r = some k := hk
    rw [OrderedMap.get?_erase] at hk
    split at hk
    · cases hk
    · rename_i hne
      refine ⟨hk, fun ref' h => ?_⟩
      obtain rfl := Option.some.inj h
      exact Bool.eq_false_iff.2 hne

theorem Led.unnamed (h : x.Led) (d : Document) : (x.unnamed d).Led :=
  fun r k hk => h r k (of_get?_unnamed hk).1

theorem Led.unled_of_some (h : x.Led) (hid : x.documents.get? id = some d) : (x.unnamed d).Unled id := by
  intro r k hk
  obtain ⟨hk, hother⟩ := of_get?_unnamed hk
  obtain ⟨e, ref, he, href, hr⟩ := h r k hk
  refine Bool.eq_false_iff.2 fun hkey => ?_
  rw [x.documents.get?_congr hkey, hid] at he
  obtain rfl := Option.some.inj he
  cases (hother ref href).symm.trans hr

theorem Led.named (h : x.Led) (hfree : x.Unled id) (d : Document) : (x.named id d).Led := by
  -- no other reference leads to the id, so no other leads elsewhere than before
  have hrest : ∀ r k, x.idOfRef.get? r = some k →
      ∃ e ref, (x.documents.insert id d).get? k = some e ∧ e.refKey? = some ref ∧ (r == ref) = true := by
    intro r k hk
    obtain ⟨e, ref, he, hr⟩ := h r k hk
    have hne : ¬ (id == k) = true := Bool.eq_false_iff.1 (BEq.symm_false (hfree r k hk))
    exact ⟨e, ref, by rw [OrderedMap.get?_insert, if_neg hne, he], hr⟩
  unfold Symbols.named
  cases href : d.refKey? with
  | none => exact hrest
  | some ref =>
    intro r k hk
    replace hk : (x.idOfRef.insert ref id).get? r = some k := hk
    rw [OrderedMap.get?_insert] at hk
    split at hk
    · rename_i hr
      obtain rfl := Option.some.inj hk
      exact ⟨d, ref, by rw [OrderedMap.get?_insert, if_pos BEq.rfl], href, BEq.symm hr⟩
    · exact hrest r k hk

theorem Led.erased (h : x.Led) (hid : x.documents.get? id = some d) :
    (Symbols.unnamed { x with documents := x.documents.erase id } d).Led := by
  intro r k hk
  obtain ⟨e, ref, he, hr⟩ := h.unnamed d r k hk
  refine ⟨e, ref, ?_, hr⟩
  show (x.documents.erase id).get? k = some e
  rw [OrderedMap.get?_erase, if_neg (Bool.eq_false_iff.1 (h.unled_of_some hid r k hk))]
  exact he

theorem keeps_led_put (id : Key) (d : Document) : Keeps Led (put id d) := by
  intro x h
  rw [after_put]
  cases hid : x.documents.get? id with
  | none => exact h.named (h.unled_of_none hid) d
  | some previous =>
    dsimp only
    split
    · exact (h.unnamed previous).named (h.unled_of_some hid) d
    · exact h

theorem led_removeAll : ∀ (es : List (Key × Document)) (refs : List Key) (x : Symbols),
    es.Pairwise (fun a b => (a.1 == b.1) = false) → (∀ e ∈ es, x.documents.get? e.1 = some e.2) → x.Led →
    ((es.foldlM (fun refs e => remove refs e.1 e.2) refs : Act Symbols _).on x).2.Led := by
  intro es
  -- the documents still to be removed stay where they are, since the ids are different
  induction es with
  | nil => exact fun refs x _ _ h => h
  | cons e es ih =>
    intro refs x hdistinct hstored h
    obtain ⟨hother, hdistinct⟩ := List.pairwise_cons.1 hdistinct
    obtain ⟨he, hstored⟩ := List.forall_mem_cons.1 hstored
    have hafter := after_remove refs e.1 e.2 x
    have hled := h.erased he
    rw [List.foldlM_cons, Act.on_bind]
    generalize (remove refs e.1 e.2).on x = z at hafter ⊢
    obtain ⟨o, y⟩ := z
    obtain rfl : y = _ := hafter
    cases o with
    | error f => exact hled
    | ok refs' =>
      refine ih refs' _ hdistinct (fun b hb => ?_) hled
      show (x.documents.erase e.1).get? b.1 = some b.2
      have hne : ¬ (b.1 == e.1) = true := Bool.eq_false_iff.1 (BEq.symm_false (hother b hb))
      rw [OrderedMap.get?_erase, if_neg hne]
      exact hstored b hb

theorem keeps_led_drop (p : Document → Bool) : Keeps Led (drop p) := by
  intro x h
  unfold drop
  rw [Act.on_bind, Act.on_get]
  refine led_removeAll _ [] x (x.documents.distinct.filter _) (fun e he => ?_) h
  exact OrderedMap.get?_of_mem (List.mem_filter.1 he).1

/-! ## Looking names up -/

variable {name : String}

def Holds (x : Symbols) (name : String) (d : Document) : Prop :=
  (∃ k, x.documents.get? k = some d) ∧ Record.get? d "symbol_ref" = some (.str name)

/-- Whether looking a name up finds the document with this id, or else some document with this
reference, or else none because there is none. -/
def Answers (x : Symbols) (name : String) : Prop :=
  match x.documents.get? (.str name), x.get? (.str name) with
  | some d, found => found = some d
  | none, some d => x.Holds name d
  | none, none => ∀ d, ¬ x.Holds name d

theorem get?_of_id (hid : x.documents.get? (.str name) = some d) : x.get? (.str name) = some d := by
  rw [get?, hid]

theorem get?_of_ref (hid : x.documents.get? (.str name) = none) :
    x.get? (.str name) = (x.idOfRef.get? (.str name)).bind x.documents.get? := by
  rw [get?, hid]

theorem Led.holds (h : x.Led) (hid : x.documents.get? (.str name) = none) (hd : x.get? (.str name) = some d) :
    x.Holds name d := by
  rw [get?_of_ref hid] at hd
  obtain ⟨k, hk, hd⟩ := Option.bind_eq_some_iff.1 hd
  obtain ⟨e, ref, he, href, hr⟩ := h _ _ hk
  obtain rfl := Option.some.inj (hd.symm.trans he)
  obtain rfl := (Key.str_beq ref name).1 hr
  exact ⟨⟨k, hd⟩, Document.get?_of_ref? (Document.refKey?_eq_str_iff.1 href)⟩

theorem Led.finds_iff (h : x.Led) (hid : x.documents.get? (.str name) = none) :
    (∃ d, x.get? (.str name) = some d) ↔ x.Knows (.str name) = true := by
  rw [get?_of_ref hid, Knows]
  cases hk : x.idOfRef.get? (.str name) with
  | none => simp
  | some k =>
    obtain ⟨d, -, hd, -⟩ := h _ _ hk
    simp [hd]

theorem Led.answers_iff (h : x.Led) :
    x.Answers name ↔ x.documents.contains (.str name) = true ∨ x.Knows (.str name) = true ∨ ∀ d,
      ¬ x.Holds name d := by
  unfold Answers
  rw [OrderedMap.contains_eq]
  cases hid : x.documents.get? (.str name) with
  | some d => simp [get?_of_id hid]
  | none =>
    rw [← h.finds_iff hid]
    cases hd : x.get? (.str name) with
    | some d => simp [h.holds hid hd]
    | none => simp

end Symbols

/-! ## Changes of the store -/

namespace Store

section

variable {Q : Symbols → Prop}

abbrev OfSymbols (Q : Symbols → Prop) (x : Store) : Prop := Q x.symbols

theorem keeps_symbols_inSymbols {α : Type} {y : Act Symbols α} (h : Keeps Q y) :
    Keeps (OfSymbols Q) (inSymbols y) :=
  .part h (fun _ h => h) fun _ _ _ h => h

theorem keeps_symbols_put (hput : ∀ id d, Keeps Q (Symbols.put id d)) (document : Value) :
    Keeps (OfSymbols Q) (put document) := by
  refine .bind (.lift _) fun id => .bind (.lift _) fun d => .bind (keeps_symbols_inSymbols (hput id d)) fun _ => ?_
  split
  · exact .bind (.lift _) fun _ => .modify fun _ h => h
  · exact .pure _

theorem keeps_symbols_putKey (k : EdgeKey) : Keeps (OfSymbols Q) (modify (·.putKey k)) := .modify fun _ h => h

theorem keeps_symbols_putRow (r : LedgerRow) : Keeps (OfSymbols Q) (modify (·.putRow r)) := .modify fun _ h => h

def loadRest (data : Value) : Act Store Unit := do
  (← Act.ofOutcome (part data "edges")).forM fun v => do
    let key ← Act.ofOutcome (edgeKey v)
    modify (·.putKey key)
  (← Act.ofOutcome (part data "metadata")).forM fun v => do
    let row ← Act.ofOutcome (LedgerRow.ofValue v)
    modify (·.putRow row)

theorem keeps_symbols_loadRest (data : Value) : Keeps (OfSymbols Q) (loadRest data) := by
  refine .bind (.ofOutcome _) fun es => ?_
  refine .bind (.forM (fun v => .bind (.ofOutcome _) keeps_symbols_putKey) es) fun _ => ?_
  refine .bind (.ofOutcome _) fun rows => ?_
  exact .forM (fun v => .bind (.ofOutcome _) keeps_symbols_putRow) rows

/-- What storing and dropping keep of the symbols, and what holds of none, every change keeps. -/
theorem Change.keeps_symbols (hnone : Q {}) (hput : ∀ id d, Keeps Q (Symbols.put id d))
    (hdrop : ∀ p, Keeps Q (Symbols.drop p)) (c : Change) : Keeps (OfSymbols Q) c.act := by
  cases c with
  | documents all => exact .forM (keeps_symbols_put hput) all
  | edges all => exact .forM (fun e => .bind (.lift _) keeps_symbols_putKey) all
  | row r => exact keeps_symbols_putRow r
  | noRows => exact .modify fun _ h => h
  | withoutFile repo path => exact .discard (.bind (keeps_symbols_inSymbols (hdrop _)) fun _ => .pure _)
  | withoutRepo repo =>
    exact .discard (.bind (keeps_symbols_inSymbols (hdrop _)) fun refs => .bind (.modify fun _ h => h) fun _ =>
      .bind (.lift _) fun _ => .bind (.modify fun _ h => h) fun _ => .pure _)
  | withoutWorkspace workspace =>
    exact .discard (.bind (keeps_symbols_inSymbols (hdrop _)) fun refs =>
      .bind (.modify fun _ h => h) fun _ => .pure _)
  | clear => exact .modify fun _ _ => hnone
  | load data =>
    refine .bind (.modify fun _ _ => hnone) fun _ => .bind (.lift _) fun ds => ?_
    exact .bind (.forM (keeps_symbols_put hput) ds) fun _ => keeps_symbols_loadRest data

end

theorem led_after {x : Store} (h : x.symbols.Led) (cs : List Change) : (x.after cs).symbols.Led := by
  induction cs generalizing x with
  | nil => exact h
  | cons c cs ih => exact ih (c.keeps_symbols .empty Symbols.keeps_led_put Symbols.keeps_led_drop x h)

/-! ## What is known after changes -/

def mentionsOfPut (x : Store) (v : Value) : List Mention :=
  match Document.idOf v, v with
  | .ok id, .obj d => x.symbols.mentionsOfPut id d
  | _, _ => []

/-- The mentions up to the first document that cannot be stored. -/
def mentionsOfPutAll : Store → List Value → List Mention
  | _, [] => []
  | x, v :: vs => x.mentionsOfPut v ++ match (put v).on x with
    | (.ok _, y) => mentionsOfPutAll y vs
    | (.error _, _) => []

def Change.mentions (x : Store) : Change → List Mention
  | documents all => x.mentionsOfPutAll all
  | edges _ | row _ | noRows => []
  | withoutFile repo path => x.symbols.mentionsOfDrop (Document.ofFile repo path)
  | withoutRepo repo => x.symbols.mentionsOfDrop (Document.ofRepo repo)
  | withoutWorkspace workspace => x.symbols.mentionsOfDrop (Document.ofWorkspace workspace)
  | clear => [.cleared]
  | load data => .cleared :: match part data "symbols" with
    | .ok all => mentionsOfPutAll {} all
    | .error _ => []

def mentions : Store → List Change → List Mention
  | _, [] => []
  | x, c :: cs => c.mentions x ++ mentions (c.act.on x).2 cs

theorem symbols_bind {α β : Type} {z : Act Store α} {f : α → Act Store β}
    (hf : ∀ a y, Keeps (OfSymbols (· = y)) (f a)) (x : Store) :
    ((z >>= f).on x).2.symbols = (z.on x).2.symbols := by
  rw [Act.on_bind]
  split
  · rename_i a y hy
    rw [hy]
    exact hf a y.symbols y rfl
  · rename_i e y hy
    rw [hy]

theorem symbols_discard {α : Type} (z : Act Store α) (x : Store) :
    ((Functor.discard z).on x).2.symbols = (z.on x).2.symbols := symbols_bind (fun _ _ => .pure _) x

theorem knows_put (v : Value) (x : Store) (r : Key) :
    ((put v).on x).2.symbols.Knows r = told (x.mentionsOfPut v) r (x.symbols.Knows r) := by
  unfold put mentionsOfPut
  rw [Act.on_bind, Act.on_liftOutcome]
  cases hid : Document.idOf v with
  | error f => rfl
  | ok id =>
    obtain ⟨d, rfl⟩ := obj_of_idOf hid
    dsimp only
    rw [Act.on_bind, Act.on_liftOutcome]
    refine (congrArg (Symbols.Knows · r) (symbols_bind (fun _ y => ?_) x)).trans (x.symbols.knows_put id d r)
    split
    · exact .bind (.lift _) fun _ => .modify fun _ h => h
    · exact .pure _

theorem knows_putAll (r : Key) (vs : List Value) (x : Store) :
    ((putAll vs).on x).2.symbols.Knows r = told (x.mentionsOfPutAll vs) r (x.symbols.Knows r) := by
  induction vs generalizing x with
  | nil => rfl
  | cons v vs ih =>
    have hput := knows_put v x r
    rw [putAll, Act.on_forM_cons, Act.on_bind, mentionsOfPutAll, told_append, ← hput]
    cases (put v).on x with | mk o y =>
    cases o with
    | ok u => exact ih y
    | error f => rfl

theorem knows_change (r : Key) (c : Change) (x : Store) :
    (c.act.on x).2.symbols.Knows r = told (c.mentions x) r (x.symbols.Knows r) := by
  have hdrop : ∀ {α : Type} (p : Document → Bool) (f : List Key → Act Store α),
      (∀ refs y, Keeps (OfSymbols (· = y)) (f refs)) →
      ((Functor.discard (inSymbols (Symbols.drop p) >>= f)).on x).2.symbols.Knows r =
        told (x.symbols.mentionsOfDrop p) r (x.symbols.Knows r) := by
    intro α p f hf
    rw [symbols_discard, symbols_bind hf]
    exact x.symbols.knows_drop p r
  have hedges : ∀ all : List Edge, ((all.forM putEdge).on x).2.symbols = x.symbols := fun all =>
    Keeps.forM (P := OfSymbols (· = x.symbols)) (fun e => .bind (.lift _) keeps_symbols_putKey) all x rfl
  cases c with
  | documents all => exact knows_putAll r all x
  | edges all => exact congrArg (Symbols.Knows · r) (hedges all)
  | row _ => rfl
  | noRows => rfl
  | withoutFile repo path => exact hdrop _ _ fun _ _ => .pure _
  | withoutRepo repo =>
    exact hdrop _ _ fun refs y => .bind (.modify fun _ h => h) fun _ => .bind (.lift _) fun _ =>
      .bind (.modify fun _ h => h) fun _ => .pure _
  | withoutWorkspace workspace => exact hdrop _ _ fun refs y => .bind (.modify fun _ h => h) fun _ => .pure _
  | clear => rfl
  | load data =>
    show ((Store.load data).on x).2.symbols.Knows r = told (Change.mentions x (.load data)) r (x.symbols.Knows r)
    unfold Store.load Change.mentions
    rw [Act.on_bind, Act.on_set]
    dsimp only
    rw [Act.on_bind, Act.on_liftOutcome]
    cases part data "symbols" with
    | error f => rfl
    | ok ds =>
      have hrest := symbols_bind (z := putAll ds) (fun _ y => keeps_symbols_loadRest (Q := (· = y)) data) {}
      exact (congrArg (Symbols.Knows · r) hrest).trans (knows_putAll r ds {})

theorem knows_after (r : Key) (cs : List Change) (x : Store) :
    (x.after cs).symbols.Knows r = told (x.mentions cs) r (x.symbols.Knows r) := by
  induction cs generalizing x with
  | nil => rfl
  | cons c cs ih =>
    rw [mentions, told_append, ← knows_change]
    exact ih (c.act.on x).2

/-- However documents come and go: a name leads to the document with this id, or else to none but a
stored one with this reference, and it leads to one exactly if the last mention of the reference gave
it. So one that is held is missed exactly if it was taken with another document that had it. -/
theorem answers_after_iff (cs : List Change) (name : String) :
    let x := (after {} cs).symbols
    let known := told (mentions {} cs) (.str name) false
    (∀ d, x.documents.get? (.str name) = some d → x.get? (.str name) = some d) ∧
      (x.documents.get? (.str name) = none → (∀ d, x.get? (.str name) = some d → x.Holds name d) ∧
        ((∃ d, x.get? (.str name) = some d) ↔ known = true)) ∧
      (x.Answers name ↔ x.documents.contains (.str name) = true ∨ known = true ∨ ∀ d, ¬ x.Holds name d) := by
  intro x known
  have hled : x.Led := led_after .empty cs
  have hknown : x.Knows (.str name) = known := knows_after (.str name) cs {}
  rw [← hknown]
  exact ⟨fun d => Symbols.get?_of_id, fun hid => ⟨fun d => hled.holds hid, hled.finds_iff hid⟩, hled.answers_iff⟩

def namesake (id workspace repo : String) : Document :=
  [("id", id), ("workspace_id", workspace), ("repo_id", repo), ("file_path", "x.py"), ("symbol_name", "f"),
   ("symbol_ref", "ws/a/b/x.py#f")]

/-- The first document is still there, but its reference went with the second one. -/
theorem unanswered_beside_namesake :
    ¬ (after {} [.documents [.obj (namesake "1" "ws" "a/b")], .documents [.obj (namesake "2" "ws/a" "b")],
      .withoutRepo "b"]).symbols.Answers "ws/a/b/x.py#f" := by
  intro h
  have hstored : (after {} [.documents [.obj (namesake "1" "ws" "a/b")],
    .documents [.obj (namesake "2" "ws/a" "b")],
      .withoutRepo "b"]).symbols.documents.get? (.str "1") = some (namesake "1" "ws" "a/b") := by rfl
  exact h _ ⟨⟨_, hstored⟩, rfl⟩

end Store

end Graph

end SourceAtlas
