import SourceAtlas.Graph.Symbols
import SourceAtlas.Proofs.Acts
import SourceAtlas.Proofs.Maps

/-!
# Storing and dropping symbol documents

What `put` and `drop` do to the documents, and when they succeed. The only
thing that can go wrong is a reference that is no key.
-/

namespace SourceAtlas

open Json (Value Key)

/-- The reference of a document, if it has one, can be looked up. -/
def Document.Referable (d : Document) : Prop := ∀ ref, d.ref? = some ref → (Key.ofValue? ref).isSome

theorem asKey_cases (v : Value) :
    (∃ k, Key.ofValue? v = some k ∧ asKey v = .ok k) ∨ (Key.ofValue? v = none ∧ ∃ f, asKey v = .error f) := by
  unfold asKey
  cases Key.ofValue? v with
  | none => exact .inr ⟨rfl, _, rfl⟩
  | some k => exact .inl ⟨k, rfl, rfl⟩

namespace Graph.Symbols

theorem documents_forget (d : Document) (x : Symbols) : ((forget d).on x).2.documents = x.documents := by
  unfold forget
  cases d.ref? with
  | none => rfl
  | some ref =>
    simp only [Act.on_bind, Act.on_liftOutcome]
    cases asKey ref <;> rfl

theorem forget_ok_iff (d : Document) (x : Symbols) : ((forget d).on x).1 = .ok () ↔ d.Referable := by
  unfold forget Document.Referable
  cases d.ref? with
  | none => simp
  | some ref =>
    simp only [Act.on_bind, Act.on_liftOutcome, Option.some.injEq, forall_eq']
    obtain ⟨k, hk, hv⟩ | ⟨hk, f, hv⟩ := asKey_cases ref <;> simp [hk, hv]

def settle (id : Key) (d : Document) : Act Symbols Unit := do
  modify fun x => { x with documents := x.documents.insert id d }
  if let some ref := d.ref? then
    let ref ← asKey ref
    modify fun x => { x with idOfRef := x.idOfRef.insert ref id }

theorem on_put (id : Key) (d : Document) (x : Symbols) :
    (put id d).on x = match x.documents.get? id with
      | none => (settle id d).on x
      | some previous => (forget previous >>= fun _ => settle id d).on x := by
  unfold put settle
  rw [Act.on_bind, Act.on_get]
  dsimp only
  cases x.documents.get? id <;> rfl

theorem documents_settle (id : Key) (d : Document) (x : Symbols) :
    ((settle id d).on x).2.documents = x.documents.insert id d := by
  unfold settle
  rw [Act.on_bind, Act.on_modify]
  cases d.ref? with
  | none => rfl
  | some ref =>
    simp only [Act.on_bind, Act.on_liftOutcome]
    cases asKey ref <;> rfl

theorem settle_ok_iff (id : Key) (d : Document) (x : Symbols) :
    ((settle id d).on x).1 = .ok () ↔ d.Referable := by
  unfold settle Document.Referable
  rw [Act.on_bind, Act.on_modify]
  cases d.ref? with
  | none => simp
  | some ref =>
    simp only [Act.on_bind, Act.on_liftOutcome, Option.some.injEq, forall_eq']
    obtain ⟨k, hk, hv⟩ | ⟨hk, f, hv⟩ := asKey_cases ref <;> simp [hk, hv]

theorem put_ok_iff (id : Key) (d : Document) (x : Symbols) :
    ((put id d).on x).1 = .ok () ↔
      (∀ previous, x.documents.get? id = some previous → previous.Referable) ∧ d.Referable := by
  rw [on_put]
  cases hp : x.documents.get? id with
  | none => simp [settle_ok_iff]
  | some previous =>
    simp only [Option.some.injEq, forall_eq']
    rw [Act.on_bind]
    have hf := forget_ok_iff previous x
    generalize (forget previous).on x = r at hf ⊢
    obtain ⟨o, y⟩ := r
    cases o with
    | error f => simpa using fun h => absurd (hf.2 h) (by simp)
    | ok u =>
      have hr : previous.Referable := hf.1 rfl
      simp [settle_ok_iff, hr]

theorem documents_put {id : Key} {d : Document} {x : Symbols} (h : ((put id d).on x).1 = .ok ()) :
    ((put id d).on x).2.documents = x.documents.insert id d := by
  rw [on_put] at h ⊢
  cases hp : x.documents.get? id with
  | none => exact documents_settle id d x
  | some previous =>
    rw [hp] at h
    simp only [Act.on_bind] at h ⊢
    have hd := documents_forget previous x
    generalize (forget previous).on x = r at h hd ⊢
    obtain ⟨o, y⟩ := r
    cases o with
    | error f => cases h
    | ok u =>
      dsimp only at hd ⊢
      rw [documents_settle, hd]

/-! ## Dropping -/

theorem documents_remove (refs : List Key) (id : Key) (d : Document) (x : Symbols) :
    ((remove refs id d).on x).2.documents = x.documents.erase id := by
  unfold remove
  rw [Act.on_bind, Act.on_modify]
  cases d.ref? with
  | none => rfl
  | some ref =>
    simp only [Act.on_bind, Act.on_liftOutcome]
    cases asKey ref <;> rfl

theorem remove_ok_iff (refs : List Key) (id : Key) (d : Document) (x : Symbols) :
    (∃ r, ((remove refs id d).on x).1 = .ok r) ↔ d.Referable := by
  unfold remove Document.Referable
  rw [Act.on_bind, Act.on_modify]
  cases d.ref? with
  | none => simp
  | some ref =>
    simp only [Act.on_bind, Act.on_liftOutcome, Option.some.injEq, forall_eq']
    obtain ⟨k, hk, hv⟩ | ⟨hk, f, hv⟩ := asKey_cases ref <;> simp [hk, hv]

/-- Removing entries one by one stops at the first reference that is no key. -/
theorem removeAll (es : List (Key × Document)) : ∀ (refs : List Key) (x : Symbols),
    ((∃ r, ((es.foldlM (fun refs e => remove refs e.1 e.2) refs : Act Symbols _).on x).1 = .ok r) ↔
      ∀ e ∈ es, Document.Referable e.2) ∧
    ((∀ e ∈ es, Document.Referable e.2) →
      ((es.foldlM (fun refs e => remove refs e.1 e.2) refs : Act Symbols _).on x).2.documents =
        es.foldl (fun m e => m.erase e.1) x.documents) := by
  induction es with
  | nil => intro refs x; simp
  | cons e es ih =>
    intro refs x
    simp only [List.foldlM_cons, Act.on_bind, List.forall_mem_cons, List.foldl_cons]
    have hok := remove_ok_iff refs e.1 e.2 x
    have hd := documents_remove refs e.1 e.2 x
    generalize (remove refs e.1 e.2).on x = r at hok hd ⊢
    obtain ⟨o, y⟩ := r
    cases o with
    | error f =>
      have hr : ¬ Document.Referable e.2 := fun h => by simpa using hok.2 h
      simp [hr]
    | ok r =>
      have hr : Document.Referable e.2 := hok.1 ⟨r, rfl⟩
      dsimp only at hd ⊢
      rw [← hd]
      exact ⟨by simp only [hr, true_and]; exact (ih r y).1, fun h => (ih r y).2 h.2⟩

theorem drop_ok_iff (p : Document → Bool) (x : Symbols) :
    (∃ refs, ((drop p).on x).1 = .ok refs) ↔
      ∀ k d, x.documents.get? k = some d → p d = true → d.Referable := by
  unfold drop
  rw [Act.on_bind, Act.on_get]
  refine (removeAll _ [] x).1.trans ⟨fun h k d hk hp => ?_, fun h e he => ?_⟩
  · obtain ⟨j, hj, -⟩ := OrderedMap.mem_of_get? hk
    exact h (j, d) (List.mem_filter.2 ⟨hj, hp⟩)
  · obtain ⟨he, hp⟩ := List.mem_filter.1 he
    exact h e.1 e.2 (OrderedMap.get?_of_mem he) hp

theorem documents_drop {p : Document → Bool} {x : Symbols}
    (h : ∀ k d, x.documents.get? k = some d → p d = true → d.Referable) :
    ((drop p).on x).2.documents = x.documents.keep (!p ·) := by
  unfold drop
  rw [Act.on_bind, Act.on_get]
  refine ((removeAll _ [] x).2 fun e he => ?_).trans (OrderedMap.foldl_erase x.documents p)
  obtain ⟨he, hp⟩ := List.mem_filter.1 he
  exact h e.1 e.2 (OrderedMap.get?_of_mem he) hp

/-! ## What stays true of the documents -/

section

variable {P : OrderedMap Key Document → Prop}

theorem keeps_put {id : Key} {d : Document} (hinsert : ∀ m, P m → P (m.insert id d)) :
    Act.Keeps (fun x => P x.documents) (put id d) := by
  have hforget : ∀ previous, Act.Keeps (fun x => P x.documents) (forget previous) := by
    intro previous x hx
    rwa [documents_forget]
  have hsettle : Act.Keeps (fun x => P x.documents) (settle id d) := by
    intro x hx
    rw [documents_settle]
    exact hinsert _ hx
  intro x hx
  rw [on_put]
  cases x.documents.get? id with
  | none => exact hsettle x hx
  | some previous => exact (hforget previous).bind (fun _ => hsettle) x hx

theorem keeps_drop (herase : ∀ m id, P m → P (m.erase id)) (p : Document → Bool) :
    Act.Keeps (fun x => P x.documents) (drop p) := by
  intro x hx
  unfold drop
  rw [Act.on_bind, Act.on_get]
  refine Act.Keeps.foldlM (P := fun x : Symbols => P x.documents) (fun refs e y hy => ?_) _ _ x hx
  show P ((remove refs e.1 e.2).on y).2.documents
  rw [documents_remove]
  exact herase _ _ hy

end

end Graph.Symbols

end SourceAtlas
