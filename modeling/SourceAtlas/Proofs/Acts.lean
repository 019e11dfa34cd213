import Mathlib.Data.List.Forall2
import SourceAtlas.Failure

/-!
# Running actions

What an action answers and the state that it leaves, by the way in which it is
put together. An action that fails keeps the state that it reached.
-/

namespace SourceAtlas

namespace Act

variable {σ τ α β : Type}

def on (x : Act σ α) (s : σ) : Outcome α × σ := x.run s

@[simp] theorem on_pure (a : α) (s : σ) : (pure a : Act σ α).on s = (.ok a, s) := rfl

@[simp] theorem on_throw (f : Failure) (s : σ) : (throw f : Act σ α).on s = (.error f, s) := rfl

@[simp] theorem on_get (s : σ) : (get : Act σ σ).on s = (.ok s, s) := rfl

@[simp] theorem on_set (s t : σ) : (set t : Act σ PUnit).on s = (.ok ⟨⟩, t) := rfl

@[simp] theorem on_modify (f : σ → σ) (s : σ) : (modify f : Act σ Unit).on s = (.ok (), f s) := rfl

@[simp] theorem on_ofOutcome (x : Outcome α) (s : σ) : (ofOutcome x : Act σ α).on s = (x, s) := rfl

theorem of_ofOutcome {x : Outcome α} {s t : σ} {a : α} (h : (ofOutcome x : Act σ α).on s = (.ok a, t)) :
    x = .ok a ∧ s = t :=
  Prod.mk.inj h

@[simp] theorem on_liftOutcome (x : Outcome α) (s : σ) : (liftM x : Act σ α).on s = (x, s) := by
  cases x <;> rfl

@[simp] theorem on_attempt (x : Act σ α) (s : σ) : (attempt x).on s = (.ok (x.on s).1, (x.on s).2) := rfl

@[simp] theorem on_within (get : τ → σ) (set : τ → σ → τ) (x : Act σ α) (t : τ) :
    (within get set x).on t = ((x.on (get t)).1, set t (x.on (get t)).2) := rfl

theorem on_bind (x : Act σ α) (f : α → Act σ β) (s : σ) :
    (x >>= f).on s = match x.on s with
      | (.ok a, t) => (f a).on t
      | (.error e, t) => (.error e, t) := by
  change (ExceptT.run (x >>= f)).run s = _
  rw [ExceptT.run_bind, StateT.run_bind]
  change _ = match (ExceptT.run x).run s with
    | (.ok a, t) => (f a).on t
    | (.error e, t) => (.error e, t)
  obtain ⟨o, t⟩ := (ExceptT.run x).run s
  cases o <;> rfl

theorem on_bind_ok {x : Act σ α} {f : α → Act σ β} {s t : σ} {a : α} (h : x.on s = (.ok a, t)) :
    (x >>= f).on s = (f a).on t := by
  rw [on_bind, h]

theorem on_discard (x : Act σ α) (s : σ) : (discard x).on s = match x.on s with
    | (.ok _, t) => (.ok (), t)
    | (.error e, t) => (.error e, t) := by
  have h : (discard x).on s = (x >>= fun _ => pure ()).on s := rfl
  rw [h, on_bind]
  rfl

theorem of_discard {x : Act σ α} {s t : σ} (h : (discard x).on s = (.ok (), t)) : ∃ v, x.on s = (.ok v, t) := by
  rw [on_discard] at h
  split at h
  · rename_i v t hx
    exact ⟨v, (Prod.mk.inj h).2 ▸ hx⟩
  · cases h

theorem on_forM_nil (f : α → Act σ Unit) (s : σ) : (([] : List α).forM f).on s = (.ok (), s) := rfl

theorem on_forM_cons (f : α → Act σ Unit) (a : α) (as : List α) (s : σ) :
    ((a :: as).forM f).on s = (f a >>= fun _ => as.forM f).on s := rfl

theorem on_mapM_attempt : ∀ (xs : List (Act σ α)) (s : σ), ∃ os t, (xs.mapM attempt).on s = (.ok os, t)
  | [], s => ⟨[], s, rfl⟩
  | x :: xs, s => by
    obtain ⟨os, t, h⟩ := on_mapM_attempt xs (x.on s).2
    exact ⟨(x.on s).1 :: os, t, by simp only [List.mapM_cons, on_bind, on_attempt, h, on_pure]⟩

theorem on_mapM_lift (f : α → Outcome β) : ∀ (as : List α) (s : σ),
    (as.mapM fun a => (liftM (f a) : Act σ β)).on s = (as.mapM f, s)
  | [], _ => rfl
  | a :: as, s => by
    rw [List.mapM_cons, List.mapM_cons, on_bind, on_liftOutcome]
    cases f a with
    | error e => rfl
    | ok b =>
      dsimp only
      rw [on_bind, on_mapM_lift f as s]
      cases as.mapM f <;> rfl

theorem on_forM_ofOutcome : ∀ (os : List (Outcome Unit)) (s : σ), ∃ o, (os.forM ofOutcome).on s = (o, s)
  | [], _ => ⟨_, rfl⟩
  | .error _ :: _, _ => ⟨_, rfl⟩
  | .ok _ :: os, s => on_forM_ofOutcome os s

theorem bind_ok {x : Act σ α} {f : α → Act σ β} {s t : σ} {b : β} (h : (x >>= f).on s = (.ok b, t)) :
    ∃ a m, x.on s = (.ok a, m) ∧ (f a).on m = (.ok b, t) := by
  rw [on_bind] at h
  split at h
  · exact ⟨_, _, ‹_›, h⟩
  · cases h

/-! ## What actions keep -/

/-- Whether what holds before an action holds after it, also when the action fails. -/
def Keeps (P : σ → Prop) (x : Act σ α) : Prop := ∀ s, P s → P (x.on s).2

section

variable {P : σ → Prop}

theorem Keeps.pure (a : α) : Keeps P (Pure.pure a : Act σ α) := fun _ h => h

theorem Keeps.throw (f : Failure) : Keeps P (throwThe Failure f : Act σ α) := fun _ h => h

theorem Keeps.get : Keeps P (MonadState.get : Act σ σ) := fun _ h => h

theorem Keeps.ofOutcome (o : Outcome α) : Keeps P (Act.ofOutcome o) := fun _ h => h

theorem Keeps.lift (o : Outcome α) : Keeps P (liftM o : Act σ α) := fun s h => by
  rw [on_liftOutcome]
  exact h

theorem Keeps.modify {f : σ → σ} (hf : ∀ s, P s → P (f s)) : Keeps P (modify f : Act σ Unit) := hf

theorem Keeps.bind {x : Act σ α} {f : α → Act σ β} (hx : Keeps P x) (hf : ∀ a, Keeps P (f a)) :
    Keeps P (x >>= f) := by
  intro s hs
  have hs := hx s hs
  rw [on_bind]
  split
  · rename_i a t ht
    rw [ht] at hs
    exact hf a t hs
  · rename_i e t ht
    rwa [ht] at hs

theorem Keeps.discard {x : Act σ α} (hx : Keeps P x) : Keeps P (Functor.discard x) := .bind hx fun _ => .pure _

theorem Keeps.attempt {x : Act σ α} (hx : Keeps P x) : Keeps P (Act.attempt x) := hx

theorem Keeps.mapM_attempt {xs : List (Act σ α)} (h : ∀ x ∈ xs, Keeps P x) : Keeps P (xs.mapM Act.attempt) := by
  induction xs with
  | nil => exact .pure _
  | cons x xs ih =>
    obtain ⟨hx, hxs⟩ := List.forall_mem_cons.1 h
    rw [List.mapM_cons]
    exact .bind hx.attempt fun _ => .bind (ih hxs) fun _ => .pure _

theorem Keeps.forM {f : α → Act σ Unit} (hf : ∀ a, Keeps P (f a)) : ∀ as : List α, Keeps P (as.forM f)
  | [] => .pure _
  | a :: as => .bind (hf a) fun _ => Keeps.forM hf as

theorem Keeps.foldlM {f : β → α → Act σ β} (hf : ∀ b a, Keeps P (f b a)) :
    ∀ (as : List α) (b : β), Keeps P (as.foldlM f b)
  | [], _ => .pure _
  | a :: as, b => .bind (hf b a) fun b => Keeps.foldlM hf as b

theorem Keeps.within {P : τ → Prop} {get : τ → σ} {set : τ → σ → τ} (x : Act σ α)
    (hset : ∀ t s, P t → P (set t s)) :
    Keeps P (within get set x) := fun t ht => hset t _ ht

/-- What holds of a larger state because of one part holds as long as it does of that part. -/
theorem Keeps.part {Q : τ → Prop} {get : τ → σ} {set : τ → σ → τ} {x : Act σ α} (hx : Keeps P x)
    (hget : ∀ t, Q t → P (get t)) (hset : ∀ t s, Q t → P s → Q (set t s)) : Keeps Q (Act.within get set x) := by
  intro t ht
  exact hset t _ ht (hx _ (hget t ht))

/-- What comes after a value that is read may rely on the value. -/
theorem Keeps.lift_bind {o : Outcome α} {f : α → Act σ β} (hf : ∀ a, o = .ok a → Keeps P (f a)) :
    Keeps P (liftM o >>= f) := by
  intro s hs
  rw [on_bind, on_liftOutcome]
  cases ho : o with
  | error e => exact hs
  | ok a => exact hf a ho s hs

theorem Keeps.of_bind {o : Outcome α} {f : α → Act σ β} (hf : ∀ a, o = .ok a → Keeps P (f a)) :
    Keeps P (Act.ofOutcome o >>= f) := by
  intro s hs
  rw [on_bind, on_ofOutcome]
  cases ho : o with
  | error e => exact hs
  | ok a => exact hf a ho s hs

/-- Whether what holds before an action holds after it when the action returns. -/
def Secures (P : σ → Prop) (x : Act σ α) : Prop := ∀ s t a, P s → x.on s = (.ok a, t) → P t

theorem Keeps.secures {x : Act σ α} (hx : Keeps P x) : Secures P x := by
  intro s t a hs h
  have hafter := hx s hs
  rwa [h] at hafter

theorem Secures.bind {x : Act σ α} {f : α → Act σ β} (hx : Secures P x) (hf : ∀ a, Secures P (f a)) :
    Secures P (x >>= f) := by
  intro s t b hs h
  obtain ⟨a, m, ha, hb⟩ := bind_ok h
  exact hf a m t b (hx s m a hs ha) hb

theorem Secures.forM {f : α → Act σ Unit} (hf : ∀ a, Secures P (f a)) : ∀ as : List α, Secures P (as.forM f)
  | [] => (Keeps.pure _).secures
  | a :: as => .bind (hf a) fun _ => Secures.forM hf as

end

/-! ## Actions on states that are related -/

/-- Whether an action answers alike in states that are related, and leaves such states again. -/
def Respects (R : σ → σ → Prop) (x : Act σ α) : Prop :=
  ∀ s t, R s t → (x.on s).1 = (x.on t).1 ∧ R (x.on s).2 (x.on t).2

section

variable {R : σ → σ → Prop}

theorem Respects.pure (a : α) : Respects R (Pure.pure a : Act σ α) := fun _ _ h => ⟨rfl, h⟩

theorem Respects.throw (f : Failure) : Respects R (throwThe Failure f : Act σ α) := fun _ _ h => ⟨rfl, h⟩

theorem Respects.ofOutcome (o : Outcome α) : Respects R (Act.ofOutcome o) := fun _ _ h => ⟨rfl, h⟩

theorem Respects.lift (o : Outcome α) : Respects R (liftM o : Act σ α) := fun s t h => by
  rw [on_liftOutcome, on_liftOutcome]
  exact ⟨rfl, h⟩

theorem Respects.modify {f : σ → σ} (hf : ∀ s t, R s t → R (f s) (f t)) : Respects R (modify f : Act σ Unit) :=
  fun s t h => ⟨rfl, hf s t h⟩

theorem Respects.bind {x : Act σ α} {f : α → Act σ β} (hx : Respects R x) (hf : ∀ a, Respects R (f a)) :
    Respects R (x >>= f) := by
  intro s t h
  obtain ⟨hsame, hafter⟩ := hx s t h
  rw [on_bind, on_bind]
  generalize x.on s = p at hsame hafter
  generalize x.on t = q at hsame hafter
  obtain ⟨o, s⟩ := p
  obtain ⟨o', t⟩ := q
  obtain rfl : o = o' := hsame
  cases o with
  | error f => exact ⟨rfl, hafter⟩
  | ok a => exact hf a s t hafter

/-- A state that is read has to be alike only as far as it is used. -/
theorem Respects.get {k : σ → Act σ α} (hk : ∀ s t, R s t → k s = k t) (h : ∀ s, Respects R (k s)) :
    Respects R (MonadState.get >>= k) := by
  intro s t hst
  rw [on_bind_ok (on_get s), on_bind_ok (on_get t), hk s t hst]
  exact h t s t hst

theorem Respects.attempt {x : Act σ α} (hx : Respects R x) : Respects R (Act.attempt x) := fun s t h => by
  obtain ⟨hsame, hafter⟩ := hx s t h
  rw [on_attempt, on_attempt, hsame]
  exact ⟨rfl, hafter⟩

theorem Respects.discard {x : Act σ α} (hx : Respects R x) : Respects R (Functor.discard x) :=
  .bind hx fun _ => .pure _

theorem Respects.forM {f : α → Act σ Unit} : ∀ {as : List α}, (∀ a ∈ as, Respects R (f a)) → Respects R (as.forM f)
  | [], _ => .pure _
  | _ :: _, h => .bind (h _ List.mem_cons_self) fun _ => Respects.forM fun a ha => h a (List.mem_cons_of_mem _ ha)

theorem Respects.mapM {f : α → Act σ β} : ∀ {as : List α}, (∀ a ∈ as, Respects R (f a)) → Respects R (as.mapM f)
  | [], _ => .pure _
  | a :: as, h => by
    rw [List.mapM_cons]
    refine .bind (h a List.mem_cons_self) fun _ => .bind ?_ fun _ => .pure _
    exact Respects.mapM fun b hb => h b (List.mem_cons_of_mem _ hb)

theorem Respects.foldlM {f : β → α → Act σ β} (hf : ∀ b a, Respects R (f b a)) : ∀ (as : List α) (b : β),
    Respects R (as.foldlM f b)
  | [], _ => .pure _
  | a :: as, b => .bind (hf b a) fun b => Respects.foldlM hf as b

theorem Respects.filterM {p : α → Act σ Bool} (hp : ∀ a, Respects R (p a)) (as : List α) :
    Respects R (as.filterM p) := by
  have haux : ∀ (as acc : List α), Respects R (List.filterAuxM p as acc) := by
    intro as
    induction as with
    | nil => exact fun acc => .pure acc
    | cons a as ih => exact fun acc => .bind (hp a) fun b => ih _
  exact .bind (haux as []) fun _ => .pure _

theorem Respects.of_eq (x : Act σ α) : Respects Eq x := fun _ _ h => h ▸ ⟨rfl, rfl⟩

theorem Respects.within {S : τ → τ → Prop} {get : τ → σ} {set : τ → σ → τ} {x : Act σ α} (hx : Respects R x)
    (hget : ∀ s t, S s t → R (get s) (get t)) (hset : ∀ s t s' t', S s t → R s' t' → S (set s s') (set t t')) :
    Respects S (within get set x) := fun s t h => by
  obtain ⟨hsame, hafter⟩ := hx _ _ (hget s t h)
  exact ⟨hsame, hset s t _ _ h hafter⟩

end

end Act

/-- What does not fail is an answer. -/
theorem eq_ok {α : Type} {x : Outcome α} (default : α) (h : x.toBool = true) :
    x = .ok (x.toOption.getD default) := by
  cases x with
  | error f => cases h
  | ok a => rfl

theorem eq_error {α : Type} {x : Outcome α} (h : x.toBool = false) : ∃ f, x = .error f := by
  cases x with
  | error f => exact ⟨f, rfl⟩
  | ok a => cases h

theorem eq_of_fst {α β : Type} {x : α × β} {a : α} (h : x.1 = a) : x = (a, x.2) := h ▸ rfl

theorem Act.on_eq_ok {σ α : Type} {x : Act σ α} {s : σ} (default : α) (h : (x.on s).1.toBool = true) :
    x.on s = (.ok ((x.on s).1.toOption.getD default), (x.on s).2) :=
  Prod.ext (eq_ok default h) rfl

theorem bind_eq_ok {α β : Type} {x : Outcome α} {f : α → Outcome β} {b : β} :
    (x >>= f) = .ok b ↔ ∃ a, x = .ok a ∧ f a = .ok b := by
  cases x <;> simp [bind, Except.bind]

theorem bind_eq_error {α β : Type} {x : Outcome α} {f : α → Outcome β} {g : Failure} :
    (x >>= f) = .error g ↔ x = .error g ∨ ∃ a, x = .ok a ∧ f a = .error g := by
  cases x <;> simp [bind, Except.bind]

theorem pure_eq_ok {α : Type} {a b : α} : (pure a : Outcome α) = .ok b ↔ a = b :=
  ⟨Except.ok.inj, congrArg Except.ok⟩

theorem foldlM_error {α β : Type} {f : β → α → Outcome β} {e : Failure} (hf : ∀ b a g, f b a = .error g → g = e) :
    ∀ {as : List α} {b : β} {g : Failure}, as.foldlM f b = .error g → g = e
  | [], b, g, h => by cases h
  | a :: as, b, g, h => by
    rw [List.foldlM_cons] at h
    rcases bind_eq_error.1 h with h | ⟨c, -, h⟩
    · exact hf b a g h
    · exact foldlM_error hf h

theorem exists_of_mapM_error {α β : Type} {f : α → Outcome β} :
    ∀ {as : List α} {g : Failure}, as.mapM f = .error g →
    ∃ a ∈ as, f a = .error g
  | [], g, h => by cases h
  | a :: as, g, h => by
    rw [List.mapM_cons] at h
    rcases bind_eq_error.1 h with h | ⟨b, -, h⟩
    · exact ⟨a, List.mem_cons_self, h⟩
    rcases bind_eq_error.1 h with h | ⟨bs, -, h⟩
    · obtain ⟨a', ha', h⟩ := exists_of_mapM_error h
      exact ⟨a', List.mem_cons_of_mem _ ha', h⟩
    · cases h

theorem mapM_error {α β : Type} {f : α → Outcome β} {e : Failure} (hf : ∀ a g, f a = .error g → g = e) {as : List α}
    {g : Failure} (h : as.mapM f = .error g) : g = e := by
  obtain ⟨a, -, ha⟩ := exists_of_mapM_error h
  exact hf a g ha

theorem mapM_ok_iff {α β : Type} {f : α → Outcome β} : ∀ {xs : List α} {ys : List β},
    xs.mapM f = .ok ys ↔ List.Forall₂ (fun x y => f x = .ok y) xs ys
  | [], ys => by
    rw [List.mapM_nil, List.forall₂_nil_left_iff]
    exact ⟨fun h => (Except.ok.inj h).symm, fun h => h ▸ rfl⟩
  | x :: xs, ys => by
    rw [List.mapM_cons, List.forall₂_cons_left_iff]
    constructor
    · intro h
      cases hx : f x with
      | error e => rw [hx] at h; cases h
      | ok y =>
        cases hxs : xs.mapM f with
        | error e => rw [hx, hxs] at h; cases h
        | ok zs =>
          rw [hx, hxs] at h
          exact ⟨y, zs, rfl, mapM_ok_iff.1 hxs, (Except.ok.inj h).symm⟩
    · rintro ⟨y, zs, hx, hxs, rfl⟩
      rw [hx, mapM_ok_iff.2 hxs]
      rfl

theorem mapM_ok_map {α β : Type} {f : α → Outcome β} {g : α → β} {as : List α} (h : ∀ a ∈ as, f a = .ok (g a)) :
    as.mapM f = .ok (as.map g) := by
  rw [mapM_ok_iff, List.forall₂_map_right_iff, List.forall₂_same]
  exact h

theorem mapM_ok_of_forall₂ {α β γ : Type} {R : α → β → Prop} {T : β → γ → Prop} {f : α → Outcome γ} {as : List α}
    {bs : List β} (h : List.Forall₂ R as bs) (hf : ∀ a ∈ as, ∀ b ∈ bs, R a b → ∃ c, f a = .ok c ∧ T b c) :
    ∃ cs, as.mapM f = .ok cs ∧ List.Forall₂ T bs cs := by
  induction h with
  | nil => exact ⟨[], rfl, .nil⟩
  | cons hab _ ih =>
    obtain ⟨c, hc, ht⟩ := hf _ List.mem_cons_self _ List.mem_cons_self hab
    obtain ⟨cs, hcs, hts⟩ := ih fun a ha b hb => hf a (List.mem_cons_of_mem _ ha) b (List.mem_cons_of_mem _ hb)
    exact ⟨c :: cs, by rw [List.mapM_cons, hc, hcs]; rfl, .cons ht hts⟩

theorem exists_of_mem_left {α β : Type} {R : α → β → Prop} {as : List α} {bs : List β} (h : List.Forall₂ R as bs)
    {a : α} (ha : a ∈ as) : ∃ b ∈ bs, R a b := by
  induction h with
  | nil => cases ha
  | cons hab _ ih =>
    rcases List.mem_cons.1 ha with rfl | ha
    · exact ⟨_, List.mem_cons_self, hab⟩
    · obtain ⟨b, hb, hab⟩ := ih ha
      exact ⟨b, List.mem_cons_of_mem _ hb, hab⟩

theorem exists_of_mem_right {α β : Type} {R : α → β → Prop} {as : List α} {bs : List β} (h : List.Forall₂ R as bs)
    {b : β} (hb : b ∈ bs) : ∃ a ∈ as, R a b :=
  exists_of_mem_left h.flip hb

theorem exists_mapM_ok_iff {α β : Type} {f : α → Outcome β} {as : List α} :
    (∃ bs, as.mapM f = .ok bs) ↔ ∀ a ∈ as, ∃ b, f a = .ok b := by
  constructor
  · rintro ⟨bs, h⟩ a ha
    obtain ⟨b, -, hb⟩ := exists_of_mem_left (mapM_ok_iff.1 h) ha
    exact ⟨b, hb⟩
  · intro h
    cases has : as.mapM f with
    | ok bs => exact ⟨bs, rfl⟩
    | error g =>
      obtain ⟨a, ha, hg⟩ := exists_of_mapM_error has
      obtain ⟨b, hb⟩ := h a ha
      cases hg.symm.trans hb

theorem exists_pure_ok_iff {α β : Type} {x : Outcome α} {f : α → β} :
    (∃ b, (do pure (f (← x)) : Outcome β) = .ok b) ↔ ∃ a, x = .ok a := by
  cases x with
  | error g => exact ⟨nofun, nofun⟩
  | ok a => exact iff_of_true ⟨f a, rfl⟩ ⟨a, rfl⟩

theorem map_eq_map_iff {α β γ : Type} {f : α → γ} {g : β → γ} : ∀ {as : List α} {bs : List β},
    as.map f = bs.map g ↔ List.Forall₂ (fun a b => f a = g b) as bs
  | [], bs => by simp [eq_comm]
  | a :: as, [] => by simp
  | a :: as, b :: bs => by
    rw [List.map_cons, List.map_cons, List.cons.injEq, List.forall₂_cons, map_eq_map_iff]

end SourceAtlas
