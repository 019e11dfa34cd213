import SourceAtlas.Proofs.Traversals
import SourceAtlas.Proofs.Zeros

/-!
# Counterparts

Two searches find the same where the steps out of nodes that correspond do. So
what a query of stored edges answers, up to order, depends on the edges alone:
not on the numbers of nodes, on the order of arcs or on nodes that no edge
touches.
-/

namespace SourceAtlas.Graph

open Json (Key Value)

/-! ## Related lists and outcomes -/

/-- Whether each member of one list is related to some member of the other one, both ways. -/
def Meet {α β : Type} (R : α → β → Prop) (as : List α) (bs : List β) : Prop :=
  (∀ a ∈ as, ∃ b ∈ bs, R a b) ∧ ∀ b ∈ bs, ∃ a ∈ as, R a b

theorem Meet.map {α β γ δ : Type} {R : γ → δ → Prop} {as : List α} {bs : List β} {f : α → γ} {g : β → δ}
    (h : Meet (fun a b => R (f a) (g b)) as bs) : Meet R (as.map f) (bs.map g) := by
  simpa [Meet] using h

def Agree {α β : Type} (R : α → β → Prop) : Outcome α → Outcome β → Prop
  | .ok a, .ok b => R a b
  | .error f, .error g => f = g
  | _, _ => False

theorem Agree.map {α β γ δ : Type} {R : α → β → Prop} {S : γ → δ → Prop} {f : α → γ} {g : β → δ} {o : Outcome α}
    {o' : Outcome β} (h : Agree R o o') (hfg : ∀ a b, o = .ok a → o' = .ok b → R a b → S (f a) (g b)) :
    Agree S (o.map f) (o'.map g) := by
  cases o with
  | ok a =>
    cases o' with
    | ok b => exact hfg a b rfl rfl h
    | error e => exact h.elim
  | error d =>
    cases o' with
    | ok b => exact h.elim
    | error e => exact h

/-! ## Searches that may fail -/

section
variable {ν : Type} [BEq ν] {steps : ν → Outcome (List (Step ν))} {f : Failure} {seen frontier : List ν}

theorem expand_of_ok (hall : ∀ x ∈ frontier, steps x = .ok (taken steps x)) (depth : Nat) :
    let new := fresh seen ((frontier.flatMap (taken steps)).map Step.next)
    expand steps (depth + 1) seen frontier = (do
      let later ← expand steps depth (seen ++ new) new
      pure ⟨new ++ later.nodes, frontier.flatMap (taken steps) ++ later.steps⟩) := by
  intro new
  cases frontier with
  | nil => cases depth <;> rfl
  | cons x xs =>
    rw [expand, mapM_ok_map hall]
    · rfl
    · simp

theorem expand_of_error (h : ∀ x, steps x = .ok (taken steps x) ∨ steps x = .error f) {x : ν} (hx : x ∈ frontier)
    (hf : steps x = .error f) (depth : Nat) : expand steps (depth + 1) seen frontier = .error f := by
  have hmap : frontier.mapM steps = .error f := by
    cases hmap : frontier.mapM steps with
    | ok all =>
      obtain ⟨l, hl⟩ := exists_mapM_ok_iff.1 ⟨all, hmap⟩ x hx
      cases hl.symm.trans hf
    | error g =>
      obtain ⟨y, -, hy⟩ := exists_of_mapM_error hmap
      rcases h y with hok | hg
      · cases hok.symm.trans hy
      · obtain rfl := Except.error.inj (hy.symm.trans hg)
        rfl
  cases frontier with
  | nil => cases hx
  | cons y ys =>
    rw [expand, hmap]
    · rfl
    · simp

omit [BEq ν] in
theorem frontier_cases (h : ∀ x, steps x = .ok (taken steps x) ∨ steps x = .error f) (frontier : List ν) :
    (∀ x ∈ frontier, steps x = .ok (taken steps x)) ∨ ∃ x ∈ frontier, steps x = .error f := by
  by_cases hall : ∀ x ∈ frontier, steps x = .ok (taken steps x)
  · exact .inl hall
  · push Not at hall
    obtain ⟨x, hx, hne⟩ := hall
    exact .inr ⟨x, hx, (h x).resolve_left hne⟩

theorem search_of_nil {start : ν} (h : steps start = .ok []) (depth : Nat) :
    search steps depth start = .ok ⟨[start], []⟩ := by
  cases depth with
  | zero => rfl
  | succ depth =>
    have htaken : taken steps start = [] := by
      rw [taken, h]
      rfl
    unfold search
    rw [expand_of_ok (by simpa [htaken] using h)]
    cases depth <;> simp [htaken, fresh, expand, bind, pure, Except.bind, Except.pure]

theorem head_of_search {depth : Nat} {start : ν} {v : Visit ν} (h : search steps depth start = .ok v) :
    ∃ rest, v.nodes = start :: rest := by
  obtain ⟨found, -, hv⟩ := bind_eq_ok.1 h
  obtain rfl := Except.ok.inj hv
  exact ⟨found.nodes, rfl⟩

/-- An expansion fails if it gets to a node whose steps cannot be told, and only then. -/
theorem expand_cases (h : ∀ x, steps x = .ok (taken steps x) ∨ steps x = .error f) (depth : Nat)
    (seen frontier : List ν) :
    (∀ x ∈ frontier ++ spread (taken steps) depth seen frontier, steps x = .ok (taken steps x)) ∧
        expand steps (depth + 1) seen frontier = .ok ⟨spread (taken steps) (depth + 1) seen frontier,
          (frontier ++ spread (taken steps) depth seen frontier).flatMap (taken steps)⟩ ∨
      (∃ x ∈ frontier ++ spread (taken steps) depth seen frontier, steps x = .error f) ∧
        expand steps (depth + 1) seen frontier = .error f := by
  induction depth generalizing seen frontier with
  | zero =>
    rcases frontier_cases h frontier with hall | ⟨x, hx, hf⟩
    · refine .inl ⟨by simpa [spread] using hall, ?_⟩
      rw [expand_of_ok hall]
      simp [expand, spread, bind, pure, Except.bind, Except.pure]
    · exact .inr ⟨⟨x, List.mem_append_left _ hx, hf⟩, expand_of_error h hx hf 0⟩
  | succ depth ih =>
    rcases frontier_cases h frontier with hall | ⟨x, hx, hf⟩
    · rw [expand_of_ok hall]
      -- what comes of the next frontier comes of this one
      rcases ih (seen ++ fresh seen ((frontier.flatMap (taken steps)).map Step.next))
          (fresh seen ((frontier.flatMap (taken steps)).map Step.next))
        with ⟨hlater, hexpand⟩ | ⟨⟨x, hx, hf⟩, hexpand⟩
      · refine .inl ⟨fun x hx => ?_, ?_⟩
        · rcases List.mem_append.1 hx with hx | hx
          · exact hall x hx
          · exact hlater x hx
        · rw [hexpand]
          simp [spread, bind, pure, Except.bind, Except.pure]
      · refine .inr ⟨⟨x, List.mem_append_right _ hx, hf⟩, ?_⟩
        rw [hexpand]
        rfl
    · exact .inr ⟨⟨x, List.mem_append_left _ hx, hf⟩, expand_of_error h hx hf _⟩

theorem search_cases (h : ∀ x, steps x = .ok (taken steps x) ∨ steps x = .error f) (depth : Nat) (start : ν) :
    (∀ x ∈ expanded (taken steps) depth start, steps x = .ok (taken steps x)) ∧
        search steps depth start = .ok ⟨reached (taken steps) depth start,
          (expanded (taken steps) depth start).flatMap (taken steps)⟩ ∨
      (∃ x ∈ expanded (taken steps) depth start, steps x = .error f) ∧ search steps depth start = .error f := by
  cases depth with
  | zero => exact .inl ⟨by simp [expanded], rfl⟩
  | succ depth =>
    unfold search
    rcases expand_cases h depth [start] [start] with ⟨hall, hexpand⟩ | ⟨hsome, hexpand⟩
    · refine .inl ⟨hall, ?_⟩
      rw [hexpand]
      rfl
    · refine .inr ⟨hsome, ?_⟩
      rw [hexpand]
      rfl

end

/-! ## Searches that correspond -/

section
variable {ν μ : Type} [BEq ν] [LawfulBEq ν] [BEq μ] [LawfulBEq μ] {R : ν → μ → Prop} {S : Edge → Edge → Prop}
  {steps : ν → Outcome (List (Step ν))} {steps' : μ → Outcome (List (Step μ))} {a : ν} {b : μ} {n depth : Nat}

theorem mem_reached {out : ν → List (Step ν)} {x : ν} : x ∈ reached out depth a ↔ Reaches out a depth x := by
  have huniform : Uniform out := by
    intro x y hxy s hs
    obtain rfl := eq_of_beq hxy
    exact ⟨s, hs, BEq.rfl⟩
  rw [← contains_reached huniform]
  simp

theorem mem_expanded {out : ν → List (Step ν)} {x : ν} :
    x ∈ expanded out depth a ↔ 0 < depth ∧ Reaches out a (depth - 1) x := by
  cases depth with
  | zero => simp [expanded]
  | succ depth => simp [expanded, mem_reached]

/-- Whether the steps of one search are told by another one: where it fails, so does the other one,
and each of its steps has a counterpart. -/
structure Mimics (R : ν → μ → Prop) (S : Edge → Edge → Prop) (steps : ν → Outcome (List (Step ν)))
    (steps' : μ → Outcome (List (Step μ))) : Prop where
  fails : ∀ {x y g}, R x y → steps x = .error g → steps' y = .error g
  follow : ∀ {x y}, R x y → ∀ s ∈ taken steps x, ∃ t ∈ taken steps' y, R s.next t.next ∧ S s.edge t.edge

namespace Mimics

variable (h : Mimics R S steps steps')
include h

theorem reaches (hab : R a b) {x : ν} (hx : Reaches (taken steps) a n x) :
    ∃ y, R x y ∧ Reaches (taken steps') b n y := by
  induction hx with
  | here hx =>
    obtain rfl := eq_of_beq hx
    exact ⟨b, hab, .here BEq.rfl⟩
  | step _ hs hx ih =>
    obtain rfl := eq_of_beq hx
    obtain ⟨y, hxy, hy⟩ := ih
    obtain ⟨t, ht, hnext, -⟩ := h.follow hxy _ hs
    exact ⟨t.next, hnext, .step hy ht BEq.rfl⟩

theorem exists_reached (hab : R a b) :
    ∀ x ∈ reached (taken steps) depth a, ∃ y ∈ reached (taken steps') depth b, R x y := by
  intro x hx
  obtain ⟨y, hxy, hy⟩ := h.reaches hab (mem_reached.1 hx)
  exact ⟨y, mem_reached.2 hy, hxy⟩

theorem exists_expanded (hab : R a b) :
    ∀ x ∈ expanded (taken steps) depth a, ∃ y ∈ expanded (taken steps') depth b, R x y := by
  intro x hx
  obtain ⟨hdepth, hx⟩ := mem_expanded.1 hx
  obtain ⟨y, hxy, hy⟩ := h.reaches hab hx
  exact ⟨y, mem_expanded.2 ⟨hdepth, hy⟩, hxy⟩

theorem exists_step (hab : R a b) : ∀ s ∈ (expanded (taken steps) depth a).flatMap (taken steps),
    ∃ t ∈ (expanded (taken steps') depth b).flatMap (taken steps'), S s.edge t.edge := by
  intro s hs
  obtain ⟨x, hx, hs⟩ := List.mem_flatMap.1 hs
  obtain ⟨y, hy, hxy⟩ := h.exists_expanded hab x hx
  obtain ⟨t, ht, -, hst⟩ := h.follow hxy s hs
  exact ⟨t, List.mem_flatMap.2 ⟨y, hy, ht⟩, hst⟩

/-- Searches that tell each other's steps find nodes and steps that correspond, or fail alike. -/
theorem search_agree (h' : Mimics (flip R) (flip S) steps' steps) {f : Failure}
    (hsteps : ∀ x, steps x = .ok (taken steps x) ∨ steps x = .error f)
    (hsteps' : ∀ y, steps' y = .ok (taken steps' y) ∨ steps' y = .error f) (hab : R a b) (depth : Nat) :
    Agree (fun v w => Meet R v.nodes w.nodes ∧ Meet (fun s t => S s.edge t.edge) v.steps w.steps)
      (search steps depth a) (search steps' depth b) := by
  rcases search_cases hsteps depth a with ⟨hok, hsearch⟩ | ⟨⟨x, hx, hf⟩, hsearch⟩
  · rcases search_cases hsteps' depth b with ⟨-, hsearch'⟩ | ⟨⟨y, hy, hf⟩, -⟩
    · rw [hsearch, hsearch']
      exact ⟨⟨h.exists_reached hab, h'.exists_reached hab⟩, h.exists_step hab, h'.exists_step hab⟩
    -- the node that fails has a counterpart, which would fail as well
    · obtain ⟨x, hx, hxy⟩ := h'.exists_expanded hab y hy
      cases (hok x hx).symm.trans (h'.fails hxy hf)
  · rcases search_cases hsteps' depth b with ⟨hok', -⟩ | ⟨-, hsearch'⟩
    · obtain ⟨y, hy, hxy⟩ := h.exists_expanded hab x hx
      cases (hok' y hy).symm.trans (h.fails hxy hf)
    · rw [hsearch, hsearch']
      rfl

end Mimics

end

/-! ## Stored edges -/

def hollowEnds : Failure := .badValue "Edge endpoints must be non-empty"

def SameEdge (e f : Edge) : Prop := e.parallel f = true ∧ e.confidence = f.confidence

structure Traversal.Alike (t u : Traversal) : Prop where
  nodes : Meet (fun v w => v.same w = true) t.nodes u.nodes
  edges : Meet SameEdge t.edges u.edges

theorem make_eq (s t : Value) (type : EdgeType) : Edge.make s t type =
    if h : s.truthy ∧ t.truthy then .ok ⟨s, t, type, 1.0, h.1, h.2⟩ else .error hollowEnds := by
  unfold Edge.make
  split
  · rfl
  · rfl

theorem make_agree {r s r' s' : Key} (hr : (r == r') = true) (hs : (s == s') = true) (type : EdgeType) :
    Agree SameEdge (Edge.make r.toValue s.toValue type) (Edge.make r'.toValue s'.toValue type) := by
  rw [make_eq, make_eq]
  by_cases hends : r.toValue.truthy = true ∧ s.toValue.truthy = true
  · have hends' := hends
    rw [Key.truthy_congr hr, Key.truthy_congr hs] at hends'
    rw [dif_pos hends, dif_pos hends']
    refine ⟨?_, rfl⟩
    simp [Edge.parallel, Key.same_toValue, hr, hs]
  · have hends' := hends
    rw [Key.truthy_congr hr, Key.truthy_congr hs] at hends'
    rw [dif_neg hends, dif_neg hends']
    rfl

namespace Edges

open Multigraph (Bears Carries)

def Twins (x z : Edges) (m n : Nat) : Prop := ∃ r, x.graph.Bears m r ∧ z.graph.Bears n r

section
variable {x z : Edges} {m n m' n' : Nat} {start : Key} {direction : Direction} {type : Option EdgeType}

theorem Twins.symm (h : Twins x z m n) : Twins z x n m := by
  obtain ⟨r, hm, hn⟩ := h
  exact ⟨r, hn, hm⟩

theorem Twins.bears (h : Twins x z m n) {r : Key} (hn : z.graph.Bears n r) : x.graph.Bears m r := by
  obtain ⟨s, hm, hs⟩ := h
  exact hm.congr (hs.beq hn)

theorem valueAt_of_bears {r : Key} (h : x.graph.Bears n r) : ∃ q, x.valueAt n = q.toValue ∧ (q == r) = true := by
  obtain ⟨q, hq, hqr⟩ := h
  exact ⟨q, by rw [valueAt, hq]; rfl, hqr⟩

theorem Twins.make_agree (h : Twins x z m n) (h' : Twins x z m' n') (type : EdgeType) :
    Agree SameEdge (Edge.make (x.valueAt m) (x.valueAt m') type) (Edge.make (z.valueAt n) (z.valueAt n') type) := by
  obtain ⟨r, hm, hn⟩ := h
  obtain ⟨r', hm', hn'⟩ := h'
  obtain ⟨q, hq, hqr⟩ := valueAt_of_bears hm
  obtain ⟨p, hp, hpr⟩ := valueAt_of_bears hn
  obtain ⟨q', hq', hqr'⟩ := valueAt_of_bears hm'
  obtain ⟨p', hp', hpr'⟩ := valueAt_of_bears hn'
  rw [hq, hp, hq', hp']
  exact Graph.make_agree (BEq.trans hqr (BEq.symm hpr)) (BEq.trans hqr' (BEq.symm hpr')) type

theorem Twins.eq_iff (hx : x.Sound) (hz : z.Sound) (h : Twins x z m n) (h' : Twins x z m' n') :
    m' = m ↔ n' = n := by
  obtain ⟨r, hm, hn⟩ := h
  constructor
  · rintro rfl
    exact hz.eq_of_bears (h'.symm.bears hm) hn
  · rintro rfl
    exact hx.eq_of_bears (h'.bears hn) hm

/-! ## Arcs -/

theorem mem_incident {a : Arc} : a ∈ x.incident direction n ↔ a ∈ x.graph.arcs ∧
    (direction ≠ .inbound ∧ a.source = n ∨ direction ≠ .outbound ∧ a.target = n) := by
  cases direction <;> simp [incident, Multigraph.outgoing, Multigraph.incoming, and_or_left]

def stepAlong (x : Edges) (node : Nat) (a : Arc) : Outcome (Step Nat) := do
  pure ⟨if a.source == node then a.target else a.source,
    ← Edge.make (x.valueAt a.source) (x.valueAt a.target) a.type⟩

theorem steps_eq (x : Edges) (direction : Direction) (type : Option EdgeType) (node : Nat) :
    x.steps direction type node =
      ((x.incident direction node).filter fun a => type.all (· == a.type)).mapM (x.stepAlong node) := rfl

theorem stepAlong_cases (x : Edges) (node : Nat) (a : Arc) :
    (∃ s, x.stepAlong node a = .ok s) ∨ x.stepAlong node a = .error hollowEnds := by
  unfold stepAlong
  rw [make_eq]
  split
  · exact .inl ⟨_, rfl⟩
  · exact .inr rfl

theorem steps_cases (x : Edges) (direction : Direction) (type : Option EdgeType) (node : Nat) :
    x.steps direction type node = .ok (taken (x.steps direction type) node) ∨
      x.steps direction type node = .error hollowEnds := by
  unfold taken
  cases hsteps : x.steps direction type node with
  | ok l => exact .inl rfl
  | error g =>
    obtain ⟨a, -, ha⟩ := exists_of_mapM_error hsteps
    rcases x.stepAlong_cases node a with ⟨s, hs⟩ | hf
    · cases hs.symm.trans ha
    · obtain rfl := Except.error.inj (hf.symm.trans ha)
      exact .inr rfl

structure Counterpart (x z : Edges) (m n : Nat) (a b : Arc) : Prop where
  source : Twins x z a.source b.source
  target : Twins x z a.target b.target
  type : a.type = b.type
  next : Twins x z (if a.source == m then a.target else a.source) (if b.source == n then b.target else b.source)

theorem Counterpart.symm {a b : Arc} (h : Counterpart x z m n a b) : Counterpart z x n m b a :=
  ⟨h.source.symm, h.target.symm, h.type.symm, h.next.symm⟩

theorem Counterpart.agree {a b : Arc} (h : Counterpart x z m n a b) :
    Agree (fun s t => Twins x z s.next t.next ∧ SameEdge s.edge t.edge) (x.stepAlong m a) (z.stepAlong n b) := by
  unfold stepAlong
  rw [← h.type]
  exact (h.source.make_agree h.target a.type).map fun e e' _ _ he => ⟨h.next, he⟩

section
variable (hx : x.Sound) (hz : z.Sound) (hkeys : ∀ k, x.keys.contains k = z.keys.contains k)
include hx hz hkeys

theorem exists_arc {a : Arc} (ha : a ∈ x.graph.arcs) :
    ∃ b ∈ z.graph.arcs, Twins x z a.source b.source ∧ Twins x z a.target b.target ∧ a.type = b.type := by
  obtain ⟨k, hk, hak⟩ := exists_of_mem_left hx.carried ha
  have hcontains : z.keys.contains k = true := by
    rw [← hkeys]
    exact contains_of_mem hk
  obtain ⟨j, hj, hkj⟩ := List.contains_iff_exists_mem_beq.1 hcontains
  obtain ⟨b, hb, hbj⟩ := exists_of_mem_right hz.carried hj
  have hbk := hbj.congr (BEq.symm hkj)
  exact ⟨b, hb, ⟨k.1, hak.source, hbk.source⟩, ⟨k.2.1, hak.target, hbk.target⟩, hak.type.trans hbk.type.symm⟩

theorem exists_counterpart (hmn : Twins x z m n) {a : Arc}
    (ha : a ∈ (x.incident direction m).filter fun a => type.all (· == a.type)) :
    ∃ b ∈ (z.incident direction n).filter fun b => type.all (· == b.type), Counterpart x z m n a b := by
  obtain ⟨ha, htype⟩ := List.mem_filter.1 ha
  obtain ⟨ha, hend⟩ := mem_incident.1 ha
  obtain ⟨b, hb, hsource, htarget, hab⟩ := exists_arc hx hz hkeys ha
  have hsources := hmn.eq_iff hx hz hsource
  refine ⟨b, List.mem_filter.2 ⟨mem_incident.2 ⟨hb, ?_⟩, by rwa [← hab]⟩, hsource, htarget, hab, ?_⟩
  · rwa [← hsources, ← hmn.eq_iff hx hz htarget]
  · by_cases h : a.source = m
    · simpa [h, hsources.1 h] using htarget
    · simpa [h, mt hsources.2 h] using hsource

theorem steps_fail (hmn : Twins x z m n) {g : Failure} (hm : x.steps direction type m = .error g) :
    z.steps direction type n = .error g := by
  rw [steps_eq] at hm
  obtain ⟨a, ha, hf⟩ := exists_of_mapM_error hm
  obtain ⟨b, hb, hab⟩ := exists_counterpart hx hz hkeys hmn ha
  have hagree := hab.agree
  rw [hf] at hagree
  rcases z.steps_cases direction type n with hok | hg
  · rw [steps_eq] at hok
    obtain ⟨s, hs⟩ := exists_mapM_ok_iff.1 ⟨_, hok⟩ b hb
    rw [hs] at hagree
    exact hagree.elim
  · rcases x.stepAlong_cases m a with ⟨s, hs⟩ | hf'
    · cases hs.symm.trans hf
    · obtain rfl := Except.error.inj (hf'.symm.trans hf)
      exact hg

theorem exists_taken (hmn : Twins x z m n) {s : Step Nat} (hs : s ∈ taken (x.steps direction type) m) :
    ∃ t ∈ taken (z.steps direction type) n, ∃ a b, Counterpart x z m n a b ∧ x.stepAlong m a = .ok s ∧
      z.stepAlong n b = .ok t := by
  rcases x.steps_cases direction type m with hm | hm
  · rcases z.steps_cases direction type n with hn | hn
    · rw [steps_eq] at hm hn
      obtain ⟨a, ha, has⟩ := exists_of_mem_right (mapM_ok_iff.1 hm) hs
      obtain ⟨b, hb, hab⟩ := exists_counterpart hx hz hkeys hmn ha
      obtain ⟨t, ht, hbt⟩ := exists_of_mem_left (mapM_ok_iff.1 hn) hb
      exact ⟨t, ht, a, b, hab, has, hbt⟩
    · cases hm.symm.trans (steps_fail hz hx (fun k => (hkeys k).symm) hmn.symm hn)
  · rw [taken, hm] at hs
    cases hs

theorem Sound.mimics (direction : Direction) (type : Option EdgeType) :
    Mimics (Twins x z) SameEdge (x.steps direction type) (z.steps direction type) where
  fails hmn hm := steps_fail hx hz hkeys hmn hm
  follow hmn s hs := by
    obtain ⟨t, ht, a, b, hab, has, hbt⟩ := exists_taken hx hz hkeys hmn hs
    have hagree := hab.agree
    rw [has, hbt] at hagree
    exact ⟨t, ht, hagree⟩

theorem Sound.mimics_back (direction : Direction) (type : Option EdgeType) :
    Mimics (flip (Twins x z)) (flip SameEdge) (z.steps direction type) (x.steps direction type) where
  fails hnm hn := steps_fail hz hx (fun k => (hkeys k).symm) (Twins.symm hnm) hn
  follow hnm t ht := by
    obtain ⟨s, hs, b, a, hba, hbt, has⟩ := exists_taken hz hx (fun k => (hkeys k).symm) (Twins.symm hnm) ht
    have hagree := hba.symm.agree
    rw [has, hbt] at hagree
    exact ⟨s, hs, hagree⟩

theorem exists_index {k : EdgeKey} (hk : x.keys.contains k = true)
    (hend : (k.1 == start) = true ∨ (k.2.1 == start) = true) :
    ∃ m n, x.index.get? start = some m ∧ z.index.get? start = some n := by
  have hnode : ∀ {y : Edges}, y.Sound → y.keys.contains k = true → ∃ m, y.index.get? start = some m := by
    intro y hy hk
    obtain ⟨j, hj, hkj⟩ := List.contains_iff_exists_mem_beq.1 hk
    obtain ⟨a, -, haj⟩ := exists_of_mem_right hy.carried hj
    have hak := haj.congr (BEq.symm hkj)
    rcases hend with hend | hend
    · exact ⟨a.source, (hy.indexed _ _).2 (hak.source.congr hend)⟩
    · exact ⟨a.target, (hy.indexed _ _).2 (hak.target.congr hend)⟩
  obtain ⟨m, hm⟩ := hnode hx hk
  obtain ⟨n, hn⟩ := hnode hz (hkeys k ▸ hk)
  exact ⟨m, n, hm, hn⟩

end

/-! ## Queries -/

theorem Twins.same (h : Twins x z m n) : (x.valueAt m).same (z.valueAt n) = true := by
  obtain ⟨r, hm, hn⟩ := h
  obtain ⟨q, hq, hqr⟩ := valueAt_of_bears hm
  obtain ⟨p, hp, hpr⟩ := valueAt_of_bears hn
  rw [hq, hp, Key.same_toValue]
  exact BEq.trans hqr (BEq.symm hpr)

-- the first node is shown as the start that was asked for, which may have another form than the one it bears
theorem exists_same (hn : z.graph.Bears n start) {ms ns : List Nat}
    (hms : ∀ m ∈ ms, ∃ n' ∈ n :: ns, Twins x z m n') :
    ∀ v ∈ start.toValue :: ms.map x.valueAt, ∃ w ∈ start.toValue :: ns.map z.valueAt,
      v.same w = true ∧ w.same v = true := by
  intro v hv
  rcases List.mem_cons.1 hv with rfl | hv
  · have hsame : start.toValue.same start.toValue = true := by
      rw [Key.same_toValue]
      exact BEq.rfl
    exact ⟨start.toValue, List.mem_cons_self, hsame, hsame⟩
  · obtain ⟨m, hm, rfl⟩ := List.mem_map.1 hv
    obtain ⟨n', hn', htwins⟩ := hms m hm
    rcases List.mem_cons.1 hn' with rfl | hn'
    · obtain ⟨q, hq, hqr⟩ := valueAt_of_bears (htwins.bears hn)
      refine ⟨start.toValue, List.mem_cons_self, ?_⟩
      rw [hq, Key.same_toValue, Key.same_toValue]
      exact ⟨hqr, BEq.symm hqr⟩
    · exact ⟨z.valueAt n', List.mem_cons_of_mem _ (List.mem_map_of_mem hn'), htwins.same, htwins.symm.same⟩

def shown (x : Edges) (start : Key) (found : Visit Nat) : Traversal :=
  ⟨start.toValue :: found.nodes.tail.map x.valueAt, found.steps.map Step.edge⟩

theorem query_of_index (hm : x.index.get? start = some m) (depth : Int) :
    x.query start (.int depth) type direction =
    (search (x.steps direction type) depth.toNat m).map (x.shown start) := by
  unfold query
  rw [hm, asCount_int]
  cases hv : search (x.steps direction type) depth.toNat m with
  | ok v => simp [hv, shown, bind, pure, Except.bind, Except.pure, Except.map]
  | error f => simp [hv, bind, Except.bind, Except.map]

/-- From a reference that no edge touches nothing else is found, whether it has a node or not. -/
theorem Sound.query_of_apart (hx : x.Sound)
    (hapart : ∀ k, x.keys.contains k = true → (k.1 == start) = false ∧ (k.2.1 == start) = false) (depth : Int) :
    x.query start (.int depth) type direction = .ok (.at start.toValue) := by
  cases hi : x.index.get? start with
  | none =>
    rw [query, hi]
    rfl
  | some i =>
    have hbears := (hx.indexed start i).1 hi
    have hnone : x.incident direction i = [] := by
      apply List.eq_nil_iff_forall_not_mem.2
      intro a ha
      obtain ⟨ha, hend⟩ := mem_incident.1 ha
      obtain ⟨k, hk, hak⟩ := exists_of_mem_left hx.carried ha
      obtain ⟨hsource, htarget⟩ := hapart k (contains_of_mem hk)
      rcases hend with ⟨-, rfl⟩ | ⟨-, rfl⟩
      · exact Bool.false_ne_true (hsource.symm.trans (hak.source.beq hbears))
      · exact Bool.false_ne_true (htarget.symm.trans (hak.target.beq hbears))
    have hsteps : x.steps direction type i = .ok [] := by
      rw [steps_eq, hnone]
      rfl
    rw [query_of_index hi, search_of_nil hsteps]
    rfl

theorem exists_shown (hn : z.graph.Bears n start) {v w : Visit Nat} {ms ns : List Nat} (hv : v.nodes = m :: ms)
    (hw : w.nodes = n :: ns) (hnodes : ∀ m' ∈ v.nodes, ∃ n' ∈ w.nodes, Twins x z m' n') :
    ∀ r ∈ (x.shown start v).nodes, ∃ s ∈ (z.shown start w).nodes, r.same s = true ∧ s.same r = true := by
  rw [hv, hw] at hnodes
  simp only [shown, hv, hw, List.tail_cons]
  exact exists_same hn fun m' h => hnodes m' (List.mem_cons_of_mem _ h)

/-- What a query answers, as sets, depends on the edges alone. -/
theorem Sound.query_agree (hx : x.Sound) (hz : z.Sound) (hkeys : ∀ k, x.keys.contains k = z.keys.contains k)
    (start : Key) (depth : Int) (type : Option EdgeType) (direction : Direction) :
    Agree Traversal.Alike (x.query start (.int depth) type direction)
      (z.query start (.int depth) type direction) := by
  by_cases htouched : ∃ k, x.keys.contains k = true ∧ ((k.1 == start) = true ∨ (k.2.1 == start) = true)
  · obtain ⟨k, hk, hend⟩ := htouched
    obtain ⟨m, n, hm, hn⟩ := exists_index hx hz hkeys hk hend
    have hmstart := (hx.indexed start m).1 hm
    have hnstart := (hz.indexed start n).1 hn
    have hagree := (hx.mimics hz hkeys direction type).search_agree (hx.mimics_back hz hkeys direction type)
      (x.steps_cases direction type) (z.steps_cases direction type) ⟨start, hmstart, hnstart⟩ depth.toNat
    rw [query_of_index hm, query_of_index hn]
    refine hagree.map fun v w hv hw ⟨⟨hforth, hback⟩, hsteps⟩ => ?_
    obtain ⟨ms, hms⟩ := head_of_search hv
    obtain ⟨ns, hns⟩ := head_of_search hw
    refine ⟨⟨fun r hr => ?_, fun s hs => ?_⟩, Meet.map hsteps⟩
    · obtain ⟨s, hs, hsame, -⟩ := exists_shown hnstart hms hns hforth r hr
      exact ⟨s, hs, hsame⟩
    · have hearlier : ∀ n' ∈ w.nodes, ∃ m' ∈ v.nodes, Twins z x n' m' := by
        intro n' h
        obtain ⟨m', hm', htwins⟩ := hback n' h
        exact ⟨m', hm', htwins.symm⟩
      obtain ⟨r, hr, -, hsame⟩ := exists_shown hmstart hns hms hearlier s hs
      exact ⟨r, hr, hsame⟩
  · have hapart : ∀ k, x.keys.contains k = true → (k.1 == start) = false ∧ (k.2.1 == start) = false := by
      intro k hk
      push Not at htouched
      simpa using htouched k hk
    rw [hx.query_of_apart hapart, hz.query_of_apart (fun k hk => hapart k ((hkeys k).trans hk))]
    refine ⟨⟨fun v hv => ⟨v, hv, ?_⟩, fun v hv => ⟨v, hv, ?_⟩⟩, ⟨by simp [Traversal.at], by simp [Traversal.at]⟩⟩
    all_goals
      obtain rfl := List.mem_singleton.1 hv
      rw [Key.same_toValue]
      exact BEq.rfl

end

end Edges

end SourceAtlas.Graph
