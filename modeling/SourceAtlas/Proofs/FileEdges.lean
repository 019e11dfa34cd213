import SourceAtlas.Proofs.Examining
import SourceAtlas.Proofs.Traversals

/-!
# Edges of files

Files yield imports out of the file node, and calls out of the references of
symbols. So each reference has edges of one type only, and what depends on it
is listed in one way, in whatever order the edges came.
-/

namespace SourceAtlas

open Json (Value Key)

/-! ## Edges that files yield -/

namespace Graph

def usualType (r : Key) : EdgeType := if r == .str Dependency.fileNode then .imports else .calls

structure Usual (k : EdgeKey) : Prop where
  named : Named k
  type : k.2.2 = usualType k.1

theorem usualType_congr {r s : Key} (h : (r == s) = true) : usualType r = usualType s := by
  rw [usualType, usualType, BEq.congr_left h]

theorem Usual.of_beq {j k : EdgeKey} (h : Usual k) (hjk : (j == k) = true) : Usual j := h.named.eq_of_beq hjk ▸ h

end Graph

namespace Dependency

open SourceAtlas.Graph (Usual)

theorem ref_ne_fileNode (f : FileIdentity) (name : String) : f.ref name ≠ fileNode := by
  intro h
  have hslash : '/' ∈ (f.ref name).toList := by
    simp [FileIdentity.ref, symbolRef]
  rw [h] at hslash
  exact absurd hslash (by decide)

theorem of_make {source target confidence : Value} {type : EdgeType} {e : Edge}
    (h : Edge.make source target type confidence = .ok e) :
    e.source = source ∧ e.target = target ∧ e.type = type := by
  unfold Edge.make at h
  split at h
  · obtain ⟨c, -, h⟩ := bind_eq_ok.1 h
    obtain rfl := pure_eq_ok.1 h
    exact ⟨rfl, rfl, rfl⟩
  · cases h

/-- An edge between two texts has them as its ends. -/
theorem usual_of_make {source target : String} {confidence : Value} {type : EdgeType} {e : Edge}
    (htype : type = Graph.usualType (.str source)) (h : Edge.make source target type confidence = .ok e) :
    ∃ k, e.key = .ok k ∧ Usual k := by
  obtain ⟨hsource, htarget, rfl⟩ := of_make h
  refine ⟨(.str source, .str target, e.type), ?_, ⟨⟨⟨source, rfl, ?_⟩, target, rfl, ?_⟩, htype⟩⟩
  · rw [Edge.key, hsource, htarget]
    rfl
  · have htruthy := e.source_truthy
    rw [hsource] at htruthy
    simpa [Value.truthy] using htruthy
  · have htruthy := e.target_truthy
    rw [htarget] at htruthy
    simpa [Value.truthy] using htruthy

theorem usual_of_edgesAt {g : Grammar} {src : Syntax.Source} {scopes : ScopeIndex} {file : FileIdentity}
    {c : Syntax.Cursor} {es : List Edge} (h : edgesAt g src scopes file c = .ok es) :
    ∀ e ∈ es, ∃ k, e.key = .ok k ∧ Usual k := by
  unfold edgesAt at h
  split at h
  · intro e he
    obtain ⟨target, -, hmake⟩ := exists_of_mem_right (mapM_ok_iff.1 h) he
    exact usual_of_make rfl hmake
  · split at h
    · dsimp only at h
      split at h
      · obtain rfl := pure_eq_ok.1 h
        intro e he
        cases he
      · rename_i enclosing _
        obtain ⟨made, hmake, h⟩ := bind_eq_ok.1 h
        obtain rfl := pure_eq_ok.1 h
        intro e he
        obtain rfl := List.mem_singleton.1 he
        have hother : ¬ (Key.str (file.ref enclosing) == .str fileNode) = true := fun hsame =>
          ref_ne_fileNode file enclosing (Key.str.inj ((Key.beq_str _ _).1 hsame))
        exact usual_of_make (if_neg hother).symm hmake
    · obtain rfl := pure_eq_ok.1 h
      intro e he
      cases he

theorem mem_foldl_addNew {new : List Edge} :
    ∀ {es : List Edge} {e : Edge}, e ∈ new.foldl addNew es → e ∈ es ∨ e ∈ new := by
  induction new with
  | nil => exact .inl
  | cons n new ih =>
    intro es e he
    rcases ih he with he | he
    · unfold addNew at he
      split at he
      · exact .inl he
      · rcases List.mem_append.1 he with he | he
        · exact .inl he
        · exact .inr (List.mem_singleton.1 he ▸ List.mem_cons_self)
    · exact .inr (List.mem_cons_of_mem n he)

/-- Each edge of a file is one of some node. -/
theorem exists_of_mem_edgesOf {language : Language} {src : Syntax.Source} {tree : Syntax.Tree}
    {symbols : List Symbol} {file : FileIdentity} {es : List Edge} {e : Edge}
    (h : edgesOf language src tree symbols file = .ok es) (he : e ∈ es) :
    ∃ g, grammar? language = some g ∧ ∃ c ∈ (Syntax.Cursor.root tree).walk, ∃ new,
      edgesAt g src (.ofSymbols (symbols.map fun s => (s.qualifiedName, s.location))) file c = .ok new ∧
      e ∈ new := by
  unfold edgesOf at h
  split at h
  · obtain rfl := pure_eq_ok.1 h
    cases he
  · rename_i g hg
    have hfold : ∀ (cs : List Syntax.Cursor) (start out : List Edge),
        (cs.foldlM (fun edges c => do
          return (← edgesAt g src
            (ScopeIndex.ofSymbols (symbols.map fun s => (s.qualifiedName, s.location))) file c).foldl
              addNew edges) start : Outcome (List Edge)) = .ok out →
        e ∈ out → e ∈ start ∨ ∃ c ∈ cs, ∃ new,
          edgesAt g src (.ofSymbols (symbols.map fun s => (s.qualifiedName, s.location))) file c = .ok new ∧
          e ∈ new := by
      intro cs
      induction cs with
      | nil =>
        intro start out h he
        rw [List.foldlM_nil] at h
        exact .inl (pure_eq_ok.1 h ▸ he)
      | cons c cs ih =>
        intro start out h he
        rw [List.foldlM_cons] at h
        obtain ⟨mid, hmid, h⟩ := bind_eq_ok.1 h
        obtain ⟨new, hnew, hmid⟩ := bind_eq_ok.1 hmid
        obtain rfl := pure_eq_ok.1 hmid
        rcases ih _ out h he with he | ⟨d, hd, hat⟩
        · rcases mem_foldl_addNew he with he | he
          · exact .inl he
          · exact .inr ⟨c, List.mem_cons_self, new, hnew, he⟩
        · exact .inr ⟨d, List.mem_cons_of_mem c hd, hat⟩
    rcases hfold _ [] es h he with he | hat
    · cases he
    · exact ⟨g, hg, hat⟩

theorem usual_of_edgesOf {language : Language} {src : Syntax.Source} {tree : Syntax.Tree} {symbols : List Symbol}
    {file : FileIdentity} {es : List Edge} (h : edgesOf language src tree symbols file = .ok es) :
    ∀ e ∈ es, ∃ k, e.key = .ok k ∧ Usual k := by
  intro e he
  obtain ⟨g, -, c, -, new, hnew, he⟩ := exists_of_mem_edgesOf h he
  exact usual_of_edgesAt hnew e he

end Dependency

namespace Atlas

open SourceAtlas.Graph (Usual)

theorem usual_of_analyse {plan : Plan} {now : Int} {o : Origin} {language : Language} {text hash : String}
    {parsed : Parsed} {y : Index.Yield} (h : analyse plan now o language text hash parsed = .ok y) :
    ∀ e ∈ y.edges, ∃ k, e.key = .ok k ∧ Usual k := by
  unfold analyse at h
  split at h
  · simp only [bind_eq_ok, pure_eq_ok, Prod.exists, Prod.mk.injEq] at h
    obtain ⟨cs, -, cs', es, ⟨rfl, rfl⟩, repo, -, rfl⟩ := h
    intro e he
    cases he
  · simp only [bind_eq_ok, pure_eq_ok, Prod.exists, Prod.mk.injEq] at h
    obtain ⟨symbols, -, cs, -, es, hes, cs', es', ⟨rfl, rfl⟩, repo, -, rfl⟩ := h
    exact Dependency.usual_of_edgesOf hes

end Atlas

/-! ## What is laid out of such edges -/

namespace Json.Key

theorem IsName.defined {k : Key} (h : k.IsName) : k.Defined := by
  obtain ⟨s, rfl, -⟩ := h
  simp [Defined, rank]

/-- The order of texts does not depend on where they come from. -/
theorem mergeSort_eq_of_perm {l m : List Key} (h : ∀ k ∈ l, k.IsName) (hperm : l.Perm m) :
    l.mergeSort le = m.mergeSort le :=
  orders.mergeSort_eq_of_perm (fun k hk => (h k hk).defined) (fun _ _ k hk hjk => (h k hk).eq_of_beq hjk) hperm

end Json.Key

namespace Graph

namespace Adjacency

variable {m n : Adjacency}

/-- Each reference has neighbours over edges of its usual type only. -/
def Plain (m : Adjacency) : Prop := ∀ r byType, m.get? r = some byType → ∃ ns, byType.entries = [(usualType r, ns)]

theorem Plain.empty : Plain .empty := by
  intro r byType h
  cases h

theorem Plain.update (h : m.Plain) {r : Key} {t : EdgeType} (ht : t = usualType r) (f : List Key → List Key) :
    Plain (m.update r .empty fun byType => byType.update t [] f) := by
  intro s byType hs
  rw [OrderedMap.get?_update] at hs
  by_cases hr : (r == s) = true
  · rw [if_pos hr] at hs
    obtain rfl := Option.some.inj hs
    rw [usualType_congr hr] at ht
    subst ht
    cases hget : m.get? s with
    | none => exact ⟨f [], rfl⟩
    | some byType =>
      obtain ⟨ns, hns⟩ := h s byType hget
      refine ⟨f ns, ?_⟩
      have hfound : byType.get? (usualType s) = some ns := by
        simp [OrderedMap.get?, hns]
      have hany : byType.entries.any (·.1 == usualType s) = true := by
        simp [hns]
      rw [Option.getD_some, OrderedMap.update, hfound, OrderedMap.insert, dif_pos hany]
      simp [OrderedMap.replace, hns]
  · rw [if_neg hr] at hs
    exact h s byType hs

theorem Plain.link (h : m.Plain) {r : Key} {t : EdgeType} (ht : t = usualType r) (neighbour : Key) :
    (m.link r neighbour t).Plain := h.update ht _

theorem Plain.lookup (h : m.Plain) (r : Key) : m.lookup r none = (do
    pure ((← sortKeys (m.neighbours r (usualType r))).map (·, usualType r))) := by
  have hnone : ∀ byType : OrderedMap EdgeType (List Key),
      (byType.entries.filter fun e => (none : Option EdgeType).all (· == e.1)) = byType.entries := fun byType =>
    List.filter_eq_self.2 fun _ _ => rfl
  rw [Adjacency.lookup, hnone, neighbours]
  cases hget : m.get? r with
  | none =>
    have hsort : sortKeys [] = .ok [] := by simp [sortKeys, sortChecked, pure, Except.pure]
    simp [hsort, OrderedMap.empty, bind, Except.bind, pure, Except.pure]
  | some byType =>
    obtain ⟨ns, hns⟩ := h r byType hget
    have hfound : byType.get? (usualType r) = some ns := by
      simp [OrderedMap.get?, hns]
    rw [Option.getD_some, hns, Option.bind_some, hfound, Option.getD_some, List.mapM_cons, List.mapM_nil]
    cases hsort : sortKeys ns <;> simp [hsort, bind, Except.bind, pure, Except.pure]

/-- Neighbours that are texts are listed in one way. -/
theorem lookup_eq_of_joins (hm : m.Plain) (hn : n.Plain) (htidy : m.Tidy) (htidy' : n.Tidy)
    (hjoins : ∀ k, m.joins k = n.joins k) (hnamed : ∀ k, m.joins k = true → Named k) (r : Key) :
    m.lookup r none = n.lookup r none := by
  rw [hm.lookup, hn.lookup]
  have hname : ∀ s ∈ m.neighbours r (usualType r), s.IsName := fun s hs =>
    (hnamed (r, s, usualType r) (contains_of_mem hs)).2
  have hname' : ∀ s ∈ n.neighbours r (usualType r), s.IsName := fun s hs =>
    (hnamed (r, s, usualType r) ((hjoins _).trans (contains_of_mem hs))).2
  have hsame : ∀ s, s ∈ m.neighbours r (usualType r) ↔ s ∈ n.neighbours r (usualType r) := by
    intro s
    have hcontains : (m.neighbours r (usualType r)).contains s = (n.neighbours r (usualType r)).contains s :=
      hjoins (r, s, usualType r)
    constructor
    · intro hs
      obtain ⟨u, hu, hsu⟩ := List.contains_iff_exists_mem_beq.1 (hcontains ▸ contains_of_mem hs)
      rwa [(hname' u hu).eq_of_beq hsu]
    · intro hs
      obtain ⟨u, hu, hsu⟩ := List.contains_iff_exists_mem_beq.1 (hcontains.symm ▸ contains_of_mem hs)
      rwa [(hname u hu).eq_of_beq hsu]
  have hperm := (List.perm_ext_iff_of_nodup (htidy r _).nodup (htidy' r _).nodup).2 hsame
  rw [Key.sortKeys_of_texts fun s hs => (hname s hs).isText,
    Key.sortKeys_of_texts fun s hs => (hname' s hs).isText, Key.mergeSort_eq_of_perm hname hperm]

end Adjacency

theorem Engine.plain_link {x : Engine} {e : Edge} {k : EdgeKey} (h : x.out.Plain)
    (hk : e.key = .ok k) (hk' : Usual k) :
    ((Engine.link e).on x).2.out.Plain := by
  rw [Engine.link_on hk]
  exact h.link hk'.type k.2.1

theorem Engine.plain_linkAll {es : List Edge} (hes : ∀ e ∈ es, ∃ k, e.key = .ok k ∧ Usual k) {x : Engine}
    (h : x.out.Plain) : (Atlas.linkAll es x).out.Plain := by
  induction es generalizing x with
  | nil => exact h
  | cons e es ih =>
    obtain ⟨⟨k, hk, hk'⟩, hes⟩ := List.forall_mem_cons.1 hes
    exact ih hes (Engine.plain_link h hk hk')

theorem Engine.plain_foldl_linkKey {ks : List EdgeKey} (hks : ∀ k ∈ ks, Usual k) {x : Engine} (h : x.out.Plain) :
    (ks.foldl Engine.linkKey x).out.Plain := by
  induction ks generalizing x with
  | nil => exact h
  | cons k ks ih =>
    obtain ⟨hk, hks⟩ := List.forall_mem_cons.1 hks
    exact ih hks (h.link hk.type k.2.1)

end Graph

end SourceAtlas
