import SourceAtlas.Proofs.Forgetting

/-!
# Looking up references

As long as references tell the stored symbols apart, the symbol of a reference
is found exactly if it is stored. A symbol that is replaced or dropped takes
its reference along, even if another symbol had it as well.
-/

namespace SourceAtlas

open Json (Value Key)
open Act (Keeps)

def DistinctRefs (cs : List Chunk) : Prop := ∀ c ∈ cs, ∀ d ∈ cs, c.payload.ref = d.payload.ref → c.id = d.id

instance (cs : List Chunk) : Decidable (DistinctRefs cs) :=
  inferInstanceAs (Decidable (∀ c ∈ cs, ∀ d ∈ cs, c.payload.ref = d.payload.ref → c.id = d.id))

theorem DistinctRefs.nil : DistinctRefs [] := by
  intro c hc
  cases hc

section
variable {us vs : List Chunk} {c d : Chunk} {r : Key}

theorem DistinctRefs.key_eq (h : DistinctRefs us) (hc : c ∈ us) (hd : d ∈ us)
    (href : (c.refKey == d.refKey) = true) :
    c.key = d.key := by
  have href : c.refKey = d.refKey := (Key.beq_str _ _).1 href
  have hid := h c hc d hd (Key.str.inj href)
  exact congrArg Key.str hid

theorem Chunk.refKey_of_document (h : c.toDocument = d.toDocument) : c.refKey = d.refKey := by
  have href := c.ref?_toDocument
  rw [h, d.ref?_toDocument] at href
  exact congrArg Key.str (Value.str.inj (Option.some.inj href)).symm

namespace Graph.Symbols

variable {x y : Symbols}

/-- The stored symbols are among some chunks, and each of them is found by its reference. -/
structure Indexed (us : List Chunk) (x : Symbols) : Prop where
  owned : ∀ k doc, x.documents.get? k = some doc → ∃ c ∈ us, k = c.key ∧ doc = c.toDocument
  refs : ∀ r i, x.idOfRef.get? r = some i ↔
    ∃ c ∈ us, x.documents.get? c.key = some c.toDocument ∧ (c.refKey == r) = true ∧ i = c.key

theorem Indexed.empty (us : List Chunk) : Indexed us {} where
  owned k doc h := by cases h
  refs r i := by
    constructor
    · intro h
      cases h
    · rintro ⟨c, -, h, -⟩
      cases h

/-- Chunks that are not stored do not matter. -/
theorem Indexed.of_owned (h : Indexed us x)
    (howned : ∀ k doc, x.documents.get? k = some doc → ∃ c ∈ vs, k = c.key ∧ doc = c.toDocument) :
    Indexed vs x where
  owned := howned
  refs r i := by
    rw [h.refs]
    constructor
    · rintro ⟨c, -, hget, href, rfl⟩
      obtain ⟨d, hd, hkey, hdoc⟩ := howned _ _ hget
      rw [hkey, hdoc] at hget
      rw [Chunk.refKey_of_document hdoc] at href
      exact ⟨d, hd, hget, href, hkey⟩
    · rintro ⟨c, -, hget, href, rfl⟩
      obtain ⟨d, hd, hkey, hdoc⟩ := h.owned _ _ hget
      rw [hkey, hdoc] at hget
      rw [Chunk.refKey_of_document hdoc] at href
      exact ⟨d, hd, hget, href, hkey⟩

theorem Indexed.mono (h : Indexed us x) (hsub : us ⊆ vs) : Indexed vs x := by
  refine h.of_owned fun k doc hk => ?_
  obtain ⟨c, hc, hsame⟩ := h.owned k doc hk
  exact ⟨c, hsub hc, hsame⟩

/-- What is found by reference depends on the documents alone. -/
theorem Indexed.agrees (h : Indexed us x) (h' : Indexed vs y) (hsame : x.documents = y.documents) :
    x.idOfRef.Agrees y.idOfRef := by
  have hleft := h.mono (List.subset_append_left us vs)
  have hright := h'.mono (List.subset_append_right us vs)
  intro r
  apply Option.ext
  intro i
  rw [hleft.refs, hright.refs, hsame]

/-! ## Storing -/

theorem on_forget_chunk (c : Chunk) (x : Symbols) :
    (forget c.toDocument).on x = (.ok (), { x with idOfRef := x.idOfRef.erase c.refKey }) := by
  simp only [forget, c.ref?_toDocument, Act.on_bind, Act.on_liftOutcome, asKey_str, Act.on_modify]
  rfl

theorem on_settle_chunk (c : Chunk) (x : Symbols) : (settle c.key c.toDocument).on x = (.ok (),
    { documents := x.documents.insert c.key c.toDocument, idOfRef := x.idOfRef.insert c.refKey c.key }) := by
  simp only [settle, c.ref?_toDocument, Act.on_bind, Act.on_liftOutcome, asKey_str, Act.on_modify]
  rfl

/-- Once no symbol is found by the reference that goes, the new one can be found by its own. -/
theorem indexed_settle (hrefs : DistinctRefs us) (hc : c ∈ us)
    (howned : ∀ k doc, x.documents.get? k = some doc → ∃ d ∈ us, k = d.key ∧ doc = d.toDocument)
    (hfound : ∀ r i, x.idOfRef.get? r = some i ↔
      ∃ d ∈ us, x.documents.get? d.key = some d.toDocument ∧ d.key ≠ c.key ∧ (d.refKey == r) = true ∧ i = d.key) :
    Indexed us ((settle c.key c.toDocument).on x).2 := by
  rw [on_settle_chunk]
  constructor
  · intro k doc hk
    rw [OrderedMap.get?_insert] at hk
    by_cases hkey : (c.key == k) = true
    · rw [if_pos hkey] at hk
      exact ⟨c, hc, (c.key_beq k).1 hkey, (Option.some.inj hk).symm⟩
    · rw [if_neg hkey] at hk
      exact howned k doc hk
  · intro r i
    rw [OrderedMap.get?_insert]
    by_cases href : (c.refKey == r) = true
    · rw [if_pos href]
      constructor
      · intro hi
        refine ⟨c, hc, ?_, href, (Option.some.inj hi).symm⟩
        rw [OrderedMap.get?_insert, if_pos BEq.rfl]
      · rintro ⟨d, hd, -, hdr, rfl⟩
        rw [hrefs.key_eq hd hc (BEq.trans hdr (BEq.symm href))]
    · rw [if_neg href, hfound]
      constructor
      · rintro ⟨d, hd, hget, hne, hdr, rfl⟩
        refine ⟨d, hd, ?_, hdr, rfl⟩
        rw [OrderedMap.get?_insert, if_neg]
        · exact hget
        · intro hkey
          exact hne ((c.key_beq _).1 hkey)
      · rintro ⟨d, hd, hget, hdr, rfl⟩
        rw [OrderedMap.get?_insert] at hget
        by_cases hkey : (c.key == d.key) = true
        · rw [if_pos hkey] at hget
          rw [Chunk.refKey_of_document (Option.some.inj hget)] at href
          exact absurd hdr href
        · rw [if_neg hkey] at hget
          refine ⟨d, hd, hget, ?_, hdr, rfl⟩
          intro hsame
          exact hkey ((c.key_beq _).2 hsame)

theorem Indexed.put (hrefs : DistinctRefs us) (hc : c ∈ us) :
    Keeps (Indexed us) (Symbols.put c.key c.toDocument) := by
  intro x hx
  rw [on_put]
  cases hprevious : x.documents.get? c.key with
  | none =>
    refine indexed_settle hrefs hc hx.owned fun r i => ?_
    rw [hx.refs]
    refine exists_congr fun d => and_congr_right fun _ => and_congr_right fun hget =>
      ⟨fun h => ⟨?_, h⟩, fun h => h.2⟩
    rintro hsame
    rw [hsame, hprevious] at hget
    cases hget
  | some doc =>
    obtain ⟨e, he, hkey, rfl⟩ := hx.owned _ _ hprevious
    dsimp only
    rw [Act.on_bind, on_forget_chunk]
    refine indexed_settle hrefs hc hx.owned fun r i => ?_
    show (x.idOfRef.erase e.refKey).get? r = some i ↔ _
    rw [OrderedMap.get?_erase]
    by_cases href : (r == e.refKey) = true
    · rw [if_pos href]
      constructor
      · intro h
        cases h
      · rintro ⟨d, hd, -, hne, hdr, -⟩
        exact absurd (hrefs.key_eq hd he (BEq.trans hdr href)) (hkey ▸ hne)
    · rw [if_neg href, hx.refs]
      refine exists_congr fun d => and_congr_right fun _ => and_congr_right fun hget =>
        ⟨fun h => ⟨?_, h⟩, fun h => h.2⟩
      intro hsame
      have hget : x.documents.get? d.key = some d.toDocument := hget
      rw [hsame, hprevious] at hget
      rw [Chunk.refKey_of_document (Option.some.inj hget)] at href
      exact href (BEq.symm h.1)

/-! ## Dropping -/

theorem on_remove_chunk (refs : List Key) (c : Chunk) (x : Symbols) : (remove refs c.key c.toDocument).on x =
    (.ok (if refs.contains c.refKey then refs else refs ++ [c.refKey]),
      { documents := x.documents.erase c.key, idOfRef := x.idOfRef.erase c.refKey }) := by
  simp only [remove, c.ref?_toDocument, Act.on_bind, Act.on_liftOutcome, asKey_str, Act.on_modify]
  rfl

theorem Indexed.remove (h : Indexed us x) (hrefs : DistinctRefs us) (hc : c ∈ us)
    (hget : x.documents.get? c.key = some c.toDocument) :
    Indexed us { documents := x.documents.erase c.key, idOfRef := x.idOfRef.erase c.refKey } := by
  constructor
  · intro k doc hk
    rw [OrderedMap.get?_erase] at hk
    by_cases hkey : (k == c.key) = true
    · rw [if_pos hkey] at hk
      cases hk
    · rw [if_neg hkey] at hk
      exact h.owned k doc hk
  · intro r i
    rw [OrderedMap.get?_erase]
    by_cases href : (r == c.refKey) = true
    · rw [if_pos href]
      constructor
      · intro h
        cases h
      · rintro ⟨d, hd, hdoc, hdr, -⟩
        rw [OrderedMap.get?_erase, hrefs.key_eq hd hc (BEq.trans hdr href), if_pos BEq.rfl] at hdoc
        cases hdoc
    · rw [if_neg href, h.refs]
      refine exists_congr fun d => and_congr_right fun _ => ?_
      rw [OrderedMap.get?_erase]
      by_cases hkey : (d.key == c.key) = true
      · -- the symbol that goes has another reference
        rw [if_pos hkey]
        constructor
        · rintro ⟨hdoc, hdr, -⟩
          rw [x.documents.get?_congr hkey, hget] at hdoc
          rw [Chunk.refKey_of_document (Option.some.inj hdoc)] at href
          exact absurd (BEq.symm hdr) href
        · rintro ⟨hdoc, -⟩
          cases hdoc
      · rw [if_neg hkey]

theorem Indexed.removeAll (hrefs : DistinctRefs us) (es : List (Key × Document)) :
    ∀ {refs : List Key} {x : Symbols}, Indexed us x → (∀ e ∈ es, x.documents.get? e.1 = some e.2) →
      es.Pairwise (fun d e => (d.1 == e.1) = false) →
      Indexed us ((es.foldlM (fun refs e => Symbols.remove refs e.1 e.2) refs : Act Symbols _).on x).2 := by
  induction es with
  | nil =>
    intro refs x hx _ _
    exact hx
  | cons e es ih =>
    intro refs x hx hes hdistinct
    obtain ⟨he, hrest⟩ := List.forall_mem_cons.1 hes
    obtain ⟨hfirst, hdistinct⟩ := List.pairwise_cons.1 hdistinct
    obtain ⟨c, hc, hkey, hdoc⟩ := hx.owned _ _ he
    rw [hkey, hdoc] at he
    rw [List.foldlM_cons, hkey, hdoc, Act.on_bind_ok (on_remove_chunk refs c x)]
    refine ih (hx.remove hrefs hc he) (fun d hd => ?_) hdistinct
    rw [OrderedMap.get?_erase, if_neg]
    · exact hrest d hd
    · intro hsame
      rw [← hkey] at hsame
      exact Bool.false_ne_true ((hfirst d hd).symm.trans (BEq.symm hsame))

theorem Indexed.drop (hrefs : DistinctRefs us) (p : Document → Bool) : Keeps (Indexed us) (Symbols.drop p) := by
  intro x hx
  rw [Symbols.drop, Act.on_bind, Act.on_get]
  refine Indexed.removeAll hrefs _ hx (fun e he => ?_) (x.documents.distinct.filter _)
  exact OrderedMap.get?_of_mem (List.mem_filter.1 he).1

end Graph.Symbols

end

end SourceAtlas
