import SourceAtlas.Proofs.Transparency

/-!
# References that are lost

A symbol that is stored can be found by its reference, until another symbol
takes its place. Then the reference is forgotten, no matter who else has it by
now. Unless digests collide, that needs a path that holds the separator of ids.
-/

namespace SourceAtlas

open Json (Value Key)

/-! ## References that are lost -/

/-- Whether a reference is lost as chunks are stored one by one: after the last of them that has
it, one takes the place of a symbol that has it. -/
def Displaced (r : String) : List Chunk → List Chunk → Prop
  | _, [] => False
  | us, c :: cs => Displaced r (storeChunk us c) cs ∨
      (∀ d ∈ c :: cs, d.payload.ref ≠ r) ∧ ∃ d ∈ us, d.id = c.id ∧ d.payload.ref = r

instance Displaced.decidable (r : String) : (us cs : List Chunk) → Decidable (Displaced r us cs)
  | _, [] => inferInstanceAs (Decidable False)
  | us, c :: cs =>
    have := Displaced.decidable r (storeChunk us c) cs
    inferInstanceAs (Decidable (Displaced r (storeChunk us c) cs ∨
      (∀ d ∈ c :: cs, d.payload.ref ≠ r) ∧ ∃ d ∈ us, d.id = c.id ∧ d.payload.ref = r))

section
variable {r : String} {us cs : List Chunk} {c d : Chunk}

theorem mem_storeChunk (h : d ∈ storeChunk us c) : d ∈ us ∨ d = c := by
  rcases List.mem_append.1 h with h | h
  · exact .inl (List.mem_filter.1 h).1
  · exact .inr (List.mem_singleton.1 h)

theorem mem_foldl_storeChunk (h : d ∈ cs.foldl storeChunk us) : d ∈ us ∨ d ∈ cs := by
  induction cs generalizing us with
  | nil => exact .inl h
  | cons c cs ih =>
    rcases ih h with h | h
    · rcases mem_storeChunk h with h | rfl
      · exact .inl h
      · exact .inr List.mem_cons_self
    · exact .inr (List.mem_cons_of_mem c h)

/-- A reference is lost to a chunk that has the id of a symbol with it, and another reference. -/
theorem exists_of_displaced (h : Displaced r us cs) :
    ∃ d ∈ us ++ cs, ∃ c ∈ cs, d.id = c.id ∧ d.payload.ref = r ∧ c.payload.ref ≠ r := by
  induction cs generalizing us with
  | nil => exact h.elim
  | cons c cs ih =>
    rcases h with h | ⟨hcs, d, hd, hid, hr⟩
    · obtain ⟨d, hd, e, he, hsame⟩ := ih h
      refine ⟨d, ?_, e, List.mem_cons_of_mem c he, hsame⟩
      rcases List.mem_append.1 hd with hd | hd
      · rcases mem_storeChunk hd with hd | rfl
        · exact List.mem_append_left _ hd
        · exact List.mem_append_right _ List.mem_cons_self
      · exact List.mem_append_right _ (List.mem_cons_of_mem c hd)
    · exact ⟨d, List.mem_append_left _ hd, c, List.mem_cons_self, hid, hr, hcs c List.mem_cons_self⟩

end

/-! ## Storing chunks one by one -/

namespace Graph

namespace Symbols

variable {x y : Symbols} {us : List Chunk} {c : Chunk} {r : String}

def Finds (x : Symbols) (r : String) : Prop :=
  ∃ k d, x.idOfRef.get? (.str r) = some k ∧ x.documents.get? k = some d ∧ Document.ref? d = some (.str r)

theorem of_put_chunk (hlists : Lists .symbols x.documents us) (hok : (put c.key c.toDocument).on x = (.ok (), y)) :
    y.documents = x.documents.insert c.key c.toDocument ∧
    ∀ r, y.idOfRef.get? (.str r) = if c.payload.ref = r then some c.key
      else if ∃ d ∈ us, d.id = c.id ∧ d.payload.ref = r then none else x.idOfRef.get? (.str r) := by
  have href : ∀ r, ((c.refKey == Key.str r) = true) = (c.payload.ref = r) := fun r => by
    rw [Chunk.refKey, Key.str_beq, Key.str.injEq]
    exact propext eq_comm
  rw [on_put] at hok
  cases hprevious : x.documents.get? c.key with
  | none =>
    rw [hprevious] at hok
    obtain ⟨-, rfl⟩ := Prod.mk.inj ((on_settle_chunk c x).symm.trans hok)
    refine ⟨rfl, fun r => ?_⟩
    have hnew : ¬ ∃ d ∈ us, d.id = c.id ∧ d.payload.ref = r := by
      rintro ⟨d, hd, hid, -⟩
      have hstored := (hlists d.key _).2 ⟨d, hd, rfl, rfl⟩
      rw [show d.key = c.key from congrArg Key.str hid, hprevious] at hstored
      cases hstored
    rw [OrderedMap.get?_insert, if_neg hnew]
    simp only [href]
  | some doc =>
    obtain ⟨e, he, hkey, rfl⟩ := (hlists _ _).1 hprevious
    rw [hprevious] at hok
    have hforget := on_forget_chunk e x
    replace hok := (Act.on_bind_ok hforget).symm.trans hok
    obtain ⟨-, rfl⟩ := Prod.mk.inj ((on_settle_chunk c _).symm.trans hok)
    refine ⟨rfl, fun r => ?_⟩
    have hgone : (∃ d ∈ us, d.id = c.id ∧ d.payload.ref = r) = ((Key.str r == e.refKey) = true) := by
      rw [Chunk.refKey, Key.str_beq, Key.str.injEq]
      apply propext
      constructor
      · rintro ⟨d, hd, hid, rfl⟩
        have hstored := (hlists d.key _).2 ⟨d, hd, rfl, rfl⟩
        rw [show d.key = c.key from congrArg Key.str hid, hprevious] at hstored
        exact Key.str.inj (Chunk.refKey_of_document (Option.some.inj hstored))
      · rintro rfl
        exact ⟨e, he, (Key.str.inj hkey).symm, rfl⟩
    rw [OrderedMap.get?_insert, OrderedMap.get?_erase]
    simp only [href, hgone]

theorem lists_put (hlists : Lists .symbols x.documents us) (hok : (put c.key c.toDocument).on x = (.ok (), y)) :
    Lists .symbols y.documents (storeChunk us c) := by
  rw [(of_put_chunk hlists hok).1]
  exact hlists.insert c

theorem finds_put (hlists : Lists .symbols x.documents us) (hok : (put c.key c.toDocument).on x = (.ok (), y)) :
    y.Finds c.payload.ref := by
  obtain ⟨hdocuments, hrefs⟩ := of_put_chunk hlists hok
  refine ⟨c.key, c.toDocument, ?_, ?_, c.ref?_toDocument⟩
  · rw [hrefs, if_pos rfl]
  · rw [hdocuments, OrderedMap.get?_insert, if_pos BEq.rfl]

theorem Finds.put (h : x.Finds r) (hlists : Lists .symbols x.documents us)
    (hok : (put c.key c.toDocument).on x = (.ok (), y)) (hother : c.payload.ref ≠ r)
    (hstays : ¬ ∃ d ∈ us, d.id = c.id ∧ d.payload.ref = r) : y.Finds r := by
  obtain ⟨hdocuments, hrefs⟩ := of_put_chunk hlists hok
  obtain ⟨k, d, hk, hd, hr⟩ := h
  refine ⟨k, d, ?_, ?_, hr⟩
  · rw [hrefs, if_neg hother, if_neg hstays, hk]
  · rw [hdocuments, OrderedMap.get?_insert, if_neg, hd]
    intro hkey
    obtain ⟨e, he, hke, rfl⟩ := (hlists k d).1 hd
    have hid : c.id = e.id := Key.str.inj (((c.key_beq k).1 hkey).symm.trans hke)
    refine hstays ⟨e, he, hid.symm, ?_⟩
    have href := e.ref?_toDocument.symm.trans hr
    exact Value.str.inj (Option.some.inj href)

end Symbols

namespace Store

variable {x z : Store} {us cs : List Chunk} {r : String}

/-- A reference that is lost is not found again by storing others. -/
theorem lost_of_putAll (hlists : Lists .symbols x.symbols.documents us)
    (hok : (putAll (cs.map fun c => .obj c.toDocument)).on x = (.ok (), z)) (hcs : ∀ c ∈ cs, c.payload.ref ≠ r)
    (hlost : x.symbols.idOfRef.get? (.str r) = none) : z.symbols.idOfRef.get? (.str r) = none := by
  induction cs generalizing us x with
  | nil =>
    obtain ⟨-, rfl⟩ := Prod.mk.inj hok
    exact hlost
  | cons c cs ih =>
    obtain ⟨hc, hcs⟩ := List.forall_mem_cons.1 hcs
    obtain ⟨y, hput, hok⟩ := of_putAll_cons hok
    refine ih (Symbols.lists_put hlists hput) hok hcs ?_
    rw [(Symbols.of_put_chunk hlists hput).2, if_neg hc, hlost, ite_self]

/-- A reference that could be found, or that is stored, is found in the end unless it is lost. -/
theorem finds_of_putAll (hlists : Lists .symbols x.symbols.documents us)
    (hok : (putAll (cs.map fun c => .obj c.toDocument)).on x = (.ok (), z))
    (h : x.symbols.Finds r ∨ ∃ c ∈ cs, c.payload.ref = r) : z.symbols.Finds r ↔ ¬ Displaced r us cs := by
  induction cs generalizing us x with
  | nil =>
    obtain ⟨-, rfl⟩ := Prod.mk.inj hok
    simpa [Displaced] using h
  | cons c cs ih =>
    obtain ⟨y, hput, hok⟩ := of_putAll_cons hok
    have hlists' := Symbols.lists_put hlists hput
    -- once lost it stays lost, so the first chunk that takes it away decides
    by_cases hlost : (∀ d ∈ c :: cs, d.payload.ref ≠ r) ∧ ∃ d ∈ us, d.id = c.id ∧ d.payload.ref = r
    · have hnone : y.symbols.idOfRef.get? (.str r) = none := by
        rw [(Symbols.of_put_chunk hlists hput).2, if_neg (hlost.1 c List.mem_cons_self), if_pos hlost.2]
      have hend := lost_of_putAll hlists' hok (List.forall_mem_cons.1 hlost.1).2 hnone
      refine iff_of_false ?_ (not_not.2 (.inr hlost))
      rintro ⟨k, d, hk, -⟩
      rw [hend] at hk
      cases hk
    · rw [Displaced, or_iff_left hlost]
      refine ih hlists' hok ?_
      by_cases hmore : ∃ d ∈ cs, d.payload.ref = r
      · exact .inr hmore
      · -- the chunk is the last one that may have the reference
        left
        by_cases hc : c.payload.ref = r
        · exact hc ▸ Symbols.finds_put hlists hput
        · have hrest : ∀ d ∈ c :: cs, d.payload.ref ≠ r :=
            List.forall_mem_cons.2 ⟨hc, fun d hd hr => hmore ⟨d, hd, hr⟩⟩
          rcases h with h | ⟨d, hd, hr⟩
          · exact h.put hlists hput hc fun hgone => hlost ⟨hrest, hgone⟩
          · exact absurd hr (hrest d hd)

end Store

end Graph

/-! ## Ids and references -/

namespace Chunk

def Identified (c : Chunk) : Prop :=
  c.id = symbolId c.payload.context.workspace c.payload.context.repo c.payload.context.path c.payload.symbolName

def idText (c : Chunk) : String :=
  SourceAtlas.idText c.payload.context.workspace c.payload.context.repo c.payload.context.path c.payload.symbolName

theorem toList_idText (c : Chunk) : c.idText.toList =
    c.payload.context.workspace.toList ++ '\x00' :: (c.payload.context.repo.toList ++ '\x00' ::
      (c.payload.context.path.toList ++ '\x00' :: c.payload.symbolName.toList)) := by
  have hjoined : c.idText = c.payload.context.workspace ++ "\x00" ++ c.payload.context.repo ++ "\x00" ++
      c.payload.context.path ++ "\x00" ++ c.payload.symbolName := rfl
  simp [hjoined]

theorem toList_ref (c : Chunk) : c.payload.ref.toList =
    c.payload.context.workspace.toList ++ '/' :: (c.payload.context.repo.toList ++ '/' ::
      (c.payload.context.path.toList ++ '#' :: c.payload.symbolName.toList)) := by
  simp [Payload.ref, symbolRef]

theorem slash_notMem_hex (bytes : List UInt8) : '/' ∉ (Digest.hex bytes).toList := by
  have hdigit : ∀ n < 16, Nat.digitChar n ≠ '/' := by decide
  intro h
  rw [Digest.hex, String.toList_ofList, List.mem_flatMap] at h
  obtain ⟨b, -, h⟩ := h
  have hb := b.toNat_lt
  rcases List.mem_cons.1 h with h | h
  · exact hdigit _ (by omega) h.symm
  · exact hdigit _ (by omega) (List.mem_singleton.1 h).symm

theorem Identified.id_ne_ref {c : Chunk} (h : c.Identified) (d : Chunk) : c.id ≠ d.payload.ref := by
  intro hsame
  have hslash : '/' ∈ c.id.toList := by
    rw [hsame, toList_ref]
    exact List.mem_append_right _ List.mem_cons_self
  rw [h] at hslash
  exact slash_notMem_hex _ hslash

end Chunk

/-- Texts that are joined by two different separators can be told apart. -/
theorem eq_of_append_cons {α : Type} {p q : α} (hpq : p ≠ q) {v w x x' y y' : List α}
    (hp : v ++ p :: x = w ++ p :: x')
    (hq : v ++ q :: y = w ++ q :: y') : v = w ∧ x = x' ∧ y = y' := by
  induction v generalizing w with
  | nil =>
    cases w with
    | nil => exact ⟨rfl, (List.cons.inj hp).2, (List.cons.inj hq).2⟩
    | cons a w => exact absurd ((List.cons.inj hp).1.trans (List.cons.inj hq).1.symm) hpq
  | cons a v ih =>
    cases w with
    | nil => exact absurd ((List.cons.inj hp).1.symm.trans (List.cons.inj hq).1) hpq
    | cons b w =>
      obtain ⟨rfl, hp'⟩ := List.cons.inj hp
      obtain ⟨rfl, hrest⟩ := ih hp' (List.cons.inj hq).2
      exact ⟨rfl, hrest⟩

/-- New chunks have the id of another chunk only if the same text was digested. -/
def DigestsApart (us cs : List Chunk) : Prop := ∀ d ∈ us ++ cs, ∀ c ∈ cs, d.id = c.id → d.idText = c.idText

instance (us cs : List Chunk) : Decidable (DigestsApart us cs) :=
  inferInstanceAs (Decidable (∀ d ∈ us ++ cs, ∀ c ∈ cs, d.id = c.id → d.idText = c.idText))

theorem DigestsApart.mono {us vs cs : List Chunk} (h : DigestsApart vs cs) (hsub : us ⊆ vs) : DigestsApart us cs :=
  fun d hd => h d ((List.mem_append.1 hd).elim (fun hd => List.mem_append_left _ (hsub hd))
    (List.mem_append_right _))

/-- Chunks of one repository lose no reference if they are of one file, or if no path holds the
separator of ids. -/
theorem not_displaced {us cs : List Chunk} {c : Chunk} (hids : DigestsApart us cs)
    (hrepo : ∀ d ∈ cs, ∀ e ∈ cs,
      d.payload.context.workspace = e.payload.context.workspace ∧ d.payload.context.repo = e.payload.context.repo)
    (hpath : (∀ d ∈ cs, ∀ e ∈ cs, d.payload.context.path = e.payload.context.path) ∨
      ∀ d ∈ us ++ cs, '\x00' ∉ d.payload.context.path.toList)
    (hc : c ∈ cs) : ¬ Displaced c.payload.ref us cs := by
  intro h
  obtain ⟨d, hd, e, he, hid, href, hne⟩ := exists_of_displaced h
  obtain ⟨hworkspace, hrepo⟩ := hrepo e he c hc
  have htexts := congrArg String.toList (hids d hd e he hid)
  have hrefs := congrArg String.toList href
  rw [Chunk.toList_idText, Chunk.toList_idText] at htexts
  rw [Chunk.toList_ref, Chunk.toList_ref, ← hworkspace, ← hrepo] at hrefs
  -- ids and references join the same parts by different separators
  obtain ⟨hw, htexts, hrefs⟩ := eq_of_append_cons (by decide) htexts hrefs
  obtain ⟨hr, htexts, hrefs⟩ := eq_of_append_cons (by decide) htexts hrefs
  have hsame : d.payload.context.path.toList = e.payload.context.path.toList ∧
      d.payload.symbolName.toList = e.payload.symbolName.toList := by
    rcases hpath with hpath | hpath
    · rw [← hpath e he c hc] at hrefs
      obtain ⟨hp, hn, -⟩ := eq_of_append_cons (by decide) htexts hrefs
      exact ⟨hp, hn⟩
    · exact eq_of_append_cons_of_notMem (hpath d hd) (hpath e (List.mem_append_right _ he)) htexts
  apply hne
  rw [← href, ← String.toList_inj, Chunk.toList_ref, Chunk.toList_ref, hw, hr, hsame.1, hsame.2]

end SourceAtlas
