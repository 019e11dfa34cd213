import SourceAtlas.Proofs.Tallies

/-!
# What references lead to

Replacing a document or removing it forgets its reference, even if by then the
reference leads to another document. That loses references and misleads none:
one that is left leads to a stored document with the id that it leads to, and
the document has the reference.
-/

namespace SourceAtlas

open Json (Value Key)

def Document.HasId (d : Document) (k : Key) : Prop := ∃ j, idOf (.obj d) = .ok j ∧ (j == k) = true

theorem Filed.hasId {m : OrderedMap Key Document} (h : Filed m) {k : Key} {d : Document} (hd : m.get? k = some d) :
    d.HasId k := by
  obtain ⟨j, hj, hjk⟩ := OrderedMap.mem_of_get? hd
  exact ⟨d.id, h.2 _ hj, BEq.trans (BEq.symm (h.1 _ hj)) hjk⟩

namespace Graph.Symbols

variable {x : Symbols} {r k : Key} {d : Document}

/-- Whether a reference leads to a document that is stored under the id that it leads to, and has both. -/
def Hits (x : Symbols) (r k : Key) : Prop := ∃ d, x.documents.get? k = some d ∧ d.HasId k ∧ d.HasRef r

theorem Led.hits (h : x.Led) (hfiled : Filed x.documents) (hk : x.idOfRef.get? r = some k) : x.Hits r k := by
  obtain ⟨d, ref, hd, href, hr⟩ := h r k hk
  exact ⟨d, hd, hfiled.hasId hd, Document.hasRef_iff.2 ⟨ref, href, BEq.symm hr⟩⟩

/-- What a look-up finds is stored under the name, or it is what the name leads to as a reference. -/
theorem of_get? (h : x.get? k = some d) :
    x.documents.get? k = some d ∨ ∃ i, x.idOfRef.get? k = some i ∧ x.documents.get? i = some d := by
  unfold get? at h
  split at h
  · rename_i e he
    exact .inl (he.trans h)
  · exact .inr (Option.bind_eq_some_iff.1 h)

theorem Led.of_get? (h : x.Led) (hfiled : Filed x.documents) (hd : x.get? k = some d) :
    (∃ i, x.documents.get? i = some d) ∧ (d.HasId k ∨ d.HasRef k) := by
  rcases Symbols.of_get? hd with hid | ⟨i, hi, hid⟩
  · exact ⟨⟨k, hid⟩, .inl (hfiled.hasId hid)⟩
  · obtain ⟨e, he, -, href⟩ := h.hits hfiled hi
    obtain rfl := Option.some.inj (hid.symm.trans he)
    exact ⟨⟨i, hid⟩, .inr href⟩

end Graph.Symbols

namespace Graph.Store

/-- However documents come and go, the references that lead anywhere are those whose last mention gave
them, and each of them leads to a stored document that has this id and this reference. So what is found
by a name is stored and has the name as its id or as its reference. -/
theorem references_hit (cs : List Change) :
    let x := (after {} cs).symbols
    (∀ r, x.idOfRef.contains r = told (mentions {} cs) r false) ∧
      (∀ e ∈ x.idOfRef.entries, x.Hits e.1 e.2) ∧
      ∀ name d, x.get? name = some d → (∃ i, x.documents.get? i = some d) ∧ (d.HasId name ∨ d.HasRef name) := by
  intro x
  have hled : x.Led := led_after .empty cs
  have hfiled : Filed x.documents := (Tidy.empty.after cs).1
  refine ⟨fun r => ?_, fun e he => ?_, fun name d hd => ?_⟩
  · rw [OrderedMap.contains_eq]
    exact knows_after r cs {}
  · exact hled.hits hfiled (OrderedMap.get?_of_mem he)
  · exact hled.of_get? hfiled hd

-- replacing the first document takes the reference from the second, which is still there
example :
    let symbol (id ref : String) : Value := .obj [("id", id), ("symbol_ref", ref)]
    let x := (after {} [.documents [symbol "1" "f"], .documents [symbol "2" "f"],
      .documents [symbol "1" "g"]]).symbols
    x.idOfRef.entries = [(.str "g", .str "1")] ∧ x.documents.keys = [.str "1", .str "2"] := ⟨rfl, rfl⟩

end Graph.Store

end SourceAtlas
