import SourceAtlas.Proofs.Forgetting
import SourceAtlas.Proofs.Naming

/-!
# What deletes report

A delete counts the references of the documents that it removes, each once. So
the number is that of the documents just if each of them has a reference that
no other one has.
-/

namespace SourceAtlas

open Json (Value Key)

/-! ## Keys that are collected -/

section
variable {α : Type} [BEq α] [EquivBEq α]

def adjoin (l : List α) (a : α) : List α := if l.contains a then l else l ++ [a]

theorem length_foldl_adjoin {l : List α} (hl : Distinct l) (as : List α) :
    let m := as.foldl adjoin l
    Distinct m ∧ m.length ≤ l.length + as.length ∧ (m.length = l.length + as.length ↔ Distinct (l ++ as)) := by
  induction as generalizing l with
  | nil => simp [hl]
  | cons a as ih =>
    rw [List.foldl_cons, List.length_cons]
    by_cases ha : l.contains a = true
    · rw [adjoin, if_pos ha]
      obtain ⟨hdistinct, hle, -⟩ := ih hl
      refine ⟨hdistinct, by omega, ?_⟩
      apply iff_of_false
      · omega
      · intro h
        obtain ⟨b, hb, hab⟩ := List.contains_iff_exists_mem_beq.1 ha
        have hba := (List.pairwise_append.1 h).2.2 b hb a List.mem_cons_self
        exact Bool.false_ne_true (hba.symm.trans (BEq.symm hab))
    · rw [adjoin, if_neg ha]
      obtain ⟨hdistinct, hle, hiff⟩ := ih (hl.snoc (Bool.eq_false_iff.2 ha))
      rw [List.length_append, List.length_singleton] at hle hiff
      rw [List.append_assoc, List.singleton_append] at hiff
      refine ⟨hdistinct, by omega, ?_⟩
      rw [← hiff]
      omega

end

namespace Document

theorem hasRef_iff {d : Document} {r : Key} : d.HasRef r ↔ ∃ k, d.refKey? = some k ∧ (k == r) = true := by
  unfold HasRef refKey?
  cases d.ref? with
  | none => simp
  | some v =>
    obtain ⟨k, hk, hv⟩ | ⟨hk, f, hv⟩ := asKey_cases v <;> simp [hk, hv]

/-- Whether each of some documents has a reference, and no two of them share one. -/
def OwnReferences (ds : List Document) : Prop :=
  (∀ d ∈ ds, ∃ r, d.HasRef r) ∧ ds.Pairwise fun d e => ∀ r, d.HasRef r → ¬ e.HasRef r

theorem ownReferences_iff (ds : List Document) :
    OwnReferences ds ↔ (ds.filterMap refKey?).length = ds.length ∧ Distinct (ds.filterMap refKey?) := by
  rw [List.filterMap_length_eq_length, Distinct, List.pairwise_filterMap]
  apply and_congr
  · refine forall₂_congr fun d _ => ?_
    simp only [hasRef_iff, Option.isSome_iff_exists]
    constructor
    · rintro ⟨_, k, hk, -⟩
      exact ⟨k, hk⟩
    · rintro ⟨k, hk⟩
      exact ⟨k, k, hk, BEq.rfl⟩
  · refine iff_of_eq (congrArg (List.Pairwise · ds) (funext₂ fun d e => propext ?_))
    simp only [hasRef_iff]
    constructor
    · intro h j hj k hk
      apply Bool.eq_false_iff.2
      intro hjk
      exact h k ⟨j, hj, hjk⟩ ⟨k, hk, BEq.rfl⟩
    · rintro h r ⟨j, hj, hjr⟩ ⟨k, hk, hkr⟩
      exact Bool.false_ne_true ((h j hj k hk).symm.trans (BEq.trans hjr (BEq.symm hkr)))

end Document

namespace Graph.Symbols

theorem of_remove {refs out : List Key} {id : Key} {d : Document} {x y : Symbols}
    (h : (remove refs id d).on x = (.ok out, y)) :
    out = d.refKey?.toList.foldl adjoin refs := by
  unfold remove at h
  rw [Act.on_bind, Act.on_modify] at h
  unfold Document.refKey?
  cases href : d.ref? with
  | none =>
    rw [href] at h
    exact (Except.ok.inj (Prod.mk.inj h).1).symm
  | some v =>
    simp only [href, Act.on_bind, Act.on_liftOutcome] at h
    obtain ⟨k, hk, hv⟩ | ⟨hk, f, hv⟩ := asKey_cases v
    · rw [hv] at h
      rw [Option.bind_some, hk]
      exact (Except.ok.inj (Prod.mk.inj h).1).symm
    · rw [hv] at h
      cases h

theorem of_removeAll {es : List (Key × Document)} {refs out : List Key} {x y : Symbols}
    (h : (es.foldlM (fun refs e => remove refs e.1 e.2) refs : Act Symbols _).on x = (.ok out, y)) :
    out = ((es.map Prod.snd).filterMap Document.refKey?).foldl adjoin refs := by
  induction es generalizing refs x with
  | nil => exact (Except.ok.inj (Prod.mk.inj h).1).symm
  | cons e es ih =>
    obtain ⟨mid, z, hstep, hrest⟩ := Act.bind_ok h
    rw [ih hrest, of_remove hstep, List.map_cons, List.filterMap_cons]
    cases Document.refKey? e.2 <;> rfl

/-- What comes back from dropping documents has one reference for each just if they have references of their own. -/
theorem length_of_drop {p : Document → Bool} {refs : List Key} {x y : Symbols} (h : (drop p).on x = (.ok refs, y)) :
    let gone := (x.documents.keep p).values
    Distinct refs ∧ refs.length ≤ gone.length ∧ (refs.length = gone.length ↔ Document.OwnReferences gone) := by
  intro gone
  obtain ⟨_, _, hget, h⟩ := Act.bind_ok h
  cases hget
  have hrefs : refs = (gone.filterMap Document.refKey?).foldl adjoin [] := of_removeAll h
  obtain ⟨hdistinct, hle, hiff⟩ := length_foldl_adjoin (l := ([] : List Key)) .nil (gone.filterMap Document.refKey?)
  rw [← hrefs] at hdistinct hle hiff
  rw [List.length_nil, Nat.zero_add] at hle hiff
  have hmost := List.length_filterMap_le Document.refKey? gone
  refine ⟨hdistinct, hle.trans hmost, ?_⟩
  rw [List.nil_append] at hiff
  rw [Document.ownReferences_iff, ← hiff]
  omega

end Graph.Symbols

namespace Graph.Store

/-! ## Deletes -/

inductive Deletion where
  | ofFile (repo path : Value)
  | ofRepo (repo : Value)
  | ofWorkspace (workspace : Value)

namespace Deletion

variable {d : Deletion} {x y : Store} {n : Nat}

def act : Deletion → Act Store Nat
  | ofFile repo path => deleteFile repo path
  | ofRepo repo => deleteRepo repo
  | ofWorkspace workspace => deleteWorkspace workspace

def covers : Deletion → Document → Bool
  | ofFile repo path => Document.ofFile repo path
  | ofRepo repo => Document.ofRepo repo
  | ofWorkspace workspace => Document.ofWorkspace workspace

/-- Whether what is deleted can be looked up where that is done. -/
def Keyed : Deletion → Prop
  | ofRepo repo => (Key.ofValue? repo).isSome
  | _ => True

def gone (d : Deletion) (x : Store) : List Document := (x.symbols.documents.keep d.covers).values

theorem mem_gone {doc : Document} :
    doc ∈ d.gone x ↔ ∃ id, x.symbols.documents.get? id = some doc ∧ d.covers doc = true := by
  constructor
  · intro h
    obtain ⟨e, he, rfl⟩ := List.mem_map.1 h
    obtain ⟨he, hcovers⟩ := List.mem_filter.1 he
    exact ⟨e.1, OrderedMap.get?_of_mem he, hcovers⟩
  · rintro ⟨id, hid, hcovers⟩
    obtain ⟨j, hj, -⟩ := OrderedMap.mem_of_get? hid
    exact List.mem_map.2 ⟨(j, doc), List.mem_filter.2 ⟨hj, hcovers⟩, rfl⟩

theorem size_gone (d : Deletion) (x : Store) :
    (d.gone x).length + (x.symbols.documents.keep (!d.covers ·)).size = x.symbols.size := by
  rw [gone, OrderedMap.values, List.length_map]
  exact (List.length_eq_length_filter_add _).symm

theorem of_act (h : d.act.on x = (.ok n, y)) :
    ∃ refs, (Symbols.drop d.covers).on x.symbols = (.ok refs, y.symbols) ∧ n = refs.length := by
  cases d with
  | ofFile repo path =>
    obtain ⟨refs, z, hdrop, hrest⟩ := Act.bind_ok h
    obtain ⟨hrefs, rfl⟩ := Prod.mk.inj hdrop
    obtain ⟨hn, rfl⟩ := Prod.mk.inj hrest
    exact ⟨refs, eq_of_fst hrefs, (Except.ok.inj hn).symm⟩
  | ofRepo repo =>
    obtain ⟨refs, z, hdrop, hrest⟩ := Act.bind_ok h
    obtain ⟨hrefs, rfl⟩ := Prod.mk.inj hdrop
    simp only [Act.on_bind, Act.on_modify, Act.on_liftOutcome] at hrest
    cases hrepo : asKey repo with
    | error f =>
      rw [hrepo] at hrest
      cases hrest
    | ok k =>
      rw [hrepo] at hrest
      obtain ⟨hn, rfl⟩ := Prod.mk.inj hrest
      exact ⟨refs, eq_of_fst hrefs, (Except.ok.inj hn).symm⟩
  | ofWorkspace workspace =>
    obtain ⟨refs, z, hdrop, hrest⟩ := Act.bind_ok h
    obtain ⟨hrefs, rfl⟩ := Prod.mk.inj hdrop
    obtain ⟨hn, rfl⟩ := Prod.mk.inj hrest
    exact ⟨refs, eq_of_fst hrefs, (Except.ok.inj hn).symm⟩

theorem act_returns_iff (d : Deletion) (x : Store) :
    (∃ n y, d.act.on x = (.ok n, y)) ↔ (∃ refs, ((Symbols.drop d.covers).on x.symbols).1 = .ok refs) ∧ d.Keyed := by
  constructor
  · rintro ⟨n, y, h⟩
    obtain ⟨refs, hrefs, -⟩ := of_act h
    refine ⟨⟨refs, congrArg Prod.fst hrefs⟩, ?_⟩
    cases d with
    | ofRepo repo =>
      obtain ⟨_, z, -, hrest⟩ := Act.bind_ok h
      simp only [Act.on_bind, Act.on_modify, Act.on_liftOutcome] at hrest
      obtain ⟨k, hk, -⟩ | ⟨-, f, hf⟩ := asKey_cases repo
      · exact Option.isSome_iff_exists.2 ⟨k, hk⟩
      · rw [hf] at hrest
        cases hrest
    | _ => trivial
  · rintro ⟨⟨refs, hrefs⟩, hkeyed⟩
    have hdrop : (inSymbols (Symbols.drop d.covers)).on x =
        (.ok refs, { x with symbols := ((Symbols.drop d.covers).on x.symbols).2 }) := by
      rw [inSymbols, Act.on_within, hrefs]
    cases d with
    | ofRepo repo =>
      obtain ⟨k, hk⟩ := Option.isSome_iff_exists.1 hkeyed
      have hrepo : asKey repo = .ok k := by
        unfold asKey
        rw [hk]
        rfl
      have hact : (deleteRepo repo).on x = _ := Act.on_bind_ok hdrop
      simp only [Act.on_bind, Act.on_modify, Act.on_liftOutcome, hrepo] at hact
      exact ⟨refs.length, _, hact⟩
    | ofFile repo path => exact ⟨refs.length, _, Act.on_bind_ok hdrop⟩
    | ofWorkspace workspace => exact ⟨refs.length, _, Act.on_bind_ok hdrop⟩

end Deletion

/-- A delete returns just if the references that it meets are keys, and the repository is one. It reports how many
references the documents had that went, and so how many documents went just if each of them had its own. -/
theorem deletion_reported_iff (x : Store) (d : Deletion) :
    ((∃ n y, d.act.on x = (.ok n, y)) ↔ (∀ doc ∈ d.gone x, doc.Referable) ∧ d.Keyed) ∧
    ∀ n y, d.act.on x = (.ok n, y) →
      y.symbols.documents = x.symbols.documents.keep (!d.covers ·) ∧
      (∃ refs, Distinct refs ∧ (∀ r, refs.contains r = true ↔ ∃ doc ∈ d.gone x, doc.HasRef r) ∧ n = refs.length) ∧
      n + y.symbols.size ≤ x.symbols.size ∧
      (n + y.symbols.size = x.symbols.size ↔ Document.OwnReferences (d.gone x)) := by
  have hreferable : (∃ refs, ((Symbols.drop d.covers).on x.symbols).1 = .ok refs) ↔
      ∀ doc ∈ d.gone x, doc.Referable := by
    rw [Symbols.drop_ok_iff]
    constructor
    · intro h doc hdoc
      obtain ⟨id, hid, hcovers⟩ := Deletion.mem_gone.1 hdoc
      exact h id doc hid hcovers
    · intro h id doc hid hcovers
      exact h doc (Deletion.mem_gone.2 ⟨id, hid, hcovers⟩)
  refine ⟨(d.act_returns_iff x).trans (and_congr_left' hreferable), ?_⟩
  intro n y h
  obtain ⟨refs, hrefs, rfl⟩ := Deletion.of_act h
  obtain ⟨hdistinct, hle, hiff⟩ := Symbols.length_of_drop hrefs
  have hdocuments : y.symbols.documents = x.symbols.documents.keep (!d.covers ·) := by
    have hkept := Symbols.documents_drop ((Symbols.drop_ok_iff _ _).1 ⟨refs, congrArg Prod.fst hrefs⟩)
    rwa [hrefs] at hkept
  have hsize : (d.gone x).length + y.symbols.size = x.symbols.size := by
    rw [Symbols.size, hdocuments]
    exact d.size_gone x
  refine ⟨hdocuments, ⟨refs, hdistinct, fun r => ?_, rfl⟩, ?_, ?_⟩
  · rw [Symbols.refs_of_drop hrefs]
    constructor
    · rintro ⟨id, doc, hid, hcovers, hr⟩
      exact ⟨doc, Deletion.mem_gone.2 ⟨id, hid, hcovers⟩, hr⟩
    · rintro ⟨doc, hdoc, hr⟩
      obtain ⟨id, hid, hcovers⟩ := Deletion.mem_gone.1 hdoc
      exact ⟨id, doc, hid, hcovers, hr⟩
  · rw [← hsize]
    exact Nat.add_le_add_right hle _
  · rw [← hsize, Nat.add_right_cancel_iff]
    exact hiff

/-! Documents of one file of which two share a reference and one has none. -/

def withReference (id : String) (ref : Value) : Value :=
  .obj [("id", .str id), ("symbol_ref", ref), ("repo_id", "r"), ("file_path", "a.py"), ("workspace_id", "w")]

def sharing : Store := after {} [.documents [withReference "1" "f", withReference "2" "f", withReference "3" .null]]

def apart : Store := after {} [.documents [withReference "1" "f", withReference "2" "g"]]

theorem both_go_as_two :
    ∃ y, (deleteFile "r" "a.py").on apart = (.ok 2, y) ∧ 2 + y.symbols.size = apart.symbols.size := by
  have hown : Document.OwnReferences (Deletion.gone (.ofFile "r" "a.py") apart) :=
    (Document.ownReferences_iff _).2 ⟨rfl, by decide⟩
  obtain ⟨-, hreported⟩ := deletion_reported_iff apart (.ofFile "r" "a.py")
  obtain ⟨-, -, -, hcount⟩ := hreported 2 ((deleteFile "r" "a.py").on apart).2 rfl
  exact ⟨_, rfl, hcount.2 hown⟩

theorem three_go_as_one :
    ∃ y, (deleteFile "r" "a.py").on sharing = (.ok 1, y) ∧ sharing.symbols.size = 3 ∧ y.symbols.size = 0 :=
  ⟨_, rfl, rfl, rfl⟩

end Graph.Store

end SourceAtlas
