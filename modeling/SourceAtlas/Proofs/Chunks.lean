import SourceAtlas.Chunk
import SourceAtlas.Document
import SourceAtlas.Proofs.Symbols

/-!
# Chunks as documents

A chunk is stored with the file that it belongs to in its payload, which is
how the parts of an atlas find the entries of a file again.
-/

namespace SourceAtlas

open Json (Value Record Key)

abbrev FileKey := Key × Key

def Document.inFile (file : FileKey) (d : Document) : Bool :=
  d.ofFile file.1.toValue file.2.toValue

theorem Json.Value.str_same (s : String) (v : Value) : (Value.str s).same v = true ↔ v = .str s := by
  cases v with
  | str t => rw [Value.same, beq_iff_eq, Value.str.injEq]; exact eq_comm
  | _ => simp [Value.same, Value.number?]

theorem Json.Value.same_str (v : Value) (s : String) : v.same (.str s) = true ↔ v = .str s := by
  cases v <;> simp [Value.same, Value.number?]

namespace Json.Key

/-- Keys are told apart as their values are. -/
theorem same_toValue (j k : Key) : j.toValue.same k.toValue = (j == k) := by
  rw [Bool.eq_iff_iff, beq_iff]
  cases j <;> cases k <;> simp [toValue, Value.same, Value.number?, rank]

theorem toValue_eq_str (k : Key) (s : String) : k.toValue = .str s ↔ k = .str s := by
  cases k <;> simp [toValue]

theorem beq_str (k : Key) (s : String) : (k == .str s) = true ↔ k = .str s := by
  rw [beq_iff]
  cases k <;> simp [rank]

theorem str_beq (k : Key) (s : String) : (Key.str s == k) = true ↔ k = .str s := by
  rw [BEq.comm, beq_str]

end Json.Key

theorem asKey_str (s : String) : asKey (.str s) = .ok (.str s) := rfl

theorem asKey_toValue (k : Key) : asKey k.toValue = .ok k := by
  cases k <;> rfl

namespace Chunk

def key (c : Chunk) : Key := .str c.id

def file (c : Chunk) : FileKey := (.str c.payload.context.repo, .str c.payload.context.path)

theorem idOf_toDocument (c : Chunk) : Document.idOf (.obj c.toDocument) = .ok c.key := rfl

theorem referable (c : Chunk) : Document.Referable c.toDocument := by
  intro ref h
  have hv : Document.ref? c.toDocument = (some (Value.str c.payload.ref)).filter Value.truthy := rfl
  rw [hv, Option.filter_eq_some_iff] at h
  cases h.1
  rfl

theorem inFile_payload (c : Chunk) (file : FileKey) :
    Document.inFile file c.payload.toRecord = true ↔ file = c.file := by
  have hr : Record.get c.payload.toRecord "repo_id" = .str c.payload.context.repo := rfl
  have hp : Record.get c.payload.toRecord "file_path" = .str c.payload.context.path := rfl
  obtain ⟨repo, path⟩ := file
  simp only [Document.inFile, Document.ofFile, Document.has, hr, hp, Bool.and_eq_true, Value.str_same,
    Key.toValue_eq_str, Chunk.file, Prod.mk.injEq]

theorem inFile_toDocument (c : Chunk) (file : FileKey) :
    Document.inFile file c.toDocument = true ↔ file = c.file :=
  c.inFile_payload file

theorem file_beq (c : Chunk) (file : FileKey) : (c.file == file) = true ↔ file = c.file := by
  rw [beq_pair, Chunk.file, Key.str_beq, Key.str_beq, Prod.ext_iff]

theorem key_beq (c : Chunk) (k : Key) : (c.key == k) = true ↔ k = c.key := by
  rw [Chunk.key, Key.str_beq]

def place (c : Chunk) : String × String × String × String :=
  (c.payload.context.workspace, c.payload.context.repo, c.payload.context.path, c.payload.symbolName)

end Chunk

/-! ## Joined texts -/

/-- What does not hold the separator ends where it comes first. -/
theorem eq_of_append_cons_of_notMem {α : Type} {p : α} {v w x y : List α} (hv : p ∉ v) (hw : p ∉ w)
    (h : v ++ p :: x = w ++ p :: y) : v = w ∧ x = y := by
  induction v generalizing w with
  | nil =>
    cases w with
    | nil => exact ⟨rfl, (List.cons.inj h).2⟩
    | cons a w => exact absurd ((List.cons.inj h).1 ▸ List.mem_cons_self) hw
  | cons a v ih =>
    cases w with
    | nil => exact absurd ((List.cons.inj h).1 ▸ List.mem_cons_self) hv
    | cons b w =>
      obtain ⟨rfl, h'⟩ := List.cons.inj h
      obtain ⟨rfl, hrest⟩ := ih (List.not_mem_of_not_mem_cons hv) (List.not_mem_of_not_mem_cons hw) h'
      exact ⟨rfl, hrest⟩

/-- Joined texts can be cut where the separator comes last. -/
theorem eq_of_append_cons_last {α : Type} {p : α} {v w x y : List α} (hx : p ∉ x) (hy : p ∉ y)
    (h : v ++ p :: x = w ++ p :: y) : v = w ∧ x = y := by
  have h := congrArg List.reverse h
  simp only [List.reverse_append, List.reverse_cons, List.append_assoc, List.singleton_append] at h
  obtain ⟨hback, hfront⟩ := eq_of_append_cons_of_notMem (by simpa using hx) (by simpa using hy) h
  exact ⟨List.reverse_injective hfront, List.reverse_injective hback⟩

/-! ## Ids -/

/-- Different places gave different ids. -/
def Separated (cs : List Chunk) : Prop := ∀ c ∈ cs, ∀ d ∈ cs, c.id = d.id → c.place = d.place

instance (cs : List Chunk) : Decidable (Separated cs) :=
  inferInstanceAs (Decidable (∀ c ∈ cs, ∀ d ∈ cs, c.id = d.id → c.place = d.place))

theorem Separated.mono {cs ds : List Chunk} (h : Separated ds) (hsub : cs ⊆ ds) : Separated cs :=
  fun c hc d hd => h c (hsub hc) d (hsub hd)

theorem Separated.name {cs : List Chunk} (h : Separated cs) {c d : Chunk} (hc : c ∈ cs) (hd : d ∈ cs)
    (hid : c.id = d.id) : c.payload.symbolName = d.payload.symbolName := by
  have hplace := h c hc d hd hid
  simp only [Chunk.place, Prod.mk.injEq] at hplace
  exact hplace.2.2.2

theorem Separated.file {cs : List Chunk} (h : Separated cs) {c d : Chunk} (hc : c ∈ cs) (hd : d ∈ cs)
    (hkey : c.key = d.key) : c.file = d.file := by
  have hplace := h c hc d hd (Key.str.inj hkey)
  simp only [Chunk.place, Prod.mk.injEq] at hplace
  rw [Chunk.file, Chunk.file, hplace.2.1, hplace.2.2.1]

end SourceAtlas
