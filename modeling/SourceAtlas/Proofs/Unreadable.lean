import SourceAtlas.Proofs.FileTrees

/-!
# Files that hold no snapshot

A file that cannot be loaded is reported with its path, or the reading fails
with something that says nothing of it: the file ends too early or its stream
is corrupt, its text is nested too deep, or what it spells is no record.
-/

namespace SourceAtlas

open Compress (Gzip.unpack)
open Json (Record Value)
open Text (Path)

variable {t : FileTree} {p : Path} {content : FileContent} {fields : Record} {m : Mishap}

inductive FileContent.Spells : FileContent → Json.Reading Value → Prop
  | record {fields : Record} : Spells (.record fields) (.ok (.obj fields))
  | compressed {bs : List UInt8} {text : String} :
    Text.decode? bs = some text → Spells (.compressed bs) (Json.read text)
  | bytes {bs us : List UInt8} {text : String} :
    Gzip.unpack bs = .ok us → Text.decode? us = some text → Spells (.bytes bs) (Json.read text)

inductive FileContent.Escapes : FileContent → Mishap → Prop
  | truncated : Escapes .truncated .truncatedFile
  | cutOff {bs : List UInt8} : Gzip.unpack bs = .error .cutOff → Escapes (.bytes bs) .truncatedFile
  | corrupt {bs : List UInt8} : Gzip.unpack bs = .error .corrupt → Escapes (.bytes bs) .corruptStream
  | nested {content : FileContent} : content.Spells (.error .tooDeep) → Escapes content .tooDeep
  | bare {content : FileContent} {v : Value} :
    content.Spells (.ok v) → (∀ fields, v ≠ .obj fields) → Escapes content .missingAttribute

namespace FileContent

theorem decompressed_of_spells {r : Json.Reading Value} (h : content.Spells r) :
    content.decompressed = r.mapError Json.Fault.toFailure := by
  cases h with
  | record => rfl
  | compressed htext => simp only [decompressed, Json.decode, Text.Encoding.decode?, htext, Json.parse]
  | bytes hbytes htext => simp only [decompressed, decompress, hbytes, Json.decode,
      Text.Encoding.decode?, htext, Json.parse]

/-- Contents that are no text are badly encoded. -/
theorem decode_of_no_text {bs : List UInt8} (h : Text.decode? bs = none) :
    Json.decode .utf8 bs = .error (.mishap .badEncoding) := by
  rw [Json.decode, Text.Encoding.decode?, h]
  rfl

/-- A file holds a text, goes unreported for want of one, or is told by a failure of its own. -/
theorem spells_or_escapes (content : FileContent) : (∃ r, content.Spells r) ∨ (∃ m, content.Escapes m) ∨
    ∃ f, content.decompressed = .error f ∧ Snapshot.isBare f = false := by
  cases content with
  | record fields => exact .inl ⟨_, .record⟩
  | truncated => exact .inr (.inl ⟨_, .truncated⟩)
  | compressed bs =>
    cases htext : Text.decode? bs with
    | some text => exact .inl ⟨_, .compressed htext⟩
    | none => exact .inr (.inr ⟨_, decode_of_no_text htext, rfl⟩)
  | bytes bs =>
    cases hbytes : Gzip.unpack bs with
    | error fault =>
      cases fault with
      | cutOff => exact .inr (.inl ⟨_, .cutOff hbytes⟩)
      | corrupt => exact .inr (.inl ⟨_, .corrupt hbytes⟩)
      | foreign =>
        refine .inr (.inr ⟨.mishap .notCompressed, ?_, rfl⟩)
        rw [decompressed, decompress, hbytes]
        rfl
    | ok us =>
      cases htext : Text.decode? us with
      | some text => exact .inl ⟨_, .bytes hbytes htext⟩
      | none =>
        refine .inr (.inr ⟨.mishap .badEncoding, ?_, rfl⟩)
        rw [decompressed, decompress, hbytes]
        exact decode_of_no_text htext

/-- What a text comes to: a record, something that goes unreported, or a failure of its own. -/
theorem sorts (content : FileContent) : (∃ fields, content.Spells (.ok (.obj fields))) ∨ (∃ m, content.Escapes m) ∨
    ∃ f, content.decompressed = .error f ∧ Snapshot.isBare f = false := by
  rcases content.spells_or_escapes with ⟨r, hr⟩ | h
  · have hvalue := decompressed_of_spells hr
    cases r with
    | error fault =>
      cases fault with
      | tooDeep => exact .inr (.inl ⟨_, .nested hr⟩)
      | malformed => exact .inr (.inr ⟨_, hvalue, rfl⟩)
      | tooManyDigits n => exact .inr (.inr ⟨_, hvalue, rfl⟩)
    | ok v =>
      by_cases hv : ∃ fields, v = .obj fields
      · obtain ⟨fields, rfl⟩ := hv
        exact .inl ⟨fields, hr⟩
      · exact .inr (.inl ⟨_, .bare hr (not_exists.1 hv)⟩)
  · exact .inr h

end FileContent

namespace Snapshot

open FileContent (decompressed decompressed_of_spells)

section

variable (h : t.readFile p = .ok content)

include h

theorem load_of_read : load t p = match content.decompressed with
    | .ok (.obj fields) => .ok (some fields)
    | .ok _ => .error (.mishap .missingAttribute)
    | .error f => .error (if isBare f then f else .snapshot "load" p.toString f) := by
  simp only [load, FileTree.has_of_readFile h, h, bind, Except.bind, Bool.not_true, Bool.false_eq_true, reduceIte]
  rfl

theorem load_of_spells (hspells : content.Spells (.ok (.obj fields))) : load t p = .ok (some fields) := by
  rw [load_of_read h, decompressed_of_spells hspells]
  rfl

theorem load_of_escapes (hescapes : content.Escapes m) : load t p = .error (.mishap m) := by
  rw [load_of_read h]
  cases hescapes with
  | truncated => rfl
  | cutOff hbytes | corrupt hbytes =>
    rw [decompressed, decompress, hbytes]
    rfl
  | nested hspells =>
    rw [decompressed_of_spells hspells]
    rfl
  | bare hspells hvalue =>
    rw [decompressed_of_spells hspells, Except.mapError]
    split
    · rename_i fields hfields
      exact absurd (Except.ok.inj hfields) (hvalue fields)
    · rfl
    · rename_i hfailure
      cases hfailure

theorem load_of_failure {f : Failure} (hf : content.decompressed = .error f) (hbare : isBare f = false) :
    load t p = .error (.snapshot "load" p.toString f) := by
  rw [load_of_read h, hf]
  simp only [hbare, Bool.false_eq_true, reduceIte]

end

/-- A file is loaded just if it spells a record, and whatever else is wrong with it is reported
unless it escapes. -/
theorem load_reports_iff (h : t.readFile p = .ok content) :
    (∀ fields, load t p = .ok (some fields) ↔ content.Spells (.ok (.obj fields))) ∧
    (∀ m, load t p = .error (.mishap m) ↔ content.Escapes m) ∧
    ((∃ fields, load t p = .ok (some fields)) ∨
        (∃ cause, load t p = .error (.snapshot "load" p.toString cause)) ↔
      ∀ m, ¬ content.Escapes m) := by
  rcases content.sorts with ⟨fields, hspells⟩ | ⟨m, hescapes⟩ | ⟨f, hf, hbare⟩
  · have hload := load_of_spells h hspells
    have hnone : ∀ m, ¬ content.Escapes m := fun m hm => by
      cases hload.symm.trans (load_of_escapes h hm)
    refine ⟨fun other => ⟨fun hother => ?_, load_of_spells h⟩, fun m => ⟨fun hm => ?_, load_of_escapes h⟩, ?_⟩
    · cases hload.symm.trans hother
      exact hspells
    · cases hload.symm.trans hm
    · exact iff_of_true (.inl ⟨fields, hload⟩) hnone
  · have hload := load_of_escapes h hescapes
    refine ⟨fun other => ⟨fun hother => ?_, load_of_spells h⟩, fun n => ⟨fun hn => ?_, load_of_escapes h⟩, ?_⟩
    · cases hload.symm.trans hother
    · cases hload.symm.trans hn
      exact hescapes
    · refine iff_of_false ?_ (fun hnone => hnone m hescapes)
      rintro (⟨_, hother⟩ | ⟨_, hother⟩) <;> cases hload.symm.trans hother
  · have hload := load_of_failure h hf hbare
    have hnone : ∀ m, ¬ content.Escapes m := fun m hm => by
      cases hload.symm.trans (load_of_escapes h hm)
    refine ⟨fun other => ⟨fun hother => ?_, load_of_spells h⟩, fun m => ⟨fun hm => ?_, load_of_escapes h⟩, ?_⟩
    · cases hload.symm.trans hother
    · cases hload.symm.trans hm
    · exact iff_of_true (.inr ⟨f, hload⟩) hnone

def shelved (content : FileContent) : FileTree := .dir [("s" ++ suffix, .file content)]

def shelf : Path := FileTree.fileIn [] ("s" ++ suffix)

theorem readFile_shelved (content : FileContent) : (shelved content).readFile shelf = .ok content := rfl

def packedList : List UInt8 :=
  [0x1f, 0x8b, 8, 0, 0, 0, 0, 0, 0, 0xff, 1, 3, 0, 0xfc, 0xff, 0x5b, 0x31, 0x5d, 0xb8, 0x32, 0x2f, 0x4c, 3, 0, 0, 0]

theorem spells_packedList : (FileContent.bytes packedList).Spells (.ok (.list [.int 1])) := by
  have hunpack : Gzip.unpack packedList = .ok [0x5b, 0x31, 0x5d] := by decide +kernel
  have htext : Text.decode? [0x5b, 0x31, 0x5d] = some "[1]" := by decide +kernel
  exact .bytes hunpack htext

theorem load_reports_iff_of_list : (shelved (.bytes packedList)).readFile shelf = .ok (.bytes packedList) ∧
    load (shelved (.bytes packedList)) shelf = .error (.mishap .missingAttribute) := by
  have hescapes : (FileContent.bytes packedList).Escapes .missingAttribute :=
    .bare spells_packedList fun _ hfields => by cases hfields
  exact ⟨readFile_shelved _, ((load_reports_iff (readFile_shelved _)).2.1 _).2 hescapes⟩

/-- A file of which only the mark is left is not reported. -/
theorem mark_is_unreported : ¬ ∀ (t : FileTree) (p : Path) (bs : List UInt8), t.readFile p = .ok (.bytes bs) →
    (∃ fields, load t p = .ok (some fields)) ∨ ∃ cause, load t p = .error (.snapshot "load" p.toString cause) := by
  intro hall
  have hread := readFile_shelved (.bytes [0x1f, 0x8b])
  have hload := load_of_escapes hread (.cutOff rfl)
  rcases hall _ _ _ hread with ⟨_, hother⟩ | ⟨_, hother⟩ <;> cases hload.symm.trans hother

end Snapshot

end SourceAtlas
