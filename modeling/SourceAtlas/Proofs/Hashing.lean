import SourceAtlas.Index.ContentHash
import SourceAtlas.Proofs.FileTrees
import SourceAtlas.Proofs.Ids
import SourceAtlas.Proofs.Pieces

/-!
# Hashing in pieces

A stream compresses every block that gets full and keeps the bytes that fill
none. Where the pieces end that it is fed with makes no difference, so a file,
which is read piece by piece, has the hash that its bytes have at once.
-/

namespace SourceAtlas

open Search (batches Batched)

theorem Text.encode_eq_flatMap (s : String) : encode s = s.toList.flatMap String.utf8EncodeChar := by
  rw [encode_eq_data, String.toUTF8, ← String.utf8Encode_toList, List.utf8Encode, List.data_toByteArray]

namespace Digest

variable {size : Nat} {bytes : List UInt8} {full : List (Array UInt8)} {rest : Array UInt8}

/-! ## Blocks and what is left -/

/-- An input as blocks that are full and a rest that fills none. -/
structure Cut (size : Nat) (bytes : List UInt8) (full : List (Array UInt8)) (rest : Array UInt8) : Prop where
  whole : full.flatMap Array.toList ++ rest.toList = bytes
  sized : ∀ block ∈ full, block.size = size
  short : rest.size < size

theorem Cut.nil (hpos : 0 < size) : Cut size [] [] #[] := ⟨rfl, by simp, hpos⟩

theorem Cut.grow (h : Cut size bytes full rest) {b : UInt8} (hshort : (rest.push b).size < size) :
    Cut size (bytes ++ [b]) full (rest.push b) where
  whole := by rw [Array.toList_push, ← List.append_assoc, h.whole]
  sized := h.sized
  short := hshort

theorem Cut.fill (h : Cut size bytes full rest) {b : UInt8} (hfull : ¬ (rest.push b).size < size) :
    Cut size (bytes ++ [b]) (full ++ [rest.push b]) #[] where
  whole := by simp [← h.whole]
  sized block hblock := by
    have hshort := h.short
    rw [Array.size_push] at hfull
    rcases List.mem_append.1 hblock with hblock | hblock
    · exact h.sized block hblock
    · rw [List.mem_singleton.1 hblock, Array.size_push]
      omega
  short := Nat.zero_lt_of_lt h.short

theorem blocks_of_short (h : bytes.length < size) : blocks size bytes = [] := by
  rw [blocks, Nat.div_eq_of_lt h, List.range_zero, List.map_nil]

theorem blocks_append (hpos : 0 < size) {block : Array UInt8} (hblock : block.size = size) (bytes : List UInt8) :
    blocks size (block.toList ++ bytes) = block :: blocks size bytes := by
  have hlength : block.toList.length = size := hblock
  have hcount : (block.toList ++ bytes).length / size = bytes.length / size + 1 := by
    rw [List.length_append, hlength, Nat.add_div_left _ hpos]
  have hdrop : ∀ i, (block.toList ++ bytes).drop ((i + 1) * size) = bytes.drop (i * size) := by
    intro i
    rw [Nat.succ_mul, Nat.add_comm, ← List.drop_drop, ← hlength, List.drop_left]
  rw [blocks, blocks, hcount, List.range_succ_eq_map, List.map_cons, List.map_map]
  congr 1
  · rw [Nat.zero_mul, List.drop_zero, List.take_left' hlength]
  · apply List.map_congr_left
    intro i _
    rw [Function.comp_apply, hdrop]

/-- There is one way to cut an input. -/
theorem Cut.blocks_eq (h : Cut size bytes full rest) : blocks size bytes = full := by
  obtain ⟨rfl, hsized, hshort⟩ := h
  induction full with
  | nil => exact blocks_of_short hshort
  | cons block full ih =>
    obtain ⟨hblock, hsized⟩ := List.forall_mem_cons.1 hsized
    rw [List.flatMap_cons, List.append_assoc, blocks_append (Nat.zero_lt_of_lt hshort) hblock, ih hsized]

/-! ## Streams -/

variable {h : BlockHash}

namespace Stream

variable {s : Stream h}

/-- What a stream holds when it was fed with some bytes, however they came. -/
structure Fed (s : Stream h) (bytes : List UInt8) : Prop where
  cut : Cut h.blockSize bytes (blocks h.blockSize bytes) s.tail
  state : s.state = (blocks h.blockSize bytes).foldl h.compress h.start
  length : s.length = bytes.length

theorem Fed.of_cut (hcut : Cut h.blockSize bytes full s.tail) (hstate : s.state = full.foldl h.compress h.start)
    (hlength : s.length = bytes.length) : s.Fed bytes := by
  obtain rfl := hcut.blocks_eq
  exact ⟨hcut, hstate, hlength⟩

theorem Fed.start (hpos : 0 < h.blockSize) : (start h).Fed [] := .of_cut (.nil hpos) rfl rfl

theorem Fed.push (hs : s.Fed bytes) (b : UInt8) : (s.push b).Fed (bytes ++ [b]) := by
  have hlength : s.length + 1 = (bytes ++ [b]).length := by
    rw [hs.length, List.length_append, List.length_singleton]
  unfold Stream.push
  by_cases hshort : (s.tail.push b).size < h.blockSize
  · rw [if_pos hshort]
    exact .of_cut (hs.cut.grow hshort) hs.state hlength
  · rw [if_neg hshort]
    refine .of_cut (hs.cut.fill hshort) ?_ hlength
    rw [List.foldl_append, ← hs.state]
    rfl

theorem Fed.update (hs : s.Fed bytes) (more : List UInt8) : (s.update more).Fed (bytes ++ more) := by
  induction more generalizing s bytes with
  | nil => rwa [List.append_nil]
  | cons b more ih =>
    rw [← List.singleton_append, ← List.append_assoc]
    exact ih (hs.push b)

/-- Pieces that come one after the other leave what they leave when they are joined. -/
theorem foldl_update (s : Stream h) (pieces : List (List UInt8)) :
    pieces.foldl update s = s.update pieces.flatten :=
  List.foldl_flatten.symm

end Stream

/-- The digest of an input is made from its full blocks, in their order, and from what is left. -/
theorem BlockHash.digest_eq (hpos : 0 < h.blockSize) (bytes : List UInt8) :
    ∃ rest, Cut h.blockSize bytes (blocks h.blockSize bytes) rest ∧
      h.digest bytes = h.finish ((blocks h.blockSize bytes).foldl h.compress h.start) rest bytes.length := by
  have hfed := (Stream.Fed.start hpos).update bytes
  rw [List.nil_append] at hfed
  refine ⟨_, hfed.cut, ?_⟩
  rw [BlockHash.digest, Stream.digest, hfed.state, hfed.length]

end Digest

namespace Index

open Digest (BlockHash Stream Cut blocks hex)

variable {t : FileTree} {path : Text.Path} {bytes : List UInt8}

theorem HashAlgorithm.blockSize_pos (a : HashAlgorithm) : 0 < a.hash.blockSize := by
  cases a <;> decide

/-! ## Reading piece by piece -/

def piecesOf (bytes : List UInt8) : List (List UInt8) := batches (pieceSize - 1) bytes

theorem absorb_eq_foldl {h : BlockHash} (s : Stream h) (bytes : List UInt8) :
    absorb s bytes = (piecesOf bytes).foldl Stream.update s := by
  unfold piecesOf
  induction s, bytes using absorb.induct with
  | case1 s => rw [absorb, batches, List.foldl_nil]
  | case2 s b rest ih =>
    rw [absorb, ih, batches, List.foldl_cons]
    rfl

theorem length_piecesOf (bytes : List UInt8) :
    (piecesOf bytes).length = (bytes.length + (pieceSize - 1)) / pieceSize :=
  Search.length_batches ..

theorem hashFile_of_readFile (a : HashAlgorithm) (h : t.readFile path = .ok (.bytes bytes)) :
    hashFile a t path = .ok (.ofBytes a path.toString bytes) := by
  rw [hashFile, FileTree.has_of_readFile h, h]
  rfl

/-- However long a file is, it has the hash of its bytes. It is fed to the hash in pieces that join to it in
their order and are full but for the last one, and the hash is made from the blocks of the whole, wherever the
pieces end. A text has the hash of the bytes of its characters. -/
theorem hashFile_eq_hashBytes (a : HashAlgorithm) (hfile : t.readFile path = .ok (.bytes bytes)) :
    hashFile a t path = .ok ⟨path.toString, hashBytes a bytes, bytes.length⟩ ∧
      absorb (.start a.hash) bytes = (piecesOf bytes).foldl Stream.update (.start a.hash) ∧
      Batched pieceSize bytes (piecesOf bytes) ∧
      (piecesOf bytes).length = (bytes.length + (pieceSize - 1)) / pieceSize ∧
      (∃ rest, Cut a.hash.blockSize bytes (blocks a.hash.blockSize bytes) rest ∧ hashBytes a bytes =
        hex (a.hash.finish ((blocks a.hash.blockSize bytes).foldl a.hash.compress a.hash.start)
          rest bytes.length)) ∧
      ∀ text : String, hashBytes a (Text.encode text) =
        hashBytes a (text.toList.flatMap String.utf8EncodeChar) := by
  have hpieces : Batched pieceSize bytes (piecesOf bytes) := Search.batched_batches (pieceSize - 1) bytes
  have habsorb := absorb_eq_foldl (.start a.hash) bytes
  have hwhole : absorb (.start a.hash) bytes = (Stream.start a.hash).update bytes := by
    rw [habsorb, Stream.foldl_update, hpieces.whole]
  refine ⟨?_, habsorb, hpieces, length_piecesOf bytes, ?_, ?_⟩
  · rw [hashFile_of_readFile a hfile, FileHash.ofBytes, hwhole]
    rfl
  · obtain ⟨rest, hcut, hdigest⟩ := BlockHash.digest_eq a.blockSize_pos bytes
    exact ⟨rest, hcut, by rw [hashBytes, hdigest]⟩
  · intro text
    rw [Text.encode_eq_flatMap]

theorem hashFile_eq_hashBytes_of_three_pieces :
    let text := String.ofList (List.replicate (2 * pieceSize + 7) 'a')
    let bytes : List UInt8 := List.replicate (2 * pieceSize + 7) 0x61
    let t : FileTree := .dir [("big.bin", .file (.bytes bytes))]
    t.readFile (.ofString "big.bin") = .ok (.bytes bytes) ∧ (piecesOf bytes).length = 3 ∧
      hashFile .sha256 t (.ofString "big.bin") = .ok ⟨"big.bin", hashBytes .sha256 (Text.encode text), 131079⟩ := by
  intro text bytes t
  have hfile : t.readFile (.ofString "big.bin") = .ok (.bytes bytes) := by rfl
  have hlength : bytes.length = 131079 := List.length_replicate
  have hbytes : text.toList.flatMap String.utf8EncodeChar = bytes := by
    have hletter : String.utf8EncodeChar 'a' = [0x61] := by decide
    rw [String.toList_ofList, List.flatMap_replicate, hletter, List.flatten_replicate_singleton]
  obtain ⟨hhash, -, -, hcount, -, htext⟩ := hashFile_eq_hashBytes .sha256 hfile
  refine ⟨hfile, ?_, ?_⟩
  · rw [hcount, hlength]
    rfl
  · rw [hhash, htext text, hbytes, hlength]
    rfl

end Index

end SourceAtlas
