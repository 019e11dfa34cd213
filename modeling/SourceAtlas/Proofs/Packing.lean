import Mathlib.Algebra.Group.Nat.Defs
import SourceAtlas.Proofs.Pieces
import SourceAtlas.Snapshot

/-!
# Packed bytes

Bytes of any number can be packed in blocks that hold them as they are. What
was packed is unpacked again, and so are several members in one file, with
zeros behind each of them.
-/

namespace SourceAtlas

namespace Compress

def littleEndian : Nat → Nat → List UInt8
  | 0, _ => []
  | n + 1, m => m.toUInt8 :: littleEndian n (m / 256)

namespace Deflate

def lowBits (n m : Nat) : List Bool := (List.range n).map m.testBit

def storedBlock (last : Bool) (us : List UInt8) : List UInt8 :=
  last.toNat.toUInt8 :: (littleEndian 2 us.length ++ littleEndian 2 (0xffff - us.length) ++ us)

/-- Some pieces in blocks of their own, and a last block of nothing. -/
def storedBlocks : List (List UInt8) → List UInt8
  | [] => storedBlock true []
  | piece :: pieces => storedBlock false piece ++ storedBlocks pieces

end Deflate

def Gzip.pack (us : List UInt8) : List UInt8 :=
  0x1f :: 0x8b :: ([8, 0, 0, 0, 0, 0, 0, 0xff] ++ (Deflate.storedBlocks (Search.batches 0xfffe us) ++
    (littleEndian 4 (Digest.Crc32.digest us).toNat ++ littleEndian 4 us.length)))

theorem length_littleEndian (n : Nat) : ∀ m, (littleEndian n m).length = n := by
  induction n with
  | zero => exact fun m => rfl
  | succ n ih => exact fun m => congrArg (· + 1) (ih (m / 256))

theorem ofLittleEndian_littleEndian (n : Nat) : ∀ m, Gzip.ofLittleEndian (littleEndian n m) = m % 256 ^ n := by
  induction n with
  | zero => exact fun m => (Nat.mod_one m).symm
  | succ n ih =>
    intro m
    have hcons : Gzip.ofLittleEndian (littleEndian (n + 1) m) =
        m.toUInt8.toNat + 256 * Gzip.ofLittleEndian (littleEndian n (m / 256)) := rfl
    rw [hcons, ih, Nat.pow_succ', Nat.mod_mul]
    rfl

namespace Deflate

variable {α β : Type} {n m : Nat} {bits rest : List Bool}

theorem run_bind_ok {x : Reading α} {f : α → Reading β} {a : α} (h : x.run bits = .ok (a, rest)) :
    (x >>= f).run bits = (f a).run rest := by
  rw [StateT.run_bind, h]
  rfl

/-! ## Bits of numbers -/

theorem lowBits_succ (n m : Nat) : lowBits (n + 1) m = m.testBit 0 :: lowBits n (m / 2) := by
  rw [lowBits, List.range_succ_eq_map, List.map_cons, List.map_map, lowBits]
  congr 1
  exact List.map_congr_left fun i _ => Nat.testBit_succ m i

theorem lowBits_add (k n m : Nat) : lowBits (k + n) m = lowBits k m ++ lowBits n (m / 2 ^ k) := by
  rw [lowBits, List.range_add, List.map_append, List.map_map, lowBits, lowBits]
  congr 1
  refine List.map_congr_left fun i _ => ?_
  rw [Function.comp_apply, Nat.testBit_div_two_pow, Nat.add_comm]

theorem bitsOf_toUInt8 (m : Nat) : bitsOf m.toUInt8 = lowBits 8 m := by
  refine List.map_congr_left fun i hi => ?_
  have hbyte : m.toUInt8.toNat = m % 2 ^ 8 := rfl
  rw [hbyte, Nat.testBit_mod_two_pow, decide_eq_true (List.mem_range.1 hi), Bool.true_and]

theorem bits_littleEndian (n : Nat) : ∀ m, (littleEndian n m).flatMap bitsOf = lowBits (8 * n) m := by
  induction n with
  | zero => exact fun m => rfl
  | succ n ih =>
    intro m
    rw [littleEndian, List.flatMap_cons, bitsOf_toUInt8, ih, Nat.mul_succ, Nat.add_comm]
    exact (lowBits_add 8 (8 * n) m).symm

theorem length_flatMap_bitsOf (bytes : List UInt8) : (bytes.flatMap bitsOf).length = 8 * bytes.length := by
  induction bytes with
  | nil => rfl
  | cons b bytes ih =>
    have hbyte : (bitsOf b).length = 8 := by rw [bitsOf, List.length_map, List.length_range]
    rw [List.flatMap_cons, List.length_append, ih, hbyte, List.length_cons]
    omega

theorem number_lowBits (n : Nat) : ∀ m, (number n).run (lowBits n m ++ rest) = .ok (m % 2 ^ n, rest) := by
  induction n with
  | zero =>
    intro m
    rw [Nat.pow_zero, Nat.mod_one]
    rfl
  | succ n ih =>
    intro m
    have hbit : bit.run (lowBits (n + 1) m ++ rest) = .ok (m.testBit 0, lowBits n (m / 2) ++ rest) := by
      rw [lowBits_succ]
      rfl
    rw [number, run_bind_ok hbit, run_bind_ok (ih (m / 2)), Nat.toNat_testBit, Nat.pow_zero, Nat.div_one,
      Nat.pow_succ', Nat.mod_mul]
    rfl

/-! ## Blocks as they are -/

theorem readBytes_bits (us : List UInt8) : ∀ out : Array UInt8,
    (readBytes us.length out).run (us.flatMap bitsOf ++ rest) = .ok (out ++ us.toArray, rest) := by
  induction us with
  | nil =>
    intro out
    rw [Array.append_empty]
    rfl
  | cons u us ih =>
    intro out
    have hbyte : (number 8).run (bitsOf u ++ (us.flatMap bitsOf ++ rest)) =
        .ok (u.toNat, us.flatMap bitsOf ++ rest) := by
      refine (number_lowBits 8 u.toNat).trans ?_
      rw [Nat.mod_eq_of_lt u.toNat_lt]
    rw [List.flatMap_cons, List.append_assoc, List.length_cons, readBytes, run_bind_ok hbyte, ih]
    simp

/-- The bits that are left of the first byte of a block are skipped. -/
theorem readStored_bits {us : List UInt8} (hus : us.length ≤ 0xffff) (hrest : rest.length % 8 = 0)
    (out : Array UInt8) :
    (readStored out).run (List.replicate 5 false ++
      ((littleEndian 2 us.length ++ littleEndian 2 (0xffff - us.length) ++ us).flatMap bitsOf ++ rest)) =
      .ok (out ++ us.toArray, rest) := by
  generalize hbytes :
    (littleEndian 2 us.length ++ littleEndian 2 (0xffff - us.length) ++ us).flatMap bitsOf ++ rest = bits
  have hskip : (modify fun bits => bits.drop (bits.length % 8) : Reading PUnit).run
      (List.replicate 5 false ++ bits) = .ok ((), bits) := by
    have hlength : (List.replicate 5 false ++ bits).length % 8 = 5 := by
      rw [List.length_append, List.length_replicate, ← hbytes, List.length_append, length_flatMap_bitsOf]
      omega
    show Except.ok ((), (List.replicate 5 false ++ bits).drop ((List.replicate 5 false ++ bits).length % 8)) = _
    rw [hlength]
    rfl
  rw [readStored, run_bind_ok hskip, ← hbytes]
  rw [List.flatMap_append, List.flatMap_append, bits_littleEndian, bits_littleEndian,
    List.append_assoc, List.append_assoc]
  rw [run_bind_ok (number_lowBits 16 us.length), run_bind_ok (number_lowBits 16 (0xffff - us.length))]
  rw [Nat.mod_eq_of_lt (by omega), Nat.mod_eq_of_lt (by omega), if_neg (by omega)]
  exact readBytes_bits us out

theorem readBlocks_storedBlock {us : List UInt8} (hus : us.length ≤ 0xffff)
    (hrest : rest.length % 8 = 0) (last : Bool) (fuel : Nat) (out : Array UInt8) :
    (readBlocks (fuel + 1) out).run ((storedBlock last us).flatMap bitsOf ++ rest) =
      if last then .ok (out ++ us.toArray, rest) else (readBlocks fuel (out ++ us.toArray)).run rest := by
  have hfirst : bitsOf last.toNat.toUInt8 = last :: (lowBits 2 0 ++ List.replicate 5 false) := by
    cases last <;> rfl
  rw [storedBlock, List.flatMap_cons, hfirst, List.append_assoc, List.cons_append, List.append_assoc]
  have hlast : bit.run (last :: (lowBits 2 0 ++ (List.replicate 5 false ++
      ((littleEndian 2 us.length ++ littleEndian 2 (0xffff - us.length) ++ us).flatMap bitsOf ++ rest)))) =
      .ok (last, _) := rfl
  rw [readBlocks, run_bind_ok hlast, run_bind_ok (number_lowBits 2 0)]
  show (readStored out >>= fun out => if last then pure out else readBlocks fuel out).run _ = _
  rw [run_bind_ok (readStored_bits hus hrest out)]
  cases last <;> rfl

/-- By induction on the pieces: each is read from one block, and one block more ends the stream. -/
theorem readBlocks_storedBlocks (hrest : rest.length % 8 = 0) :
    ∀ {pieces : List (List UInt8)} {fuel : Nat} (out : Array UInt8),
    (∀ piece ∈ pieces, piece.length ≤ 0xffff) → pieces.length < fuel →
    (readBlocks fuel out).run ((storedBlocks pieces).flatMap bitsOf ++ rest) = .ok
    (out ++ pieces.flatten.toArray, rest)
  | _, 0, out, _, hfuel => absurd hfuel (Nat.not_lt_zero _)
  | [], fuel + 1, out, _, _ => readBlocks_storedBlock (Nat.zero_le _) hrest true fuel out
  | piece :: pieces, fuel + 1, out, hpieces, hfuel => by
    obtain ⟨hpiece, hpieces⟩ := List.forall_mem_cons.1 hpieces
    have hnext : ((storedBlocks pieces).flatMap bitsOf ++ rest).length % 8 = 0 := by
      rw [List.length_append, length_flatMap_bitsOf]
      omega
    rw [storedBlocks, List.flatMap_append, List.append_assoc, readBlocks_storedBlock hpiece hnext,
      if_neg Bool.false_ne_true]
    rw [readBlocks_storedBlocks hrest _ hpieces (Nat.lt_of_succ_lt_succ hfuel)]
    simp

theorem length_lt_storedBlocks (pieces : List (List UInt8)) : pieces.length < (storedBlocks pieces).length := by
  induction pieces with
  | nil => exact Nat.zero_lt_succ _
  | cons piece pieces ih =>
    rw [storedBlocks, List.length_append, storedBlock, List.length_cons, List.length_cons]
    omega

theorem inflate_storedBlocks {pieces : List (List UInt8)} (hpieces : ∀ piece ∈ pieces, piece.length ≤ 0xffff)
    (rest : List UInt8) : inflate (storedBlocks pieces ++ rest) = .ok (pieces.flatten, rest) := by
  have hbits : ((storedBlocks pieces ++ rest).flatMap bitsOf).length = 8 *
      ((storedBlocks pieces).length + rest.length) := by
    rw [length_flatMap_bitsOf, List.length_append]
  have hfuel : pieces.length < ((storedBlocks pieces ++ rest).flatMap bitsOf).length + 1 := by
    have := length_lt_storedBlocks pieces
    omega
  have hrest : (rest.flatMap bitsOf).length % 8 = 0 := by
    rw [length_flatMap_bitsOf, Nat.mul_mod_right]
  have hread := readBlocks_storedBlocks hrest #[] hpieces hfuel
  rw [inflate, List.flatMap_append] at *
  rw [hread]
  show Except.ok (_, (storedBlocks pieces ++ rest).drop _) = _
  rw [length_flatMap_bitsOf, Nat.mul_div_cancel_left _ (by decide), List.length_append,
    Nat.add_sub_cancel, List.drop_left]
  simp

end Deflate

namespace Gzip

open Deflate (storedBlocks)

theorem splitOff_append (xs ys : List UInt8) : splitOff xs.length (xs ++ ys) = .ok (xs, ys) := by
  rw [splitOff, if_neg (by simp), List.splitAt_eq, List.take_left, List.drop_left]
  rfl

theorem dropHeader_plain (rest : List UInt8) : dropHeader ([8, 0, 0, 0, 0, 0, 0, 0xff] ++ rest) = .ok rest := by
  rw [dropHeader, show (8 : Nat) = [8, 0, 0, 0, 0, 0, 0, (0xff : UInt8)].length from rfl, splitOff_append]
  rfl

theorem seals_trailer (us : List UInt8) :
    seals (littleEndian 4 (Digest.Crc32.digest us).toNat ++ littleEndian 4 us.length) us = true := by
  have hsum : (Digest.Crc32.digest us).toNat % 256 ^ 4 = (Digest.Crc32.digest us).toNat :=
    Nat.mod_eq_of_lt (Digest.Crc32.digest us).toNat_lt
  rw [seals, List.take_left' (length_littleEndian 4 _), List.drop_left' (length_littleEndian 4 _)]
  rw [ofLittleEndian_littleEndian, ofLittleEndian_littleEndian, hsum, beq_self_eq_true, Bool.true_and]
  exact beq_self_eq_true _

/-- The contents of several members, with how many zeros follow each of them. -/
abbrev Members := List (List UInt8 × Nat)

def packAll (members : Members) : List UInt8 := members.flatMap fun m => pack m.1 ++ List.replicate m.2 0

theorem dropWhile_packAll (members : Members) : (packAll members).dropWhile (· == 0) = packAll members := by
  cases members <;> rfl

theorem length_le_packAll (members : Members) : members.length ≤ (packAll members).length := by
  induction members with
  | nil => exact Nat.le_refl 0
  | cons m members ih =>
    have hcons : (packAll (m :: members)).length = (pack m.1 ++ List.replicate m.2 0).length +
        (packAll members).length := by
      rw [packAll, List.flatMap_cons, List.length_append]
      rfl
    rw [hcons, List.length_append, pack, List.length_cons, List.length_cons]
    omega

theorem unpackFrom_packAll : ∀ {members : Members} {fuel : Nat}, members.length ≤ fuel →
    unpackFrom fuel (packAll members) = .ok (members.flatMap (·.1))
  | [], _, _ => by
    unfold unpackFrom
    rfl
  | m :: members, 0, h => absurd h (Nat.not_succ_le_zero _)
  | (us, zeros) :: members, fuel + 1, h => by
    have hpieces : ∀ piece ∈ Search.batches 0xfffe us, piece.length ≤ 0xffff :=
      fun piece hpiece => (Search.length_of_mem_batches hpiece).2
    have htrailer := splitOff_append (littleEndian 4 (Digest.Crc32.digest us).toNat ++ littleEndian 4 us.length)
      (List.replicate zeros 0 ++ packAll members)
    have height : (littleEndian 4 (Digest.Crc32.digest us).toNat ++ littleEndian 4 us.length).length = 8 := by
      rw [List.length_append, length_littleEndian, length_littleEndian]
    rw [height] at htrailer
    have hcons : packAll ((us, zeros) :: members) = 0x1f :: 0x8b :: ([8, 0, 0, 0, 0, 0, 0, 0xff] ++
        (storedBlocks (Search.batches 0xfffe us) ++ ((littleEndian 4 (Digest.Crc32.digest us).toNat ++
          littleEndian 4 us.length) ++ (List.replicate zeros 0 ++ packAll members)))) := by
      simp [packAll, pack]
    have hzeros : (List.replicate zeros 0 ++ packAll members).dropWhile (· == 0) = packAll members := by
      rw [List.dropWhile_append_of_pos (by simp), dropWhile_packAll]
    rw [hcons, unpackFrom, dropHeader_plain]
    simp only [bind, Except.bind, Deflate.inflate_storedBlocks hpieces, htrailer, seals_trailer,
      Search.flatten_batches, hzeros, unpackFrom_packAll (Nat.le_of_succ_le_succ h)]
    rfl

/-- What was packed is unpacked, member by member. -/
theorem unpack_packAll (members : Members) : unpack (packAll members) = .ok (members.flatMap (·.1)) :=
  unpackFrom_packAll (length_le_packAll members)

theorem unpack_pack (us : List UInt8) : unpack (pack us) = .ok us := by
  have h := unpack_packAll [(us, 0)]
  simpa [packAll] using h

end Gzip

end Compress

/-- A file of packed bytes holds what they say. -/
theorem FileContent.decompressed_pack (us : List UInt8) :
    (FileContent.bytes (Compress.Gzip.pack us)).decompressed = (FileContent.compressed us).decompressed := by
  simp only [decompressed, decompress, Compress.Gzip.unpack_pack]

end SourceAtlas
