import Mathlib.Data.Set.Function
import SourceAtlas.Proofs.Chunks
import SourceAtlas.Reference

/-!
# Ids and what they are made from

An id is the digest of four parts that are joined by a separator. If the first
three do not hold the separator, the parts can be read off the text that is
digested. References are joined by other separators and do not tell as much.
-/

namespace SourceAtlas

/-! ## Digests as texts -/

namespace Digest

theorem digitChar_inj {m n : Nat} (hm : m < 16) (hn : n < 16) (h : Nat.digitChar m = Nat.digitChar n) : m = n := by
  have hall : ∀ m < 16, ∀ n < 16, Nat.digitChar m = Nat.digitChar n → m = n := by decide
  exact hall m hm n hn h

theorem hexOfByte_inj {b c : UInt8} (h : hexOfByte b = hexOfByte c) : b = c := by
  have hb := b.toNat_lt
  have hc := c.toNat_lt
  simp only [hexOfByte, List.cons.injEq, and_true] at h
  have hhigh := digitChar_inj (by omega) (by omega) h.1
  have hlow := digitChar_inj (by omega) (by omega) h.2
  apply UInt8.toNat_inj.1
  omega

theorem hex_injective : Function.Injective hex := by
  have hdigits : ∀ bs cs : List UInt8, bs.flatMap hexOfByte = cs.flatMap hexOfByte → bs = cs := by
    intro bs
    induction bs with
    | nil =>
      intro cs h
      cases cs with
      | nil => rfl
      | cons c cs => simp [hexOfByte] at h
    | cons b bs ih =>
      intro cs h
      cases cs with
      | nil => simp [hexOfByte] at h
      | cons c cs =>
        obtain ⟨hbyte, hrest⟩ := List.append_inj h rfl
        rw [hexOfByte_inj hbyte, ih cs hrest]
  intro bs cs h
  exact hdigits bs cs (String.ofList_inj.1 h)

end Digest

namespace Text

theorem toList_loop (bytes : ByteArray) (i : Nat) (before : List UInt8) :
    ByteArray.toList.loop bytes i before = before.reverse ++ bytes.data.toList.drop i := by
  fun_induction ByteArray.toList.loop bytes i before with
  | case1 i before h ih =>
    have hi : i < bytes.data.toList.length := by simpa using h
    have hget : bytes.get! i = bytes.data.toList[i] := by simp [ByteArray.get!, h]
    rw [ih, List.drop_eq_getElem_cons hi, hget, List.reverse_cons, List.append_assoc]
    rfl
  | case2 i before h =>
    have hi : bytes.data.toList.length ≤ i := by simpa using h
    rw [List.drop_eq_nil_of_le hi, List.append_nil]

theorem encode_eq_data (s : String) : encode s = s.toUTF8.data.toList := by
  rw [encode, ByteArray.toList, toList_loop, List.reverse_nil, List.nil_append, List.drop_zero]

theorem encode_injective : Function.Injective encode := by
  intro s t h
  rw [encode_eq_data, encode_eq_data] at h
  apply String.toByteArray_inj.1
  exact ByteArray.ext (Array.toList_inj.1 h)

end Text

/-! ## Places -/

structure Place where
  workspace : String
  repo : String
  path : String
  name : String
  deriving DecidableEq

namespace Place

variable {c d q : Place}

def ref (q : Place) : String := symbolRef q.workspace q.repo q.path q.name

def text (q : Place) : String := idText q.workspace q.repo q.path q.name

def bytes (q : Place) : List UInt8 := Text.encode q.text

def id (q : Place) : String := symbolId q.workspace q.repo q.path q.name

/-- Whether the separator is in no part but the name. -/
structure Clean (q : Place) : Prop where
  workspace : '\x00' ∉ q.workspace.toList
  repo : '\x00' ∉ q.repo.toList
  path : '\x00' ∉ q.path.toList

theorem toList_text (q : Place) : q.text.toList =
    q.workspace.toList ++ '\x00' :: (q.repo.toList ++ '\x00' :: (q.path.toList ++ '\x00' :: q.name.toList)) := by
  simp [text, idText]

theorem Clean.eq_of_text (hc : c.Clean) (hd : d.Clean) (h : c.text = d.text) : c = d := by
  have hjoined := congrArg String.toList h
  rw [toList_text, toList_text] at hjoined
  obtain ⟨hworkspace, hjoined⟩ := eq_of_append_cons_of_notMem hc.workspace hd.workspace hjoined
  obtain ⟨hrepo, hjoined⟩ := eq_of_append_cons_of_notMem hc.repo hd.repo hjoined
  obtain ⟨hpath, hname⟩ := eq_of_append_cons_of_notMem hc.path hd.path hjoined
  cases c
  cases d
  simp only [mk.injEq]
  exact ⟨String.toList_inj.1 hworkspace, String.toList_inj.1 hrepo, String.toList_inj.1 hpath,
    String.toList_inj.1 hname⟩

theorem exists_cut {n : Nat} {cs : List Char} (h : n + 1 ≤ cs.count '\x00') :
    ∃ part rest, cs = part ++ '\x00' :: rest ∧ '\x00' ∉ part ∧ n ≤ rest.count '\x00' := by
  have hmem : '\x00' ∈ cs := List.count_pos_iff.1 (by omega)
  obtain ⟨part, rest, rfl, hpart⟩ := List.eq_append_cons_of_mem hmem
  refine ⟨part, rest, rfl, hpart, ?_⟩
  rw [List.count_append, List.count_cons_self, List.count_eq_zero.2 hpart] at h
  omega

/-- Whatever the parts hold, there is one way to read the text with the separator in no part but the name. -/
theorem existsUnique_clean (q : Place) : ∃! c : Place, c.Clean ∧ c.text = q.text := by
  have hcount : 2 + 1 ≤ q.text.toList.count '\x00' := by
    simp only [toList_text, List.count_append, List.count_cons_self]
    omega
  -- the text is cut at the first three separators, wherever the parts of the place end
  obtain ⟨workspace, rest, htext, hworkspace, hrest⟩ := exists_cut hcount
  obtain ⟨repo, rest, rfl, hrepo, hrest⟩ := exists_cut hrest
  obtain ⟨path, name, rfl, hpath, -⟩ := exists_cut hrest
  have hclean : Clean ⟨.ofList workspace, .ofList repo, .ofList path, .ofList name⟩ :=
    ⟨by simpa using hworkspace, by simpa using hrepo, by simpa using hpath⟩
  refine ⟨_, ⟨hclean, ?_⟩, fun d hd => ?_⟩
  · apply String.toList_inj.1
    simp [toList_text, htext]
  · apply hd.1.eq_of_text hclean
    apply String.toList_inj.1
    simp [hd.2, toList_text, htext]

/-- Places with the separator in no part but the name are told apart by their texts. So they are by
their ids, unless two of the texts have one digest. -/
theorem id_injOn {Q : Set Place} (hclean : ∀ q ∈ Q, q.Clean) :
    Set.InjOn text Q ∧ (Set.InjOn Digest.Sha256.hash.digest (bytes '' Q) → Set.InjOn id Q) := by
  have htext : Set.InjOn text Q := fun c hc d hd h => (hclean c hc).eq_of_text (hclean d hd) h
  refine ⟨htext, fun hdigest c hc d hd h => ?_⟩
  have hbytes : c.bytes = d.bytes :=
    hdigest (Set.mem_image_of_mem bytes hc) (Set.mem_image_of_mem bytes hd) (Digest.hex_injective h)
  exact htext hc hd (Text.encode_injective hbytes)

theorem id_injOn_of_shared_ref :
    let c : Place := ⟨"a/b", "c", "d", "e#f"⟩
    let d : Place := ⟨"a", "b/c", "d#e", "f"⟩
    c.ref = d.ref ∧ c.id ≠ d.id := by
  intro c d
  have hclean : ∀ q ∈ ({c, d} : Set Place), q.Clean := by
    intro q hq
    rcases hq with rfl | rfl <;> exact ⟨by decide, by decide, by decide⟩
  have hdigests : Digest.Sha256.hash.digest c.bytes ≠ Digest.Sha256.hash.digest d.bytes := by decide +kernel
  obtain ⟨-, hids⟩ := id_injOn hclean
  have hinj := hids (by
    rw [Set.image_pair, Set.injOn_pair]
    exact fun h => absurd h hdigests)
  refine ⟨by decide, fun h => ?_⟩
  have hsame := hinj (Set.mem_insert c {d}) (Set.mem_insert_of_mem c rfl) h
  exact absurd hsame (by decide)

end Place

end SourceAtlas
