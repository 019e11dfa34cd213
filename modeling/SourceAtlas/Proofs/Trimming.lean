import Mathlib.Data.List.DropRight
import Mathlib.Data.List.Infix
import Mathlib.Data.List.TakeWhile
import SourceAtlas.DocComment
import SourceAtlas.Proofs.Owners

/-!
# Pieces, blanks and lines

A text comes apart at its line ends, and a line loses the blanks around it.
Neither makes or unmakes a word without blanks, and lines that are joined
come apart into the same lines.
-/

namespace SourceAtlas.Text

/-! ## Pieces -/

section
variable {p : Char → Bool} {piece w : List Char} {c : Char}

/-- A text is one piece, or a piece before a separator and another text. -/
theorem piece_induction {motive : List Char → Prop} (whole : ∀ piece, (∀ c ∈ piece, p c = false) → motive piece)
    (more : ∀ piece c rest, (∀ d ∈ piece, p d = false) → p c = true → motive rest → motive (piece ++ c :: rest))
    (cs : List Char) : motive cs := by
  induction hn : cs.length using Nat.strong_induction_on generalizing cs with
  | _ n ih =>
    have hpiece : ∀ d ∈ cs.takeWhile (!p ·), p d = false := fun d hd => by simpa using List.mem_takeWhile_imp hd
    have hcs : cs.takeWhile (!p ·) ++ cs.dropWhile (!p ·) = cs := List.takeWhile_append_dropWhile
    cases hrest : cs.dropWhile (!p ·) with
    | nil =>
      rw [hrest, List.append_nil] at hcs
      exact hcs ▸ whole _ hpiece
    | cons c rest =>
      have hc : p c = true := by
        have hhead := List.head?_dropWhile_not (!p ·) cs
        rw [hrest] at hhead
        simpa using hhead
      rw [hrest] at hcs
      have hlength := congrArg List.length hcs
      rw [List.length_append, List.length_cons] at hlength
      exact hcs ▸ more _ c rest hpiece hc (ih rest.length (by omega) rest rfl)

theorem splitAt_whole (h : ∀ c ∈ piece, p c = false) : splitAt p piece = [piece] := by
  rw [splitAt_eq_splitOnP]
  exact List.splitOnP_eq_singleton h

theorem splitAt_append (cs : List Char) (hc : p c = true) (rest : List Char) :
    splitAt p (cs ++ c :: rest) = splitAt p cs ++ splitAt p rest := by
  rw [splitAt_eq_splitOnP, splitAt_eq_splitOnP, splitAt_eq_splitOnP]
  exact List.splitOnP_append_cons cs rest hc

theorem splitAt_more (h : ∀ c ∈ piece, p c = false) (hc : p c = true) (rest : List Char) :
    splitAt p (piece ++ c :: rest) = piece :: splitAt p rest := by
  rw [splitAt_append piece hc, splitAt_whole h]
  rfl

theorem flatten_splitAt (p : Char → Bool) (cs : List Char) : (splitAt p cs).flatten = cs.filter (!p ·) := by
  induction cs using piece_induction (p := p) with
  | whole piece h =>
    rw [splitAt_whole h, List.flatten_singleton, List.filter_eq_self.2]
    simpa using h
  | more piece c rest h hc ih =>
    have hpiece : piece.filter (!p ·) = piece := List.filter_eq_self.2 (by simpa using h)
    rw [splitAt_more h hc, List.flatten_cons, ih, List.filter_append, hpiece,
      List.filter_cons_of_neg (by simpa using hc)]

theorem of_mem_splitAt {cs : List Char} (h : piece ∈ splitAt p cs) : piece <:+: cs ∧ ∀ c ∈ piece, p c = false := by
  induction cs using piece_induction (p := p) with
  | whole cs hcs =>
    rw [splitAt_whole hcs, List.mem_singleton] at h
    subst h
    exact ⟨List.infix_refl _, hcs⟩
  | more front c rest hfront hc ih =>
    rw [splitAt_more hfront hc, List.mem_cons] at h
    rcases h with rfl | h
    · exact ⟨(List.prefix_append _ _).isInfix, hfront⟩
    · obtain ⟨hwithin, hpiece⟩ := ih h
      refine ⟨hwithin.trans ?_, hpiece⟩
      exact ((List.suffix_cons c rest).trans (List.suffix_append _ _)).isInfix

theorem not_mem_of_free (h : ∀ d ∈ piece, p d = false) (hc : p c = true) : c ∉ piece := by
  intro hmem
  cases (h c hmem).symm.trans hc

theorem free_of_all (h : w.all (!p ·) = true) : ∀ c ∈ w, p c = false := by simpa using h

theorem eq_nil_of_front (hw : ∀ d ∈ w, p d = false) (hc : p c = true) {rest : List Char} (h : w <+: c :: rest) :
    w = [] := by
  rcases List.prefix_cons_iff.1 h with rfl | ⟨t, rfl, -⟩
  · rfl
  · rw [hw c List.mem_cons_self] at hc
    cases hc

/-- A word without separators does not lie across one. -/
theorem infix_append_iff (hw : ∀ d ∈ w, p d = false) (hc : p c = true) (front rest : List Char) :
    w <:+: front ++ c :: rest ↔ w <:+: front ∨ w <:+: rest := by
  rw [List.infix_append_iff]
  constructor
  · rintro (h | h | ⟨s, t, rfl, hs, ht⟩)
    · exact .inl h
    · rcases List.infix_cons_iff.1 h with h | h
      · rw [eq_nil_of_front hw hc h]
        exact .inl (List.nil_infix)
      · exact .inr h
    · rw [eq_nil_of_front (fun d hd => hw d (List.mem_append_right s hd)) hc ht, List.append_nil]
      exact .inl hs.isInfix
  · rintro (h | h)
    · exact .inl h
    · exact .inr (.inl (h.trans (List.suffix_cons c rest).isInfix))

theorem infix_iff_splitAt (hw : ∀ d ∈ w, p d = false) (cs : List Char) :
    w <:+: cs ↔ ∃ piece ∈ splitAt p cs, w <:+: piece := by
  induction cs using piece_induction (p := p) with
  | whole cs hcs => simp [splitAt_whole hcs]
  | more front c rest hfront hc ih =>
      rw [infix_append_iff hw hc, splitAt_more hfront hc, List.exists_mem_cons_iff, ih]

end

/-! ## Blanks around a text -/

section
variable {p : Char → Bool} {cs w : List Char}

def Trimmed (p : Char → Bool) (cs : List Char) : Prop :=
  (∀ c ∈ cs.head?, p c = false) ∧ ∀ c ∈ cs.getLast?, p c = false

theorem dropWhile_of_head (h : ∀ c ∈ cs.head?, p c = false) : cs.dropWhile p = cs := by
  cases cs with
  | nil => rfl
  | cons c cs => simp [h c rfl]

theorem Trimmed.reverse (h : Trimmed p cs) : Trimmed p cs.reverse := by
  refine ⟨?_, ?_⟩
  · rw [List.head?_reverse]
    exact h.2
  · rw [List.getLast?_reverse]
    exact h.1

theorem trimWhile_eq_self (h : Trimmed p cs) : trimWhile p cs = cs := by
  rw [trimWhile, dropEndWhile, dropWhile_of_head h.1, dropWhile_of_head h.reverse.1, List.reverse_reverse]

theorem exists_dropEndWhile (p : Char → Bool) (cs : List Char) :
    ∃ back, cs = dropEndWhile p cs ++ back ∧ (∀ c ∈ back, p c = true) ∧ ∀ c ∈ (dropEndWhile p cs).getLast?,
      p c = false := by
  refine ⟨(cs.reverse.takeWhile p).reverse, ?_, ?_, ?_⟩
  · rw [dropEndWhile, ← List.reverse_append, List.takeWhile_append_dropWhile, List.reverse_reverse]
  · intro c hc
    exact List.mem_takeWhile_imp (List.mem_reverse.1 hc)
  · rw [dropEndWhile, List.getLast?_reverse]
    intro c hc
    have hhead := List.head?_dropWhile_not p cs.reverse
    rw [Option.mem_def.1 hc] at hhead
    exact hhead

/-- What is trimmed is what stands between members of `p`. -/
theorem exists_trimWhile (p : Char → Bool) (cs : List Char) : Trimmed p (trimWhile p cs) ∧
    ∃ front back, cs = front ++ (trimWhile p cs ++ back) ∧ (∀ c ∈ front, p c = true) ∧ ∀ c ∈ back, p c = true := by
  obtain ⟨back, hrest, hback, hlast⟩ := exists_dropEndWhile p (cs.dropWhile p)
  refine ⟨⟨fun c hc => ?_, hlast⟩, cs.takeWhile p, back, ?_, fun c hc => List.mem_takeWhile_imp hc, hback⟩
  · have hhead := List.head?_dropWhile_not p cs
    have hfirst : (cs.dropWhile p).head? = some c := by
      rw [hrest]
      change (trimWhile p cs ++ back).head? = some c
      rw [List.head?_append, Option.mem_def.1 hc]
      rfl
    rw [hfirst] at hhead
    exact hhead
  · change cs = cs.takeWhile p ++ (dropEndWhile p (cs.dropWhile p) ++ back)
    rw [← hrest, List.takeWhile_append_dropWhile]

theorem trimWhile_within (p : Char → Bool) (cs : List Char) : trimWhile p cs <:+: cs := by
  obtain ⟨-, front, back, hcs, -⟩ := exists_trimWhile p cs
  exact ⟨front, back, by rw [List.append_assoc]; exact hcs.symm⟩

theorem filter_trimWhile (p : Char → Bool) (cs : List Char) :
    (trimWhile p cs).filter (!p ·) = cs.filter (!p ·) := by
  obtain ⟨-, front, back, hcs, hfront, hback⟩ := exists_trimWhile p cs
  have hnone : ∀ {l : List Char}, (∀ c ∈ l, p c = true) → l.filter (!p ·) = [] := by
    intro l hl
    rw [List.filter_eq_nil_iff]
    simpa using hl
  conv_rhs => rw [hcs, List.filter_append, List.filter_append, hnone hfront, hnone hback,
    List.append_nil, List.nil_append]

theorem eq_nil_of_within (hw : ∀ d ∈ w, p d = false) {l : List Char} (hl : ∀ c ∈ l, p c = true) (h : w <:+: l) :
    w = [] := by
  apply List.eq_nil_iff_forall_not_mem.2
  intro d hd
  cases (hw d hd).symm.trans (hl d (h.mem hd))

/-- A word without members of `p` lies in a text if it lies in the trimmed one. -/
theorem infix_trimWhile_iff (hw : ∀ d ∈ w, p d = false) (cs : List Char) : w <:+: trimWhile p cs ↔ w <:+: cs := by
  refine ⟨fun h => h.trans (trimWhile_within p cs), fun h => ?_⟩
  obtain ⟨-, front, back, hcs, hfront, hback⟩ := exists_trimWhile p cs
  have hrest : w <:+: trimWhile p cs ++ back := by
    rw [hcs] at h
    rcases List.eq_nil_or_concat front with rfl | ⟨front, c, rfl⟩
    · exact h
    · rw [List.concat_append] at h
      rcases (infix_append_iff hw (hfront c (by simp)) _ _).1 h with h | h
      · rw [eq_nil_of_within hw (fun d hd => hfront d (by simp [hd])) h]
        exact List.nil_infix
      · exact h
  cases back with
  | nil => simpa using hrest
  | cons c back =>
    obtain ⟨hc, hback⟩ := List.forall_mem_cons.1 hback
    rcases (infix_append_iff hw hc _ _).1 hrest with h | h
    · exact h
    · rw [eq_nil_of_within hw hback h]
      exact List.nil_infix

theorem prefix_dropEndWhile_iff (hw : ∀ d ∈ w, p d = false) (cs : List Char) :
    w <+: dropEndWhile p cs ↔ w <+: cs := by
  obtain ⟨back, hcs, hback, -⟩ := exists_dropEndWhile p cs
  constructor
  · intro h
    rw [hcs]
    exact h.trans (List.prefix_append _ _)
  · intro h
    rw [hcs] at h
    cases back with
    | nil => simpa using h
    | cons c back =>
      rcases List.prefix_or_prefix_of_prefix h (List.prefix_append _ _) with hshort | ⟨t, ht⟩
      · exact hshort
      · rw [← ht, List.prefix_append_right_inj] at h
        have hnone : t = [] := eq_nil_of_front (fun d hd => hw d (ht ▸ List.mem_append_right _ hd))
          (hback c List.mem_cons_self) h
        rw [← ht, hnone, List.append_nil]

end

/-! ## Lines -/

section
variable {p : Char → Bool} {ls : List String}

theorem joinReturns_append {piece : List Char} (h : '\r' ∉ piece) (rest : List Char) :
    joinReturns (piece ++ rest) = piece ++ joinReturns rest := by
  induction piece with
  | nil => rfl
  | cons c piece ih =>
    rw [List.cons_append, joinReturns, ih fun hmem => h (List.mem_cons_of_mem c hmem)]
    · rfl
    · rintro tail rfl -
      exact h List.mem_cons_self

theorem joinReturns_eq_self {cs : List Char} (h : '\r' ∉ cs) : joinReturns cs = cs := by
  simpa [joinReturns] using joinReturns_append h []

theorem splitAt_joinLines (hp : p '\n' = true) (hne : ls ≠ []) (h : ∀ l ∈ ls, ∀ c ∈ l.toList, p c = false) :
    splitAt p (joinLines ls).toList = ls.map String.toList := by
  induction ls with
  | nil => exact absurd rfl hne
  | cons l ls ih =>
    obtain ⟨hl, hls⟩ := List.forall_mem_cons.1 h
    cases ls with
    | nil => simpa [joinLines] using splitAt_whole hl
    | cons next ls =>
      have hjoin : (joinLines (l :: next :: ls)).toList = l.toList ++ '\n' :: (joinLines (next :: ls)).toList := by
        simp [joinLines, String.intercalate_cons_cons]
      rw [hjoin, splitAt_more hl hp, ih (by simp) hls]
      rfl

theorem isLineEnd_newline : isLineEnd '\n' = true := by decide

theorem isLineEnd_return : isLineEnd '\r' = true := by decide

theorem ne_newline_of_not_isLineEnd {c : Char} (h : isLineEnd c = false) : (c == '\n') = false := by
  apply beq_eq_false_iff_ne.2
  rintro rfl
  cases h.symm.trans isLineEnd_newline

theorem isBlank_of_isLineEnd {c : Char} (h : isLineEnd c = true) : isBlank c = true := by
  simp only [isLineEnd, isBlank, inRanges, blankRanges, List.any_cons, List.any_nil, Bool.or_eq_true,
    Bool.and_eq_true, decide_eq_true_eq, Bool.or_false] at h ⊢
  omega

/-- Lines that are joined come apart again. -/
theorem lines_joinLines (h : ∀ l ∈ ls, l ≠ "" ∧ ∀ c ∈ l.toList, isLineEnd c = false) :
    lines (joinLines ls) = ls := by
  by_cases hne : ls = []
  · rw [hne]
    rfl
  have hsplit := splitAt_joinLines isLineEnd_newline hne fun l hl => (h l hl).2
  have hreturns : '\r' ∉ (joinLines ls).toList := by
    intro hmem
    have hpieces := splitAt_joinLines (p := (· == '\n')) rfl hne fun l hl c hc =>
      ne_newline_of_not_isLineEnd ((h l hl).2 c hc)
    obtain ⟨front, back, hjoined⟩ := List.append_of_mem hmem
    have hwithin : ['\r'] <:+: (joinLines ls).toList := ⟨front, back, by simp [hjoined]⟩
    obtain ⟨piece, hpiece, hwithin⟩ := (infix_iff_splitAt (p := (· == '\n')) (free_of_all rfl) _).1 hwithin
    rw [hpieces] at hpiece
    obtain ⟨l, hl, rfl⟩ := List.mem_map.1 hpiece
    exact not_mem_of_free (h l hl).2 isLineEnd_return (hwithin.mem (List.mem_singleton_self _))
  have hlast : ls.getLast? ≠ some "" := fun hlast => (h "" (List.mem_of_getLast? hlast)).1 rfl
  unfold lines
  rw [joinReturns_eq_self hreturns, hsplit]
  simp [hlast]

/-- The pieces between line ends without the blanks around them, where there is anything else. -/
def trimmedPieces (cs : List Char) : List (List Char) :=
  ((splitAt isLineEnd cs).map (trimWhile isBlank)).filter (!·.isEmpty)

theorem trimmedPieces_append (cs : List Char) {c : Char} (hc : isLineEnd c = true) (rest : List Char) :
    trimmedPieces (cs ++ c :: rest) = trimmedPieces cs ++ trimmedPieces rest := by
  rw [trimmedPieces, splitAt_append cs hc, List.map_append, List.filter_append]
  rfl

theorem trimmedPieces_cons {c : Char} (hc : isLineEnd c = true) (rest : List Char) :
    trimmedPieces (c :: rest) = trimmedPieces rest := trimmedPieces_append [] hc rest

/-- That a return and its line feed are one line end tells on blank pieces only. -/
theorem trimmedPieces_joinReturns (cs : List Char) : trimmedPieces (joinReturns cs) = trimmedPieces cs := by
  induction cs using piece_induction (p := isLineEnd) with
  | whole piece h => rw [joinReturns_eq_self (not_mem_of_free h isLineEnd_return)]
  | more piece c rest h hc ih =>
    rw [joinReturns_append (not_mem_of_free h isLineEnd_return), trimmedPieces_append piece hc, ← ih]
    by_cases hjoined : c = '\r' ∧ rest.head? = some '\n'
    · obtain ⟨rfl, hhead⟩ := hjoined
      obtain ⟨rest, rfl⟩ := List.head?_eq_some_iff.1 hhead
      have hrest : joinReturns ('\n' :: rest) = '\n' :: joinReturns rest := rfl
      have hboth : joinReturns ('\r' :: '\n' :: rest) = '\n' :: joinReturns rest := rfl
      rw [hrest, hboth, trimmedPieces_append piece isLineEnd_newline, trimmedPieces_cons isLineEnd_newline]
    · have hapart : joinReturns (c :: rest) = c :: joinReturns rest := by
        rw [joinReturns]
        rintro tail rfl rfl
        exact hjoined ⟨rfl, rfl⟩
      rw [hapart, trimmedPieces_append piece hc]

end

end SourceAtlas.Text

namespace SourceAtlas.DocComment

open Text (trimmedPieces trimmedPieces_joinReturns)

theorem trimmedLines_eq (cs : List Char) :
    trimmedLines (String.ofList cs) = (trimmedPieces cs).map String.ofList := by
  have hstrip : ∀ pieces : List (List Char), ((pieces.map String.ofList).map Text.strip).filter (· != "") =
      ((pieces.map (Text.trimWhile Text.isBlank)).filter (!·.isEmpty)).map String.ofList := by
    intro pieces
    induction pieces with
    | nil => rfl
    | cons piece pieces ih =>
      have hpiece : Text.strip (String.ofList piece) = String.ofList (Text.trimWhile Text.isBlank piece) := by
        rw [Text.strip, String.toList_ofList]
      rw [List.map_cons, List.map_cons, List.map_cons, List.filter_cons, List.filter_cons, ih, hpiece]
      cases Text.trimWhile Text.isBlank piece with
      | nil => rfl
      | cons c cs =>
        have hfilled : (String.ofList (c :: cs) != "") = true := by simp [← String.toList_inj]
        rw [if_pos hfilled]
        rfl
  rw [← trimmedPieces_joinReturns]
  unfold trimmedLines Text.lines
  simp only [String.toList_ofList]
  rw [hstrip, trimmedPieces]
  generalize Text.splitAt Text.isLineEnd (Text.joinReturns cs) = pieces
  split
  · rename_i hlast
    obtain ⟨front, rfl⟩ := List.getLast?_eq_some_iff.1 (eq_of_beq hlast)
    have hblank : [Text.trimWhile Text.isBlank []].filter (!·.isEmpty) = [] := rfl
    rw [List.dropLast_concat, List.map_append, List.filter_append, List.map_singleton, hblank, List.append_nil]
  · rfl

end SourceAtlas.DocComment
