import SourceAtlas.Proofs.Marks

/-!
# What one pass over a comment leaves

What stood on two sides of a mark comes together, and what stood behind one may
come first, so what a pass leaves can have marks again. A cleaned comment is
free of them just if cleaning it once more changes nothing.
-/

namespace SourceAtlas.DocComment

open Text (splitAt trimWhile isBlank isLineEnd trimmedPieces)

/-! ## Lines -/

def linesOf (doc : String) : List (List Char) := trimmedPieces (withoutMarks 0 true doc.toList)

theorem clean_eq (doc : String) : clean doc = Text.joinLines ((linesOf doc).map String.ofList) := by
  rw [clean, trimmedLines_eq]
  rfl

theorem mem_trimmedPieces {cs l : List Char} :
    l ∈ trimmedPieces cs ↔ l ≠ [] ∧ ∃ piece ∈ splitAt isLineEnd cs, trimWhile isBlank piece = l := by
  simp only [trimmedPieces, List.mem_filter, List.mem_map, Bool.not_eq_true',
    List.isEmpty_eq_false_iff, ne_eq, and_comm]

theorem of_mem_trimmedPieces {cs l : List Char} (h : l ∈ trimmedPieces cs) :
    l ≠ [] ∧ Text.Trimmed isBlank l ∧ l <:+: cs ∧ ∀ c ∈ l, isLineEnd c = false := by
  obtain ⟨hne, piece, hpiece, rfl⟩ := mem_trimmedPieces.1 h
  obtain ⟨hwithin, hends⟩ := Text.of_mem_splitAt hpiece
  have htrim := Text.trimWhile_within isBlank piece
  exact ⟨hne, (Text.exists_trimWhile isBlank piece).1, htrim.trans hwithin, fun c hc => hends c (htrim.mem hc)⟩

theorem lines_clean (doc : String) : Text.lines (clean doc) = (linesOf doc).map String.ofList := by
  rw [clean_eq]
  apply Text.lines_joinLines
  rw [List.forall_mem_map]
  intro l hl
  obtain ⟨hne, -, -, hends⟩ := of_mem_trimmedPieces hl
  refine ⟨fun hempty => hne ?_, by simpa using hends⟩
  simpa using congrArg String.toList hempty

theorem ink_trimmedPieces (cs : List Char) : ink (trimmedPieces cs).flatten = ink cs := by
  have htrim : (List.filter (!isBlank ·) ∘ trimWhile isBlank) = List.filter (!isBlank ·) := by
    funext piece
    exact Text.filter_trimWhile isBlank piece
  rw [trimmedPieces, List.flatten_filter_not_isEmpty, ink, List.filter_flatten, List.map_map, htrim,
    ← List.filter_flatten, Text.flatten_splitAt, List.filter_filter, ink]
  apply List.filter_congr
  intro c _
  cases hend : isLineEnd c with
  | false => simp
  | true => simp [Text.isBlank_of_isLineEnd hend]

theorem ink_joinLines (ls : List String) : ink (Text.joinLines ls).toList = ink (ls.map String.toList).flatten := by
  induction ls with
  | nil => rfl
  | cons l ls ih =>
    cases ls with
    | nil => simp [Text.joinLines]
    | cons next ls =>
      have hjoin : (Text.joinLines (l :: next :: ls)).toList = l.toList ++ '\n' ::
          (Text.joinLines (next :: ls)).toList := by
        simp [Text.joinLines, String.intercalate_cons_cons]
      rw [hjoin, List.map_cons, List.flatten_cons, ink_append, ink_append, ← ih]
      rfl

/-- Trimming takes out nothing but blanks. -/
theorem ink_clean (doc : String) : ink (clean doc).toList = ink (withoutMarks 0 true doc.toList) := by
  have hlines : ((linesOf doc).map String.ofList).map String.toList = linesOf doc := by
    simp [Function.comp_def]
  rw [clean_eq, ink_joinLines, hlines]
  exact ink_trimmedPieces _

/-! ## Words and openings in lines -/

theorem free_of_mem_words {p : Char → Bool} (hp : words.all (·.all (!p ·)) = true) {w : List Char} (h : w ∈ words) :
    ∀ c ∈ w, p c = false := Text.free_of_all (List.all_eq_true.1 hp w h)

theorem spells_trimWhile (cs : List Char) : Spells (trimWhile isBlank cs) ↔ Spells cs :=
  exists_congr fun _ => and_congr_right fun hw => Text.infix_trimWhile_iff (free_of_mem_words (by decide) hw) cs

theorem opens_trimWhile (cs : List Char) : Opens (trimWhile isBlank cs) ↔ Opens (cs.dropWhile isBlank) := by
  unfold Opens
  rw [trimWhile, Text.prefix_dropEndWhile_iff (Text.free_of_all (by decide)),
    Text.prefix_dropEndWhile_iff (Text.free_of_all (by decide))]

theorem spells_iff_splitAt (cs : List Char) : Spells cs ↔ ∃ piece ∈ splitAt isLineEnd cs, Spells piece := by
  have hword : Spells cs ↔ ∃ w ∈ words, ∃ piece ∈ splitAt isLineEnd cs, w <:+: piece :=
    exists_congr fun _ => and_congr_right fun hw => Text.infix_iff_splitAt (free_of_mem_words (by decide) hw) cs
  rw [hword]
  constructor
  · rintro ⟨w, hw, piece, hpiece, hspelt⟩
    exact ⟨piece, hpiece, w, hw, hspelt⟩
  · rintro ⟨piece, hpiece, w, hw, hspelt⟩
    exact ⟨w, hw, piece, hpiece, hspelt⟩

/-- What is left of a row is settled if it spells no word and none of its lines opens with a mark. -/
structure Settled (left : List Char) : Prop where
  wordless : ¬ Spells left
  unopened : ∀ piece ∈ splitAt isLineEnd left, ¬ Opens (piece.dropWhile isBlank)

theorem settled_iff (left : List Char) : Settled left ↔ ∀ l ∈ trimmedPieces left, ¬ Spells l ∧ ¬ Opens l := by
  have hnil : ¬ Spells [] ∧ ¬ Opens [] := by decide
  have hpieces : (∀ l ∈ trimmedPieces left, ¬ Spells l ∧ ¬ Opens l) ↔
      ∀ piece ∈ splitAt isLineEnd left, ¬ Spells piece ∧ ¬ Opens (piece.dropWhile isBlank) := by
    constructor
    · intro h piece hpiece
      rw [← spells_trimWhile, ← opens_trimWhile]
      by_cases hne : trimWhile isBlank piece = []
      · rw [hne]
        exact hnil
      · exact h _ (mem_trimmedPieces.2 ⟨hne, piece, hpiece, rfl⟩)
    · intro h l hl
      obtain ⟨-, piece, hpiece, rfl⟩ := mem_trimmedPieces.1 hl
      rw [spells_trimWhile, opens_trimWhile]
      exact h piece hpiece
  rw [hpieces]
  constructor
  · intro h piece hpiece
    exact ⟨fun hspells => h.wordless ((spells_iff_splitAt left).2 ⟨piece, hpiece, hspells⟩),
      h.unopened piece hpiece⟩
  · intro h
    refine ⟨fun hspells => ?_, fun piece hpiece => (h piece hpiece).2⟩
    obtain ⟨piece, hpiece, hspells⟩ := (spells_iff_splitAt left).1 hspells
    exact (h piece hpiece).1 hspells

structure Quiet (line : String) : Prop where
  filled : line ≠ ""
  trimmed : Text.strip line = line
  starless : '*' ∉ line.toList
  wordless : ¬ Spells line.toList
  unopened : ¬ Opens line.toList

theorem of_mem_linesOf {doc : String} {l : List Char} (h : l ∈ linesOf doc) :
    l ≠ [] ∧ trimWhile isBlank l = l ∧ '*' ∉ l := by
  obtain ⟨hne, htrimmed, hwithin, -⟩ := of_mem_trimmedPieces h
  refine ⟨hne, Text.trimWhile_eq_self htrimmed, fun hstar => ?_⟩
  have hleft := hwithin.mem hstar
  rw [← flatten_gaps, List.mem_flatten] at hleft
  obtain ⟨gap, hgap, hstar⟩ := hleft
  exact (bare_of_mem_gaps hgap).1 hstar

theorem quiet_iff {doc : String} {l : List Char} (h : l ∈ linesOf doc) :
    Quiet (String.ofList l) ↔ ¬ Spells l ∧ ¬ Opens l := by
  obtain ⟨hne, htrim, hstar⟩ := of_mem_linesOf h
  constructor
  · intro h
    exact ⟨by simpa using h.wordless, by simpa using h.unopened⟩
  · rintro ⟨hspells, hopens⟩
    refine ⟨fun hempty => hne (by simpa using congrArg String.toList hempty),
      ?_, by simpa using hstar, by simpa using hspells,
      by simpa using hopens⟩
    rw [Text.strip, String.toList_ofList, htrim]

theorem quiet_lines_iff (doc : String) :
    (∀ line ∈ Text.lines (clean doc), Quiet line) ↔ ∀ l ∈ linesOf doc, ¬ Spells l ∧ ¬ Opens l := by
  rw [lines_clean, List.forall_mem_map]
  exact forall₂_congr fun l hl => quiet_iff hl

/-! ## Cleaning twice -/

theorem rows_clean {doc : String} (h : linesOf doc ≠ []) : rows (clean doc).toList = linesOf doc := by
  rw [clean_eq, rows, Text.splitAt_joinLines rfl (by simpa using h)]
  · simp [Function.comp_def]
  · rw [List.forall_mem_map]
    intro l hl c hc
    obtain ⟨-, -, -, hends⟩ := of_mem_trimmedPieces hl
    rw [String.toList_ofList] at hc
    exact Text.ne_newline_of_not_isLineEnd (hends c hc)

section
variable {doc : String} {l : List Char}

theorem dropWhile_isIndent (h : l ∈ linesOf doc) : l.dropWhile isIndent = l := by
  obtain ⟨-, htrimmed, -⟩ := of_mem_trimmedPieces h
  apply Text.dropWhile_of_head
  intro c hc
  have hblank := htrimmed.1 c hc
  by_contra hindent
  rw [Bool.not_eq_false, isIndent, Bool.or_eq_true, beq_iff_eq, beq_iff_eq] at hindent
  rcases hindent with rfl | rfl <;> cases hblank

theorem not_marked_of_gaps (h : l ∈ linesOf doc) (hgaps : gaps 0 true l = [l]) : ¬ Spells l ∧ ¬ Opens l := by
  have hmem : l ∈ gaps 0 true l := by
    rw [hgaps]
    exact List.mem_singleton_self l
  have hopens := not_opens_of_gaps hgaps
  rw [dropWhile_isIndent h] at hopens
  exact ⟨(bare_of_mem_gaps hmem).2, hopens⟩

theorem trimmedPieces_of_not_marked (h : l ∈ linesOf doc) (hmarks : ¬ Spells l ∧ ¬ Opens l) :
    trimmedPieces (withoutMarks 0 true l) = [l] := by
  obtain ⟨hne, -, -, hends⟩ := of_mem_trimmedPieces h
  obtain ⟨-, htrim, hstar⟩ := of_mem_linesOf h
  have hsame : withoutMarks 0 true l = l := by
    refine withoutMarks_eq_self (Text.not_mem_of_free hends Text.isLineEnd_newline) hstar hmarks.1 fun _ => ?_
    rw [dropWhile_isIndent h]
    exact hmarks.2
  rw [hsame, trimmedPieces, Text.splitAt_whole hends]
  simp [htrim, hne]

end

theorem clean_clean_iff (doc : String) :
    clean (clean doc) = clean doc ↔ ∀ l ∈ linesOf doc, ¬ Spells l ∧ ¬ Opens l := by
  by_cases hne : linesOf doc = []
  · have hempty : clean doc = "" := by
      rw [clean_eq, hne]
      rfl
    rw [hempty, hne]
    exact iff_of_true rfl fun l hl => absurd hl List.not_mem_nil
  constructor
  · -- cleaning once more takes out no ink, so it finds no mark
    intro hsame l hl
    have hink : (ink (withoutMarks 0 true (clean doc).toList)).length = (ink (clean doc).toList).length := by
      rw [← ink_clean, hsame]
    exact not_marked_of_gaps hl (gaps_of_ink_eq hink l (by rwa [rows_clean hne]))
  · intro h
    have hlines : linesOf (clean doc) = linesOf doc := by
      rw [linesOf, trimmedPieces_rows, rows_clean hne, List.flatMap_congr fun l hl =>
        trimmedPieces_of_not_marked hl (h l hl)]
      exact List.flatMap_singleton' _
    rw [clean_eq (clean doc), hlines, ← clean_eq]

/-- Every line of a cleaned comment is trimmed, not empty and without stars. It has no other mark
just if cleaning the comment once more leaves it as it is, and just if what is left of each row spells
no word and opens no line with a mark. What is left between two marks spells none, and what is left
at the front of a row opens it with none. -/
theorem quiet_iff_settled (doc : String) :
    (∀ line ∈ Text.lines (clean doc), line ≠ "" ∧ Text.strip line = line ∧ '*' ∉ line.toList) ∧
      ((∀ line ∈ Text.lines (clean doc), Quiet line) ↔ clean (clean doc) = clean doc) ∧
      ((∀ line ∈ Text.lines (clean doc), Quiet line) ↔ ∀ row ∈ rows doc.toList, Settled (gaps 0 true row).flatten) ∧
      ∀ row ∈ rows doc.toList, (gaps 0 true row).flatten = withoutMarks 0 true row ∧
        (∀ gap ∈ gaps 0 true row, '*' ∉ gap ∧ ¬ Spells gap) ∧
        ∀ gap ∈ (gaps 0 true row).head?, ¬ Opens (gap.dropWhile isIndent) := by
  refine ⟨?_, ?_, ?_, fun row _ =>
    ⟨flatten_gaps 0 true row, fun gap hgap => bare_of_mem_gaps hgap, fun gap hgap => ?_⟩⟩
  · rw [lines_clean, List.forall_mem_map]
    intro l hl
    obtain ⟨hne, htrim, hstar⟩ := of_mem_linesOf hl
    rw [Text.strip, String.toList_ofList, htrim]
    exact ⟨fun hempty => hne (by simpa using congrArg String.toList hempty), rfl, hstar⟩
  · rw [quiet_lines_iff, clean_clean_iff]
  · rw [quiet_lines_iff, linesOf, trimmedPieces_rows, List.forall_mem_flatMap]
    refine forall₂_congr fun row _ => ?_
    rw [flatten_gaps, settled_iff]
  · obtain ⟨later, hgaps⟩ := List.head?_eq_some_iff.1 hgap
    exact not_opens_of_gaps hgaps

/-- Two halves of a word come together over a star, and a second mark comes first. -/
theorem marks_come_together :
    ¬ (∀ line ∈ Text.lines (clean "# # TO*DO"), Quiet line) ∧ clean (clean "# # TO*DO") ≠ clean "# # TO*DO" := by
  have hclean : clean "# # TO*DO" = "# TODO" := by decide +kernel
  have hagain : clean "# TODO" = "" := by decide +kernel
  have hlines : Text.lines "# TODO" = ["# TODO"] := by decide +kernel
  rw [hclean, hagain, hlines]
  refine ⟨fun h => ?_, by decide⟩
  have hspells : Spells "# TODO".toList := by decide
  exact (h _ List.mem_cons_self).wordless hspells

end SourceAtlas.DocComment
