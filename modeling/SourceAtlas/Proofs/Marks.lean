import Mathlib.Data.List.Find
import SourceAtlas.Proofs.Trimming

/-!
# Marks in comments

A pass takes marks out row by row. What it leaves between two of them holds
none, and every mark that it takes out is more than blanks.
-/

namespace SourceAtlas.DocComment

open Text (splitAt isBlank trimmedPieces)

/-! ## Marks -/

def marks : List (List Char) := ["/**".toList, "/*".toList, "*/".toList, "*".toList, "TODO".toList, "FIXME".toList]

def words : List (List Char) := ["TODO".toList, "FIXME".toList]

def Spells (cs : List Char) : Prop := ∃ w ∈ words, w <:+: cs

def Opens (cs : List Char) : Prop := "//".toList <+: cs ∨ "#".toList <+: cs

instance : DecidablePred Spells := fun cs => inferInstanceAs (Decidable (∃ w ∈ words, w <:+: cs))

instance : DecidablePred Opens := fun _ => inferInstanceAs (Decidable (_ ∨ _))

def isIndent (c : Char) : Bool := c == ' ' || c == '\t'

/-- Whether a text lies in one row and has more than blanks. -/
def Inked (cs : List Char) : Prop := '\n' ∉ cs ∧ ∃ c ∈ cs, isBlank c = false

instance : DecidablePred Inked := fun cs =>
  decidable_of_iff ((!cs.contains '\n' && cs.any (!isBlank ·)) = true) (by simp [Inked])

def indented (d : Char) (cs : List Char) : List Char :=
  cs.takeWhile isIndent ++ (cs.dropWhile isIndent).takeWhile (· == d)

def lineMark (cs : List Char) : List Char :=
  if "//".toList <+: cs.dropWhile isIndent then indented '/' cs
  else if "#".toList <+: cs.dropWhile isIndent then indented '#' cs
  else []

section
variable {b : Bool} {c : Char} {cs w : List Char} {n : Nat}

theorem drop_takeWhile (p : Char → Bool) (cs : List Char) : cs.drop (cs.takeWhile p).length = cs.dropWhile p := by
  have happend : (cs.takeWhile p ++ cs.dropWhile p).drop (cs.takeWhile p).length = cs.dropWhile p := List.drop_left
  rwa [List.takeWhile_append_dropWhile] at happend

theorem slashes_iff (cs : List Char) : 2 ≤ (cs.takeWhile (· == '/')).length ↔ "//".toList <+: cs := by
  rcases cs with _ | ⟨c, _ | ⟨d, cs⟩⟩
  · simp
  · by_cases hc : c = '/' <;> simp [hc]
  · by_cases hc : '/' = c
    · subst hc
      by_cases hd : '/' = d
      · subst hd
        simp
      · simp [hd, Ne.symm hd]
    · simp [hc, Ne.symm hc]

theorem hashes_iff (cs : List Char) : 1 ≤ (cs.takeWhile (· == '#')).length ↔ "#".toList <+: cs := by
  rcases cs with _ | ⟨c, cs⟩
  · simp
  · by_cases hc : '#' = c
    · subst hc
      simp
    · simp [hc, Ne.symm hc]

/-- The mark at the front is the first of the list that fits, or a line comment mark. -/
theorem markLength_eq (b : Bool) (cs : List Char) : markLength b cs =
    match marks.find? (·.isPrefixOf cs) with
    | some w => w.length
    | none => if b then (lineMark cs).length else 0 := by
  have hindent : (fun c => c == ' ' || c == '\t') = isIndent := rfl
  have hline : (lineMark cs).length = if 2 ≤ ((cs.dropWhile isIndent).takeWhile (· == '/')).length
      then (cs.takeWhile isIndent).length + ((cs.dropWhile isIndent).takeWhile (· == '/')).length
      else if 1 ≤ ((cs.dropWhile isIndent).takeWhile (· == '#')).length
      then (cs.takeWhile isIndent).length + ((cs.dropWhile isIndent).takeWhile (· == '#')).length else 0 := by
    unfold lineMark indented
    simp only [slashes_iff, hashes_iff]
    split_ifs <;> simp
  unfold markLength
  simp only [hindent, drop_takeWhile, ← hline, marks, List.find?_cons]
  cases "/**".toList.isPrefixOf cs <;> cases "/*".toList.isPrefixOf cs <;> cases "*/".toList.isPrefixOf cs <;>
    cases "*".toList.isPrefixOf cs <;> cases "TODO".toList.isPrefixOf cs <;>
      cases "FIXME".toList.isPrefixOf cs <;> rfl

theorem inked_of_mem_marks (h : w ∈ marks) : Inked w := by
  revert w
  decide

theorem mem_marks_of_mem_words (h : w ∈ words) : w ∈ marks := by
  revert w
  decide

theorem find_marks (h : marks.find? (·.isPrefixOf cs) = some w) : w ∈ marks ∧ w <+: cs := by
  have hfront : w.isPrefixOf cs = true := by simpa using List.find?_some h
  exact ⟨List.mem_of_find?_eq_some h, List.isPrefixOf_iff_prefix.1 hfront⟩

theorem indented_front (d : Char) (cs : List Char) : indented d cs <+: cs := by
  refine ⟨(cs.dropWhile isIndent).dropWhile (· == d), ?_⟩
  rw [indented, List.append_assoc, List.takeWhile_append_dropWhile, List.takeWhile_append_dropWhile]

theorem lineMark_front (cs : List Char) : lineMark cs <+: cs := by
  unfold lineMark
  split_ifs
  · exact indented_front _ cs
  · exact indented_front _ cs
  · exact List.nil_prefix

theorem inked_indented {d : Char} (hd : Inked [d]) (h : 1 ≤ ((cs.dropWhile isIndent).takeWhile (· == d)).length) :
    Inked (indented d cs) := by
  have hrun : ∀ c ∈ (cs.dropWhile isIndent).takeWhile (· == d), c = d := by
    intro c hc
    simpa using List.mem_takeWhile_imp hc
  constructor
  · intro hmem
    rcases List.mem_append.1 hmem with hmem | hmem
    · have hindent : isIndent '\n' = true := List.mem_takeWhile_imp hmem
      cases hindent
    · exact hd.1 (hrun _ hmem ▸ List.mem_singleton_self _)
  · obtain ⟨c, hc⟩ := List.exists_mem_of_length_pos h
    obtain ⟨e, he, hink⟩ := hd.2
    obtain rfl := List.mem_singleton.1 he
    exact ⟨c, List.mem_append_right _ hc, hrun c hc ▸ hink⟩

theorem inked_lineMark (h : Opens (cs.dropWhile isIndent)) : Inked (lineMark cs) := by
  unfold lineMark
  split_ifs with hslashes hhashes
  · exact inked_indented (by decide) (Nat.le_of_succ_le ((slashes_iff _).2 hslashes))
  · exact inked_indented (by decide) ((hashes_iff _).2 hhashes)
  · exact absurd h (not_or.2 ⟨hslashes, hhashes⟩)

theorem lineMark_eq_nil (h : ¬ Opens (cs.dropWhile isIndent)) : lineMark cs = [] := by
  obtain ⟨hslashes, hhashes⟩ := not_or.1 h
  rw [lineMark, if_neg hslashes, if_neg hhashes]

theorem ne_nil_of_inked (h : Inked w) : w.length ≠ 0 := by
  obtain ⟨c, hc, -⟩ := h.2
  exact (List.length_pos_of_mem hc).ne'

theorem markLength_eq_zero_iff : markLength b cs = 0 ↔
    (∀ w ∈ marks, ¬ w <+: cs) ∧ (b = true → ¬ Opens (cs.dropWhile isIndent)) := by
  rw [markLength_eq]
  cases hfind : marks.find? (·.isPrefixOf cs) with
  | some w =>
    obtain ⟨hw, hfront⟩ := find_marks hfind
    exact iff_of_false (ne_nil_of_inked (inked_of_mem_marks hw)) fun h => h.1 w hw hfront
  | none =>
    have hnone : ∀ w ∈ marks, ¬ w <+: cs := by
      simpa [List.find?_eq_none] using hfind
    cases b with
    | false => exact iff_of_true rfl ⟨hnone, nofun⟩
    | true =>
      by_cases hopens : Opens (cs.dropWhile isIndent)
      · exact iff_of_false (ne_nil_of_inked (inked_lineMark hopens)) fun h => h.2 rfl hopens
      · exact iff_of_true (congrArg List.length (lineMark_eq_nil hopens)) ⟨hnone, fun _ => hopens⟩

theorem exists_mark (h : markLength b cs = n + 1) : ∃ mark, mark <+: cs ∧ mark.length = n + 1 ∧ Inked mark := by
  rw [markLength_eq] at h
  cases hfind : marks.find? (·.isPrefixOf cs) with
  | some w =>
    rw [hfind] at h
    obtain ⟨hw, hfront⟩ := find_marks hfind
    exact ⟨w, hfront, h, inked_of_mem_marks hw⟩
  | none =>
    rw [hfind] at h
    cases b with
    | false => cases h
    | true =>
      refine ⟨lineMark cs, lineMark_front cs, h, inked_lineMark ?_⟩
      by_contra hopens
      rw [lineMark_eq_nil hopens] at h
      cases h

theorem isPrefixOf_row (hw : '\n' ∉ w) (row rest : List Char) :
    w.isPrefixOf (row ++ '\n' :: rest) = w.isPrefixOf row := by
  induction w generalizing row with
  | nil => rfl
  | cons c w ih =>
    rw [List.mem_cons, not_or] at hw
    cases row with
    | nil => simp [List.isPrefixOf, Ne.symm hw.1]
    | cons d row => simp [List.isPrefixOf, ih hw.2 row]

theorem takeWhile_row {p : Char → Bool} (hp : p '\n' = false) (row rest : List Char) :
    (row ++ '\n' :: rest).takeWhile p = row.takeWhile p := by
  induction row with
  | nil => simp [hp]
  | cons c row ih => simp [List.takeWhile_cons, ih]

theorem dropWhile_row {p : Char → Bool} (hp : p '\n' = false) (row rest : List Char) :
    (row ++ '\n' :: rest).dropWhile p = row.dropWhile p ++ '\n' :: rest := by
  have hle : (row.takeWhile p).length ≤ row.length := (List.takeWhile_prefix p).length_le
  rw [← drop_takeWhile, takeWhile_row hp, List.drop_append_of_le_length hle, drop_takeWhile]

/-- Marks are found in a row as if nothing came after it. -/
theorem markLength_row (b : Bool) (row rest : List Char) :
    markLength b (row ++ '\n' :: rest) = markLength b row := by
  have hfind : marks.find? (·.isPrefixOf (row ++ '\n' :: rest)) = marks.find? (·.isPrefixOf row) :=
    List.find?_congr fun w hw => isPrefixOf_row (inked_of_mem_marks hw).1 row rest
  have hindented : ∀ d, (d == '\n') = false → indented d (row ++ '\n' :: rest) = indented d row := by
    intro d hd
    have hrun : ('\n' == d) = false := by rwa [BEq.comm]
    rw [indented, indented, dropWhile_row rfl, takeWhile_row rfl, takeWhile_row hrun]
  have hline : lineMark (row ++ '\n' :: rest) = lineMark row := by
    unfold lineMark
    rw [dropWhile_row rfl, hindented '/' rfl, hindented '#' rfl]
    simp only [← List.isPrefixOf_iff_prefix]
    rw [isPrefixOf_row (by decide), isPrefixOf_row (by decide)]
  rw [markLength_eq, markLength_eq, hfind, hline]

end

/-! ## What is left -/

/-- What is left of a text, cut where marks were taken out. -/
def gaps : Nat → Bool → List Char → List (List Char)
  | _, _, [] => [[]]
  | skip + 1, _, c :: cs => gaps skip (c == '\n') cs
  | 0, b, c :: cs =>
    match markLength b (c :: cs) with
    | 0 => (gaps 0 (c == '\n') cs).modifyHead (c :: ·)
    | n + 1 => [] :: gaps n (c == '\n') cs

section
variable {b : Bool} {c : Char} {cs gap : List Char} {n : Nat} {later : List (List Char)}

theorem withoutMarks_kept (h : markLength b (c :: cs) = 0) :
    withoutMarks 0 b (c :: cs) = c :: withoutMarks 0 (c == '\n') cs := by
  rw [withoutMarks, h]

theorem withoutMarks_mark (h : markLength b (c :: cs) = n + 1) :
    withoutMarks 0 b (c :: cs) = withoutMarks n (c == '\n') cs := by
  rw [withoutMarks, h]

theorem gaps_ne_nil (skip : Nat) (b : Bool) (cs : List Char) : gaps skip b cs ≠ [] := by
  induction cs generalizing skip b with
  | nil => simp [gaps]
  | cons c cs ih =>
    cases skip with
    | succ skip => exact ih _ _
    | zero =>
      rw [gaps]
      split
      · simpa using ih _ _
      · simp

theorem gaps_mark (h : markLength b (c :: cs) = n + 1) : gaps 0 b (c :: cs) = [] :: gaps n (c == '\n') cs := by
  rw [gaps, h]

theorem exists_gaps_kept (h : markLength b (c :: cs) = 0) :
    ∃ gap later, gaps 0 (c == '\n') cs = gap :: later ∧ gaps 0 b (c :: cs) = (c :: gap) :: later := by
  obtain ⟨gap, later, hgaps⟩ := List.exists_cons_of_ne_nil (gaps_ne_nil 0 (c == '\n') cs)
  refine ⟨gap, later, hgaps, ?_⟩
  rw [gaps, h, hgaps]
  rfl

theorem flatten_gaps (skip : Nat) (b : Bool) (cs : List Char) :
    (gaps skip b cs).flatten = withoutMarks skip b cs := by
  induction cs generalizing skip b with
  | nil => cases skip <;> rfl
  | cons c cs ih =>
    cases skip with
    | succ skip => exact ih _ _
    | zero =>
      cases hmark : markLength b (c :: cs) with
      | zero =>
        obtain ⟨gap, later, hgaps, hmore⟩ := exists_gaps_kept hmark
        rw [hmore, withoutMarks_kept hmark, ← ih, hgaps]
        rfl
      | succ n =>
        rw [gaps_mark hmark, withoutMarks_mark hmark]
        exact ih _ _

theorem prefix_of_gaps (h : gaps 0 b cs = gap :: later) : gap <+: cs := by
  induction cs generalizing b gap later with
  | nil =>
    obtain ⟨rfl, -⟩ := List.cons.inj h
    exact List.prefix_refl _
  | cons c cs ih =>
    cases hmark : markLength b (c :: cs) with
    | zero =>
      obtain ⟨first, rest, hgaps, hmore⟩ := exists_gaps_kept hmark
      obtain ⟨rfl, -⟩ := List.cons.inj (hmore.symm.trans h)
      exact List.cons_prefix_cons.2 ⟨rfl, ih hgaps⟩
    | succ n =>
      obtain ⟨rfl, -⟩ := List.cons.inj ((gaps_mark hmark).symm.trans h)
      exact List.nil_prefix

/-- A gap holds nothing that is taken out anywhere. -/
theorem bare_of_mem_gaps {skip : Nat} (h : gap ∈ gaps skip b cs) : '*' ∉ gap ∧ ¬ Spells gap := by
  induction cs generalizing skip b gap with
  | nil =>
    rw [gaps, List.mem_singleton] at h
    subst h
    decide
  | cons c cs ih =>
    cases skip with
    | succ skip => exact ih h
    | zero =>
      cases hmark : markLength b (c :: cs) with
      | zero =>
        obtain ⟨first, rest, hgaps, hmore⟩ := exists_gaps_kept hmark
        rw [hmore] at h
        rcases List.mem_cons.1 h with rfl | h
        · obtain ⟨hstar, hspells⟩ := ih (hgaps ▸ List.mem_cons_self)
          have hword : ∀ w ∈ marks, ¬ w <+: c :: first := by
            intro w hw hfront
            exact (markLength_eq_zero_iff.1 hmark).1 w hw
              (hfront.trans (List.cons_prefix_cons.2 ⟨rfl, prefix_of_gaps hgaps⟩))
          constructor
          · intro hmem
            rcases List.mem_cons.1 hmem with rfl | hmem
            · exact hword ['*'] (by decide) (List.cons_prefix_cons.2 ⟨rfl, List.nil_prefix⟩)
            · exact hstar hmem
          · rintro ⟨w, hw, hspelt⟩
            rcases List.infix_cons_iff.1 hspelt with hfront | hlater
            · exact hword w (mem_marks_of_mem_words hw) hfront
            · exact hspells ⟨w, hw, hlater⟩
        · exact ih (hgaps ▸ List.mem_cons_of_mem first h)
      | succ n =>
        rw [gaps_mark hmark] at h
        rcases List.mem_cons.1 h with rfl | h
        · decide
        · exact ih h

/-- Nothing that is left at the front of a row opens it. -/
theorem not_opens_of_gaps (h : gaps 0 true cs = gap :: later) : ¬ Opens (gap.dropWhile isIndent) := by
  have hnil : ¬ Opens [] := by decide
  cases cs with
  | nil =>
    obtain ⟨rfl, -⟩ := List.cons.inj h
    exact hnil
  | cons c cs =>
    cases hmark : markLength true (c :: cs) with
    | zero =>
      intro hopens
      have hrow := (markLength_eq_zero_iff.1 hmark).2 rfl
      obtain ⟨rest, hrest⟩ := prefix_of_gaps h
      rw [← hrest, List.dropWhile_append] at hrow
      split at hrow
      · rename_i hindent
        rw [List.isEmpty_iff.1 hindent] at hopens
        exact hnil hopens
      · exact hrow (hopens.imp (·.trans (List.prefix_append _ _)) (·.trans (List.prefix_append _ _)))
    | succ n =>
      obtain ⟨rfl, -⟩ := List.cons.inj ((gaps_mark hmark).symm.trans h)
      exact hnil

/-- Without marks a text stays as it is. -/
theorem withoutMarks_eq_self (hnewline : '\n' ∉ cs) (hstar : '*' ∉ cs) (hspells : ¬ Spells cs)
    (hopens : b = true → ¬ Opens (cs.dropWhile isIndent)) : withoutMarks 0 b cs = cs := by
  induction cs generalizing b with
  | nil => rfl
  | cons c cs ih =>
    have hmark : markLength b (c :: cs) = 0 := by
      refine markLength_eq_zero_iff.2 ⟨fun w hw hfront => ?_, hopens⟩
      have hstars : ∀ w ∈ marks, '*' ∈ w ∨ w ∈ words := by decide
      rcases hstars w hw with hmem | hmem
      · exact hstar (hfront.mem hmem)
      · exact hspells ⟨w, hmem, hfront.isInfix⟩
    have hc : (c == '\n') = false := beq_eq_false_iff_ne.2 fun hc => hnewline (hc ▸ List.mem_cons_self)
    rw [withoutMarks_kept hmark, hc, ih]
    · exact fun h => hnewline (List.mem_cons_of_mem c h)
    · exact fun h => hstar (List.mem_cons_of_mem c h)
    · rintro ⟨w, hw, hspelt⟩
      exact hspells ⟨w, hw, hspelt.trans (List.suffix_cons c cs).isInfix⟩
    · nofun

end

/-! ## What is taken out -/

def ink (cs : List Char) : List Char := cs.filter (!isBlank ·)

theorem ink_append (cs ds : List Char) : ink (cs ++ ds) = ink cs ++ ink ds := List.filter_append ..

theorem ink_ne_nil {cs : List Char} (h : Inked cs) : ink cs ≠ [] := by
  obtain ⟨-, c, hc, hink⟩ := h
  exact List.ne_nil_of_mem (List.mem_filter.2 ⟨hc, by rw [hink]; rfl⟩)

theorem ink_withoutMarks_le (skip : Nat) (b : Bool) (cs : List Char) :
    (ink (withoutMarks skip b cs)).length ≤ (ink (cs.drop skip)).length := by
  induction cs generalizing skip b with
  | nil => cases skip <;> exact Nat.le_refl _
  | cons c cs ih =>
    cases skip with
    | succ skip => exact ih _ _
    | zero =>
      cases hmark : markLength b (c :: cs) with
      | zero =>
        have hcs := ih 0 (c == '\n')
        rw [withoutMarks_kept hmark, List.drop_zero, ← List.singleton_append, ink_append, List.length_append,
          ← List.singleton_append (l := cs), ink_append, List.length_append]
        exact Nat.add_le_add_left hcs _
      | succ n =>
        rw [withoutMarks_mark hmark, List.drop_zero]
        refine (ih n _).trans ?_
        exact (((List.drop_sublist n cs).trans (List.sublist_cons_self c cs)).filter _).length_le

/-- A pass that finds a mark takes out more than blanks. -/
theorem gaps_eq_or_ink_lt (b : Bool) (cs : List Char) :
    gaps 0 b cs = [cs] ∨ (ink (withoutMarks 0 b cs)).length < (ink cs).length := by
  induction cs generalizing b with
  | nil => exact .inl rfl
  | cons c cs ih =>
    cases hmark : markLength b (c :: cs) with
    | zero =>
      obtain ⟨first, rest, hgaps, hmore⟩ := exists_gaps_kept hmark
      rcases ih (c == '\n') with hcs | hcs
      · obtain ⟨rfl, rfl⟩ := List.cons.inj (hgaps.symm.trans hcs)
        exact .inl hmore
      · right
        rw [withoutMarks_kept hmark, ← List.singleton_append, ink_append, List.length_append,
          ← List.singleton_append (l := cs), ink_append, List.length_append]
        exact Nat.add_lt_add_left hcs _
    | succ n =>
      right
      obtain ⟨mark, ⟨rest, hrest⟩, hlength, hinked⟩ := exists_mark hmark
      have hdrop : cs.drop n = rest := by
        have hdrop := congrArg (List.drop (n + 1)) hrest
        rw [← hlength, List.drop_left, hlength] at hdrop
        exact hdrop.symm
      have hle := ink_withoutMarks_le n (c == '\n') cs
      have hpos := List.length_pos_iff.2 (ink_ne_nil hinked)
      rw [withoutMarks_mark hmark, ← hrest, ink_append, List.length_append]
      rw [hdrop] at hle
      omega

/-! ## Rows -/

def rows (cs : List Char) : List (List Char) := splitAt (· == '\n') cs

theorem withoutMarks_row {row : List Char} (hrow : '\n' ∉ row) {skip : Nat} (hskip : skip ≤ row.length) (b : Bool)
    (rest : List Char) :
    withoutMarks skip b (row ++ '\n' :: rest) = withoutMarks skip b row ++ '\n' :: withoutMarks 0 true rest := by
  induction row generalizing skip b with
  | nil =>
    obtain rfl : skip = 0 := Nat.le_zero.1 hskip
    exact withoutMarks_kept ((markLength_row b [] rest).trans (by cases b <;> rfl))
  | cons c row ih =>
    have hrow : '\n' ∉ row := fun h => hrow (List.mem_cons_of_mem c h)
    cases skip with
    | succ skip => exact ih hrow (Nat.le_of_succ_le_succ hskip) _
    | zero =>
      have hsame := markLength_row b (c :: row) rest
      rw [List.cons_append] at hsame ⊢
      cases hmark : markLength b (c :: row) with
      | zero =>
        rw [withoutMarks_kept (hsame.trans hmark), withoutMarks_kept hmark, ih hrow (Nat.zero_le _)]
        rfl
      | succ n =>
        obtain ⟨mark, hfront, hlength, -⟩ := exists_mark hmark
        have hle := hfront.length_le
        rw [hlength, List.length_cons] at hle
        rw [withoutMarks_mark (hsame.trans hmark), withoutMarks_mark hmark, ih hrow (Nat.le_of_succ_le_succ hle)]

theorem trimmedPieces_rows (cs : List Char) :
    trimmedPieces (withoutMarks 0 true cs) = (rows cs).flatMap fun row =>
      trimmedPieces (withoutMarks 0 true row) := by
  unfold rows
  induction cs using Text.piece_induction (p := (· == '\n')) with
  | whole row h => rw [Text.splitAt_whole h, List.flatMap_singleton]
  | more row c rest h hc ih =>
    obtain rfl : c = '\n' := eq_of_beq hc
    rw [withoutMarks_row (Text.not_mem_of_free h hc) (Nat.zero_le _),
      Text.trimmedPieces_append _ Text.isLineEnd_newline, ih, Text.splitAt_more h hc, List.flatMap_cons]

/-- A pass that takes out nothing but blanks finds no mark in any row. -/
theorem gaps_of_ink_eq {cs : List Char} (h : (ink (withoutMarks 0 true cs)).length = (ink cs).length) :
    ∀ row ∈ rows cs, gaps 0 true row = [row] := by
  have hrow : ∀ row, (ink (withoutMarks 0 true row)).length = (ink row).length → gaps 0 true row = [row] := by
    intro row heq
    rcases gaps_eq_or_ink_lt true row with hgaps | hlt
    · exact hgaps
    · omega
  unfold rows
  induction cs using Text.piece_induction (p := (· == '\n')) with
  | whole row hpiece =>
    rw [Text.splitAt_whole hpiece]
    simpa using hrow row h
  | more row c rest hpiece hc ih =>
    obtain rfl : c = '\n' := eq_of_beq hc
    have hfirst := ink_withoutMarks_le 0 true row
    have hrest := ink_withoutMarks_le 0 true rest
    have hnewline : ∀ cs, ink ('\n' :: cs) = ink cs := fun cs => rfl
    rw [withoutMarks_row (Text.not_mem_of_free hpiece hc) (Nat.zero_le _), ink_append, ink_append, hnewline,
      hnewline, List.length_append, List.length_append] at h
    rw [List.drop_zero] at hfirst hrest
    rw [Text.splitAt_more hpiece hc, List.forall_mem_cons]
    exact ⟨hrow row (by omega), ih (by omega)⟩

end SourceAtlas.DocComment
