import Mathlib.Data.List.TakeWhile
import SourceAtlas.Search.Tokens

/-!
# What tokens cover

The tokens of a text are its words in lower case, each with its parts if there
are several. The parts of a word join to the word without its underscores, so
no letter and no digit of a word is lost.
-/

namespace SourceAtlas.Search

/-! ## Runs -/

/-- What lies in a text are gaps and, between any two of them, a run of members of `p`. -/
inductive MaximalRuns (p : Char → Bool) : List Char → List (List Char) → Prop
  | gap {gap : List Char} (hgap : ∀ c ∈ gap, p c = false) : MaximalRuns p gap []
  | run {gap run rest : List Char} {later : List (List Char)} (hgap : ∀ c ∈ gap, p c = false) (hne : run ≠ [])
      (hrun : ∀ c ∈ run, p c = true) (hend : ∀ c ∈ rest.head?, p c = false) (hlater : MaximalRuns p rest later) :
      MaximalRuns p (gap ++ run ++ rest) (run :: later)

section
variable {p : Char → Bool} {c : Char} {cs gap run : List Char} {ws : List (List Char)}

theorem runs_gap (hgap : ∀ c ∈ gap, p c = false) (cs : List Char) : runs p [] (gap ++ cs) = runs p [] cs := by
  induction gap with
  | nil => rfl
  | cons c gap ih =>
    obtain ⟨hc, hgap⟩ := List.forall_mem_cons.1 hgap
    simp [runs, hc, ih hgap]

theorem runs_run (hrun : ∀ c ∈ run, p c = true) {rest : List Char} (hend : ∀ c ∈ rest.head?, p c = false)
    {before : List Char} (hne : before ++ run ≠ []) :
    runs p before (run ++ rest) = (before.reverse ++ run) :: runs p [] rest := by
  induction run generalizing before with
  | nil =>
    have hbefore : before.isEmpty = false := by simpa using hne
    cases rest with
    | nil => simp [runs, hbefore]
    | cons c rest =>
      have hc : p c = false := hend c rfl
      simp [runs, hbefore, hc]
  | cons c run ih =>
    obtain ⟨hc, hrun⟩ := List.forall_mem_cons.1 hrun
    rw [List.cons_append, runs, if_pos hc, ih hrun (by simp), List.reverse_cons, List.append_assoc]
    rfl

theorem MaximalRuns.skip (hc : p c = false) (h : MaximalRuns p cs ws) : MaximalRuns p (c :: cs) ws := by
  cases h with
  | gap hgap => exact .gap (List.forall_mem_cons.2 ⟨hc, hgap⟩)
  | run hgap hne hrun hend hlater => exact .run (List.forall_mem_cons.2 ⟨hc, hgap⟩) hne hrun hend hlater

theorem maximalRuns_runs (p : Char → Bool) (cs : List Char) : MaximalRuns p cs (runs p [] cs) ∧
    ∀ before, before ≠ [] → (∀ c ∈ before, p c = true) →
    MaximalRuns p (before.reverse ++ cs) (runs p before cs) := by
  induction cs with
  | nil =>
    refine ⟨.gap (by simp), fun before hne hbefore => ?_⟩
    have hrun : MaximalRuns p ([] ++ before.reverse ++ []) [before.reverse] :=
      .run (by simp) (by simpa using hne) (by simpa using hbefore) (by simp) (.gap (by simp))
    simpa [runs, hne] using hrun
  | cons c cs ih =>
    obtain ⟨hcs, hgrown⟩ := ih
    by_cases hc : p c = true
    · -- the letter goes to the run that is open, or opens one
      refine ⟨?_, fun before hne hbefore => ?_⟩
      · simpa [runs, hc] using hgrown [c] (by simp) (by simpa using hc)
      · simpa [runs, hc] using hgrown (c :: before) (by simp) (List.forall_mem_cons.2 ⟨hc, hbefore⟩)
    · have hc := Bool.eq_false_iff.2 hc
      refine ⟨by simpa [runs, hc] using hcs.skip hc, fun before hne hbefore => ?_⟩
      have hrun : MaximalRuns p ([] ++ before.reverse ++ c :: cs) (before.reverse :: runs p [] cs) :=
        .run (by simp) (by simpa using hne) (by simpa using hbefore) (by simpa using hc) (hcs.skip hc)
      simpa [runs, hc, hne] using hrun

/-- The runs that are found are all of them, and there is one way only to lay them out. -/
theorem runs_eq_iff : runs p [] cs = ws ↔ MaximalRuns p cs ws := by
  constructor
  · intro h
    subst h
    exact (maximalRuns_runs p cs).1
  · intro h
    induction h with
    | gap hgap => simpa [runs] using runs_gap hgap []
    | run hgap hne hrun hend _ ih =>
      have hrun := @runs_run p _ hrun _ hend [] (by simpa using hne)
      rw [List.append_assoc, runs_gap hgap, hrun, ih]
      rfl

theorem MaximalRuns.flatten_eq (h : MaximalRuns p cs ws) : ws.flatten = cs.filter p := by
  induction h with
  | gap hgap => simpa [List.filter_eq_nil_iff] using hgap
  | @run gap run rest later hgap hne hrun hend hlater ih =>
    have hnone : gap.filter p = [] := by simpa [List.filter_eq_nil_iff] using hgap
    rw [List.flatten_cons, ih, List.filter_append, List.filter_append, hnone, List.filter_eq_self.2 hrun]
    rfl

theorem MaximalRuns.of_mem (h : MaximalRuns p cs ws) {w : List Char} (hw : w ∈ ws) :
    w ≠ [] ∧ ∀ c ∈ w, c ∈ cs ∧ p c = true := by
  induction h with
  | gap => cases hw
  | run hgap hne hrun hend hlater ih =>
    rcases List.mem_cons.1 hw with rfl | hw
    · exact ⟨hne, fun c hc => ⟨by simp [hc], hrun c hc⟩⟩
    · obtain ⟨hw, hall⟩ := ih hw
      exact ⟨hw, fun c hc => ⟨by simp [(hall c hc).1], (hall c hc).2⟩⟩

end

/-! ## Parts -/

/-- Capitals, small letters after at most one capital, or digits. -/
inductive IsPart : List Char → Prop
  | capitals {cs : List Char} (hne : cs ≠ []) (h : ∀ c ∈ cs, c.isUpper = true) : IsPart cs
  | letters {first cs : List Char} (hone : first.length ≤ 1)
      (hfirst : ∀ c ∈ first, c.isUpper = true) (hne : cs ≠ [])
      (h : ∀ c ∈ cs, c.isLower = true) : IsPart (first ++ cs)
  | digits {cs : List Char} (hne : cs ≠ []) (h : ∀ c ∈ cs, c.isDigit = true) : IsPart cs

theorem IsPart.ne_nil {cs : List Char} (h : IsPart cs) : cs ≠ [] := by
  cases h with
  | capitals hne => exact hne
  | letters _ _ hne => simp [hne]
  | digits hne => exact hne

theorem take_length_takeWhile (p : Char → Bool) (cs : List Char) :
    cs.take (cs.takeWhile p).length = cs.takeWhile p :=
  (List.prefix_iff_eq_take.1 (List.takeWhile_prefix p)).symm

theorem isAlphanum_iff {c : Char} :
    c.isAlphanum = true ↔ c.isUpper = true ∨ c.isLower = true ∨ c.isDigit = true := by
  show (c.isUpper || c.isLower || c.isDigit) = true ↔ _
  rw [Bool.or_eq_true, Bool.or_eq_true, or_assoc]

theorem isPart_front {c : Char} (hc : c.isAlphanum = true) (cs : List Char) :
    0 < partLength (c :: cs) ∧ IsPart ((c :: cs).take (partLength (c :: cs))) := by
  have hall : ∀ (p : Char → Bool) (l : List Char), ∀ d ∈ l.takeWhile p, p d = true :=
    fun p l d => List.mem_takeWhile_imp
  unfold partLength
  by_cases hupper : c.isUpper = true
  · have hcapitals : 0 < ((c :: cs).takeWhile Char.isUpper).length := by simp [hupper]
    simp only [hcapitals, if_true]
    split
    · rename_i hsmall
      rw [take_length_takeWhile]
      exact ⟨hcapitals, .capitals (List.length_pos_iff.1 hcapitals) (hall _ _)⟩
    split
    · rename_i hsmall hmany
      -- the last capital belongs to the small letters
      refine ⟨by omega, .capitals (by simp; omega) fun d hd => hall _ (c :: cs) d ?_⟩
      rw [← take_length_takeWhile]
      exact List.take_subset_take_left (c :: cs) (Nat.sub_le _ 1) hd
    · rename_i hsmall hone
      have hsingle : ((c :: cs).takeWhile Char.isUpper).length = 1 := by omega
      simp only [hsingle, List.drop_succ_cons, List.drop_zero] at hsmall ⊢
      rw [Nat.add_comm, List.take_succ_cons, take_length_takeWhile]
      have hne : cs.takeWhile Char.isLower ≠ [] := fun hnil => hsmall (by rw [hnil]; rfl)
      exact ⟨by omega, @IsPart.letters [c] _ (by simp) (by simpa using hupper) hne (hall _ cs)⟩
  · have hnone : ((c :: cs).takeWhile Char.isUpper).length = 0 := by simp [hupper]
    simp only [hnone, Nat.lt_irrefl, if_false, List.drop_zero]
    split
    · rename_i hsmall
      rw [take_length_takeWhile]
      exact ⟨hsmall, @IsPart.letters [] _ (by simp) (by simp) (List.length_pos_iff.1 hsmall) (hall _ (c :: cs))⟩
    · rename_i hsmall
      have hdigit : c.isDigit = true := by
        by_cases hlower : c.isLower = true
        · simp [hlower] at hsmall
        · exact ((isAlphanum_iff.1 hc).resolve_left hupper).resolve_left hlower
      have hdigits : 0 < ((c :: cs).takeWhile Char.isDigit).length := by simp [hdigit]
      rw [take_length_takeWhile]
      exact ⟨hdigits, .digits (List.length_pos_iff.1 hdigits) (hall _ _)⟩

theorem partsFrom_tile {fuel : Nat} {cs : List Char} (hfuel : cs.length ≤ fuel)
    (hcs : ∀ c ∈ cs, c.isAlphanum = true) :
    (partsFrom fuel cs).flatten = cs ∧ ∀ q ∈ partsFrom fuel cs, IsPart q := by
  induction fuel generalizing cs with
  | zero =>
    obtain rfl : cs = [] := List.length_eq_zero_iff.1 (Nat.le_zero.1 hfuel)
    simp [partsFrom]
  | succ fuel ih =>
    cases cs with
    | nil => simp [partsFrom]
    | cons c cs =>
      obtain ⟨hpos, hpart⟩ := isPart_front (hcs c List.mem_cons_self) cs
      rw [partsFrom]
      split
      · omega
      · rename_i n hn
        have hrest : ((c :: cs).drop (n + 1)).length ≤ fuel := by
          simp only [List.length_drop, List.length_cons] at hfuel ⊢
          omega
        obtain ⟨hflat, hparts⟩ := ih hrest fun d hd => hcs d (List.mem_of_mem_drop hd)
        rw [hn] at hpart
        refine ⟨?_, List.forall_mem_cons.2 ⟨hpart, hparts⟩⟩
        rw [List.flatten_cons, hflat, List.take_append_drop]

theorem parts_tile {w : List Char} (hw : ∀ c ∈ w, isWordPart c = true) :
    (parts w).flatten = w.filter (· != '_') ∧ ∀ q ∈ parts w, IsPart q := by
  have hruns := (maximalRuns_runs (· != '_') w).1
  have hchunk : ∀ chunk ∈ runs (· != '_') [] w, ∀ c ∈ chunk, c.isAlphanum = true := by
    intro chunk hchunk c hc
    obtain ⟨hcw, hne⟩ := (hruns.of_mem hchunk).2 c hc
    have hword := hw c hcw
    simp only [bne_iff_ne] at hne
    simpa [isWordPart, hne] using hword
  unfold parts
  constructor
  · have hback : (runs (· != '_') [] w).map (fun chunk => (partsFrom chunk.length chunk).flatten) =
        runs (· != '_') [] w := by
      rw [List.map_congr_left fun chunk h => (partsFrom_tile (Nat.le_refl _) (hchunk chunk h)).1, List.map_id']
    rw [← hruns.flatten_eq, List.flatMap_def, List.flatten_flatten, List.map_map]
    exact congrArg List.flatten hback
  · intro q hq
    obtain ⟨chunk, h, hq⟩ := List.mem_flatMap.1 hq
    exact (partsFrom_tile (Nat.le_refl _) (hchunk chunk h)).2 q hq

/-! ## Lower case -/

theorem isWordPart_cases {c : Char} (h : isWordPart c = true) : c.isAlpha = true ∨ c.isDigit = true ∨ c = '_' := by
  simpa [isWordPart, Char.isAlphanum, or_assoc] using h

theorem isUpper_iff {c : Char} : c.isUpper = true ↔ 'A'.val ≤ c.val ∧ c.val ≤ 'Z'.val := decide_eq_true_iff

theorem isLower_iff {c : Char} : c.isLower = true ↔ 'a'.val ≤ c.val ∧ c.val ≤ 'z'.val := by
  show (decide ('a'.val ≤ c.val) && decide (c.val ≤ 'z'.val)) = true ↔ _
  rw [Bool.and_eq_true, decide_eq_true_iff, decide_eq_true_iff]

theorem val_toLower {c : Char} (h : c.isUpper = true) : c.toLower.val = c.val + 32 :=
  congrArg Char.val (dif_pos (isUpper_iff.1 h))

theorem toLower_of_not_isUpper {c : Char} (h : ¬ c.isUpper = true) : c.toLower = c :=
  dif_neg fun hupper => h (isUpper_iff.2 hupper)

theorem toLower_of_isDigit {c : Char} (h : c.isDigit = true) : c.toLower = c := by
  refine toLower_of_not_isUpper fun hupper => ?_
  have hlow := (isUpper_iff.1 hupper).1
  simp only [Char.isDigit, Bool.and_eq_true, decide_eq_true_eq, UInt32.le_iff_toNat_le] at h hlow
  have hA : 'A'.val.toNat = 65 := rfl
  have h9 : '9'.val.toNat = 57 := rfl
  omega

theorem isLower_toLower {c : Char} (h : c.isAlpha = true) : c.toLower.isLower = true := by
  by_cases hupper : c.isUpper = true
  · obtain ⟨hlow, hhigh⟩ := isUpper_iff.1 hupper
    rw [isLower_iff, val_toLower hupper]
    rw [UInt32.le_iff_toNat_le] at hlow hhigh ⊢
    rw [UInt32.le_iff_toNat_le, UInt32.toNat_add]
    have hA : 'A'.val.toNat = 65 := rfl
    have hZ : 'Z'.val.toNat = 90 := rfl
    have ha : 'a'.val.toNat = 97 := rfl
    have hz : 'z'.val.toNat = 122 := rfl
    have hdistance : (32 : UInt32).toNat = 32 := rfl
    omega
  · rw [toLower_of_not_isUpper hupper]
    exact (Bool.or_eq_true_iff.1 h).resolve_left hupper

theorem toLower_of_isWordPart {c : Char} (h : isWordPart c = true) :
    (c.toLower.isLower = true ∨ c.toLower.isDigit = true ∨ c.toLower = '_') ∧ (c.toLower = '_' ↔ c = '_') := by
  rcases isWordPart_cases h with halpha | hdigit | rfl
  · have hlower : c.toLower.isLower = true := isLower_toLower halpha
    refine ⟨.inl hlower, fun hbar => ?_, fun hbar => ?_⟩
    · rw [hbar] at hlower
      cases hlower
    · rw [hbar] at halpha
      cases halpha
  · rw [toLower_of_isDigit hdigit]
    exact ⟨.inr (.inl hdigit), Iff.rfl⟩
  · decide

theorem toList_lowered (cs : List Char) : (lowered cs).toList = cs.map Char.toLower := by
  simp [lowered]

theorem join_map_lowered (qs : List (List Char)) : String.join (qs.map lowered) = lowered qs.flatten := by
  apply String.toList_inj.1
  rw [String.toList_join, toList_lowered, List.flatMap_map, List.map_flatten, List.flatMap_def]
  simp only [toList_lowered]

theorem lowered_ne {cs : List Char} (hne : cs ≠ []) : lowered cs ≠ "" := by
  intro hempty
  have hlist := congrArg String.toList hempty
  rw [toList_lowered] at hlist
  exact hne (List.map_eq_nil_iff.1 hlist)

theorem of_mem_lowered {cs : List Char} (hcs : ∀ c ∈ cs, isWordPart c = true) {d : Char}
    (hd : d ∈ (lowered cs).toList) :
    (d.isLower = true ∨ d.isDigit = true ∨ d = '_') ∧ (d = '_' → '_' ∈ cs) := by
  rw [toList_lowered] at hd
  obtain ⟨c, hc, rfl⟩ := List.mem_map.1 hd
  obtain ⟨hclean, hbar⟩ := toLower_of_isWordPart (hcs c hc)
  exact ⟨hclean, fun h => hbar.1 h ▸ hc⟩

theorem filter_lowered {w : List Char} (hw : ∀ c ∈ w, isWordPart c = true) :
    (lowered w).toList.filter (· != '_') = (w.filter (· != '_')).map Char.toLower := by
  rw [toList_lowered, List.filter_map]
  congr 1
  apply List.filter_congr
  intro c hc
  have hlow := (toLower_of_isWordPart (hw c hc)).2
  apply Bool.eq_iff_iff.2
  simpa using not_congr hlow

theorem wordTokens_eq (w : List Char) :
    wordTokens w = lowered w :: if 2 ≤ (parts w).length then (parts w).map lowered else [] := by
  unfold wordTokens
  split
  · rename_i q r ps hparts
    simp [hparts]
  · rename_i hfew
    have hshort : ¬ 2 ≤ (parts w).length := by
      intro hlen
      match hparts : parts w, hlen with
      | q :: r :: ps, _ => exact hfew q r ps hparts
    rw [if_neg hshort]

/-! ## Texts -/

theorem mem_parts {w q : List Char} (hw : ∀ c ∈ w, isWordPart c = true) (hq : q ∈ parts w) :
    IsPart q ∧ ∀ c ∈ q, isWordPart c = true ∧ c ≠ '_' := by
  obtain ⟨hflat, hparts⟩ := parts_tile hw
  refine ⟨hparts q hq, fun c hc => ?_⟩
  have hkept : c ∈ w.filter (· != '_') := by
    rw [← hflat]
    exact List.mem_flatten.2 ⟨q, hq, hc⟩
  obtain ⟨hcw, hbar⟩ := List.mem_filter.1 hkept
  exact ⟨hw c hcw, by simpa using hbar⟩

theorem parts_lowered {w : List Char} (hw : ∀ c ∈ w, isWordPart c = true) :
    (∀ s ∈ (parts w).map lowered, s ≠ "" ∧ '_' ∉ s.toList) ∧
      String.join ((parts w).map lowered) = String.ofList ((lowered w).toList.filter (· != '_')) := by
  constructor
  · intro s hs
    obtain ⟨q, hq, rfl⟩ := List.mem_map.1 hs
    obtain ⟨hpart, hchars⟩ := mem_parts hw hq
    refine ⟨lowered_ne hpart.ne_nil, fun hbar => ?_⟩
    have hmem := (of_mem_lowered (fun c hc => (hchars c hc).1) hbar).2 rfl
    exact (hchars '_' hmem).2 rfl
  · rw [join_map_lowered, (parts_tile hw).1, filter_lowered hw]
    rfl

theorem mem_wordTokens {w : List Char} {t : String} (ht : t ∈ wordTokens w) :
    t = lowered w ∨ ∃ q ∈ parts w, t = lowered q := by
  rw [wordTokens_eq] at ht
  rcases List.mem_cons.1 ht with hword | hrest
  · exact .inl hword
  · split at hrest
    · obtain ⟨q, hq, rfl⟩ := List.mem_map.1 hrest
      exact .inr ⟨q, hq, rfl⟩
    · cases hrest

/-- The words of a text are its maximal runs of letters, digits and underscores. Each gives a token in
lower case, then its parts if there are several; nothing of it but underscores is left out of these. -/
theorem tokenize_covers (text : String) :
    ∃ words : List (List Char), (∀ ws, MaximalRuns isWordPart text.toList ws ↔ ws = words) ∧
      tokenize text = words.flatMap (fun w =>
        lowered w :: if 2 ≤ (parts w).length then (parts w).map lowered else []) ∧
      (∀ w ∈ words, (∀ q ∈ parts w, IsPart q) ∧ (∀ s ∈ (parts w).map lowered, s ≠ "" ∧ '_' ∉ s.toList) ∧
        String.join ((parts w).map lowered) = String.ofList ((lowered w).toList.filter (· != '_'))) ∧
      ∀ t ∈ tokenize text, t ≠ "" ∧ ∀ c ∈ t.toList, c.isLower = true ∨ c.isDigit = true ∨ c = '_' := by
  have hruns : MaximalRuns isWordPart text.toList (runs isWordPart [] text.toList) := runs_eq_iff.1 rfl
  have hword : ∀ w ∈ runs isWordPart [] text.toList, w ≠ [] ∧ ∀ c ∈ w, isWordPart c = true := fun w hw =>
    ⟨(hruns.of_mem hw).1, fun c hc => ((hruns.of_mem hw).2 c hc).2⟩
  refine ⟨runs isWordPart [] text.toList, fun ws => ?_, ?_, fun w hw => ?_, fun t ht => ?_⟩
  · rw [← runs_eq_iff, eq_comm]
  · unfold tokenize
    rw [funext wordTokens_eq]
  · exact ⟨(parts_tile (hword w hw).2).2, parts_lowered (hword w hw).2⟩
  · obtain ⟨w, hw, ht⟩ := List.mem_flatMap.1 ht
    obtain ⟨hne, hall⟩ := hword w hw
    rcases mem_wordTokens ht with rfl | ⟨q, hq, rfl⟩
    · exact ⟨lowered_ne hne, fun c hc => (of_mem_lowered hall hc).1⟩
    · obtain ⟨hpart, hchars⟩ := mem_parts hall hq
      exact ⟨lowered_ne hpart.ne_nil, fun c hc => (of_mem_lowered (fun d hd => (hchars d hd).1) hc).1⟩

end SourceAtlas.Search
