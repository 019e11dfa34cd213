import Mathlib.Analysis.SpecialFunctions.Log.Basic
import SourceAtlas.Proofs.Scopes

/-!
# Relevance

Scores are taken here as real numbers, where a division by zero and a logarithm of what is
not positive have no result. The counts of a scope are such that every score has one, and
that it is above zero for the documents that share a token with the query and no others.
-/

namespace SourceAtlas.Search

open Json (Value Record Key)

/-! ## Exact numbers -/

/-- A real number, or what a calculation without a result gives. -/
inductive Exact where
  | real (r : ℝ)
  | undefined

namespace Exact

variable {r s : ℝ} {j k : Key}

def lift (f : ℝ → ℝ → Exact) : Exact → Exact → Exact
  | real r, real s => f r s
  | _, _ => undefined

def compare (p : ℝ → ℝ → Bool) : Exact → Exact → Bool
  | real r, real s => p r s
  | _, _ => false

noncomputable instance : Scalar Exact where
  add := lift fun r s => real (r + s)
  sub := lift fun r s => real (r - s)
  mul := lift fun r s => real (r * s)
  div := lift fun r s => if s = 0 then undefined else real (r / s)
  beq := compare fun r s => decide (r = s)
  ofInt n := real n
  half := real (1 / 2)
  log
    | real r => if 0 < r then real (Real.log r) else undefined
    | undefined => undefined
  lt := compare fun r s => decide (r < s)

@[simp] theorem real_add (r s : ℝ) : real r + real s = real (r + s) := rfl

@[simp] theorem real_sub (r s : ℝ) : real r - real s = real (r - s) := rfl

@[simp] theorem real_mul (r s : ℝ) : real r * real s = real (r * s) := rfl

theorem real_div (r : ℝ) (h : s ≠ 0) : real r / real s = real (r / s) := if_neg h

theorem log_real (h : 0 < r) : Scalar.log (real r) = real (Real.log r) := if_pos h

@[simp] theorem ofInt_eq (n : Int) : (Scalar.ofInt n : Exact) = real n := rfl

@[simp] theorem half_eq : (Scalar.half : Exact) = real (1 / 2) := rfl

@[simp] theorem ofNat_eq (n : Nat) : (ofNat n : Exact) = real n := by
  rw [ofNat, ofInt_eq, Int.cast_natCast]

@[simp] theorem beq_real (r s : ℝ) : (real r == real s) = decide (r = s) := rfl

@[simp] theorem lt_real (r s : ℝ) : Scalar.lt (real r) (real s) = decide (r < s) := rfl

theorem isZero_real (r : ℝ) : isZero (real r) = decide (r = 0) := by
  rw [isZero, ofNat_eq, beq_real, Nat.cast_zero]

theorem isPositive_real (r : ℝ) : isPositive (real r) = decide (0 < r) := by
  rw [isPositive, ofNat_eq, lt_real, Nat.cast_zero]

theorem orders : OrdersOn (fun x => ∃ r, x = real r) (fun x y : Exact => x == y) fun x y => !Scalar.lt x y where
  total := by
    rintro _ _ ⟨r, rfl⟩ ⟨s, rfl⟩
    simpa using le_total s r
  trans := by
    rintro _ _ _ ⟨r, rfl⟩ ⟨s, rfl⟩ ⟨t, rfl⟩ hrs hst
    simp only [lt_real, Bool.not_eq_true', decide_eq_false_iff_not, not_lt] at *
    exact hst.trans hrs
  same_iff := by
    rintro _ _ ⟨r, rfl⟩ ⟨s, rfl⟩
    simp only [beq_real, lt_real, decide_eq_true_eq, Bool.not_eq_true', decide_eq_false_iff_not, not_lt]
    exact ⟨fun h => h ▸ ⟨le_rfl, le_rfl⟩, fun h => le_antisymm h.2 h.1⟩

theorem ranksBefore_orders : OrdersOn (fun a : Exact × Key => (∃ r, a.1 = real r) ∧ a.2.Defined)
    (fun a b => a.1 == b.1 && a.2 == b.2) ranksBefore := orders_ranksBefore orders

theorem ranksBefore_real : ranksBefore (real r, j) (real s, k) = true ↔ s < r ∨ r = s ∧ j.le k = true := by
  rw [ranksBefore, beq_real, lt_real]
  by_cases h : r = s
  · simp [h]
  · have hlt : s ≤ r ↔ s < r := ⟨fun hle => lt_of_le_of_ne hle (Ne.symm h), le_of_lt⟩
    simp [h, hlt]

end Exact

open Exact (real)

/-! ## Counts -/

theorem get?_countTerms (tokens : List String) (t : String) :
    (countTerms tokens).get? t = if t ∈ tokens then some (tokens.count t) else none := by
  induction tokens using List.reverseRecOn with
  | nil => rfl
  | append_singleton tokens u ih =>
    rw [countTerms, List.foldl_append, List.foldl_cons, List.foldl_nil, OrderedMap.get?_update, ← countTerms, ih]
    by_cases hu : u = t
    · subst hu
      by_cases ht : u ∈ tokens <;> simp [ht, List.count_eq_zero_of_not_mem]
    · simp [hu, Ne.symm hu]

theorem contains_countTerms (tokens : List String) (t : String) :
    (countTerms tokens).contains t = true ↔ t ∈ tokens := by
  rw [OrderedMap.contains_eq, get?_countTerms]
  by_cases h : t ∈ tokens <;> simp [h]

def fieldText (d : Document) (name : String) : String :=
  let v := Record.get d name
  if v.truthy then Json.plain v else ""

theorem field_termsOf (d : Document) {name : String} (h : name ∈ fieldWeights.map Prod.fst) :
    (termsOf d).field name = countTerms (tokenize (fieldText d name)) := by
  simp only [fieldWeights, List.map_cons, List.map_nil, List.mem_cons, List.not_mem_nil, or_false] at h
  rcases h with rfl | rfl | rfl <;> rfl

theorem weight_pos {f : String × Int} (h : f ∈ fieldWeights) : 0 < f.2 := by
  revert f
  decide

theorem count_pos {f : String × Int} (h : f ∈ fieldWeights) {d : Document} {term : String}
    (hterm : ((termsOf d).field f.1).contains term = true) : 0 < (((termsOf d).field f.1).get? term).getD 0 := by
  rw [field_termsOf d (List.mem_map_of_mem h)] at hterm ⊢
  rw [contains_countTerms] at hterm
  rw [get?_countTerms, if_pos hterm]
  exact List.count_pos_iff.2 hterm

/-! ## Sums -/

theorem foldlM_sum {α : Type} {f : Exact → α → Outcome Exact} {h : α → ℝ} {as : List α}
    (hf : ∀ a ∈ as, ∀ r, f (real r) a = .ok (real (r + h a))) (r : ℝ) :
    as.foldlM f (real r) = .ok (real (r + (as.map h).sum)) := by
  induction as generalizing r with
  | nil => simp [pure, Except.pure]
  | cons a as ih =>
    obtain ⟨ha, has⟩ := List.forall_mem_cons.1 hf
    rw [List.foldlM_cons, ha, List.map_cons, List.sum_cons, ← add_assoc]
    exact ih has (r + h a)

theorem sum_pos_iff {rs : List ℝ} (h : ∀ r ∈ rs, 0 ≤ r) : 0 < rs.sum ↔ ∃ r ∈ rs, 0 < r := by
  constructor
  · intro hsum
    by_contra hnone
    push Not at hnone
    exact hsum.not_ge (by simpa using List.sum_le_card_nsmul rs 0 hnone)
  · rintro ⟨r, hr, hpos⟩
    exact hpos.trans_le (List.single_le_sum h r hr)

namespace TextIndex

namespace Scope

variable {s : Scope} {k1 b : ℝ} {name term : String} {weight : Int} {counts : TermCounts} {query : List String}
  {t : DocumentTerms}

/-- The mean length of a field, one if the field is empty everywhere. -/
noncomputable def meanLength (s : Scope) (name : String) : ℝ :=
  let total : Nat := s.members.foldl (fun n m => n + (m.2.field name).total) 0
  if total = 0 then 1 else total / s.size

noncomputable def idf (s : Scope) (term : String) : ℝ :=
  Real.log (1 + (s.size - s.frequency term + 1 / 2) / (s.frequency term + 1 / 2))

noncomputable def divisor (s : Scope) (k1 b : ℝ) (name : String) (counts : TermCounts) (term : String) : ℝ :=
  (counts.get? term).getD 0 + k1 * (1 - b + b * counts.total / s.meanLength name)

noncomputable def share (s : Scope) (k1 b : ℝ) (name : String) (weight : Int) (counts : TermCounts)
    (term : String) : ℝ :=
  weight * s.idf term * (counts.get? term).getD 0 * (k1 + 1) / s.divisor k1 b name counts term

noncomputable def shares (s : Scope) (k1 b : ℝ) (query : List String) (t : DocumentTerms) (f : String × Int) :
    List ℝ :=
  (query.filter (t.field f.1).contains).map (s.share k1 b f.1 f.2 (t.field f.1))

noncomputable def relevance (s : Scope) (k1 b : ℝ) (query : List String) (t : DocumentTerms) : ℝ :=
  (fieldWeights.map fun f => (s.shares k1 b query t f).sum).sum

theorem frequency_le (s : Scope) (term : String) : s.frequency term ≤ s.size := List.length_filter_le _ _

theorem idf_argument_pos (s : Scope) (term : String) :
    0 < ((s.size : ℝ) - s.frequency term + 1 / 2) / (s.frequency term + 1 / 2) := by
  have hle : (s.frequency term : ℝ) ≤ s.size := Nat.cast_le.2 (s.frequency_le term)
  have hnonneg : (0 : ℝ) ≤ s.frequency term := Nat.cast_nonneg _
  apply div_pos <;> linarith

theorem idf_pos (s : Scope) (term : String) : 0 < s.idf term := by
  apply Real.log_pos
  linarith [s.idf_argument_pos term]

theorem rarity_eq (s : Scope) (term : String) : rarity s.size (s.frequency term) = real (s.idf term) := by
  have hne : (s.frequency term : ℝ) + 1 / 2 ≠ 0 := by positivity
  have hpos := s.idf_argument_pos term
  simp only [rarity, Exact.ofNat_eq, Exact.half_eq, Exact.real_add, Exact.real_div _ hne,
    Nat.cast_sub (s.frequency_le term)]
  rw [Nat.cast_one, Exact.log_real (by linarith)]
  rfl

section
variable (hs : s.members ≠ [])
include hs

theorem size_pos : (0 : ℝ) < s.size := Nat.cast_pos.2 (List.length_pos_iff.2 hs)

theorem meanLength_pos (name : String) : 0 < s.meanLength name := by
  have hsize := size_pos hs
  unfold meanLength
  dsimp only
  split
  · exact one_pos
  · have htotal := Nat.pos_of_ne_zero ‹_›
    positivity

theorem averageLength_eq (name : String) : s.averageLength name = real (s.meanLength name) := by
  have hsize := size_pos hs
  unfold averageLength meanLength
  dsimp only
  split
  · simp
  · rw [Exact.ofNat_eq, Exact.ofNat_eq, Exact.real_div _ hsize.ne']

variable (hk : 0 ≤ k1) (hb : 0 ≤ b) (hb' : b ≤ 1)
include hk hb hb'

theorem divisor_pos (name : String) (hcount : 0 < (counts.get? term).getD 0) :
    0 < s.divisor k1 b name counts term := by
  have hmean := meanLength_pos hs name
  have hcount : (0 : ℝ) < (counts.get? term).getD 0 := Nat.cast_pos.2 hcount
  have hlength : 0 ≤ b * counts.total / s.meanLength name := by positivity
  have hnorm : 0 ≤ k1 * (1 - b + b * counts.total / s.meanLength name) := mul_nonneg hk (by linarith)
  exact add_pos_of_pos_of_nonneg hcount hnorm

theorem share_pos (hweight : 0 < weight) (hcount : 0 < (counts.get? term).getD 0) :
    0 < s.share k1 b name weight counts term := by
  have hdivisor := divisor_pos hs hk hb hb' name hcount
  have hidf := s.idf_pos term
  have hcount : (0 : ℝ) < (counts.get? term).getD 0 := Nat.cast_pos.2 hcount
  have hweight : (0 : ℝ) < weight := Int.cast_pos.2 hweight
  unfold share
  positivity

theorem termScore_eq (hcount : 0 < (counts.get? term).getD 0) :
    s.termScore (real k1) (real b) name weight counts term = .ok (real (s.share k1 b name weight counts term)) := by
  have hdivisor := (divisor_pos hs hk hb hb' name hcount).ne'
  have hmean := (meanLength_pos hs name).ne'
  unfold termScore
  simp only [averageLength_eq hs, rarity_eq, Exact.ofNat_eq, Exact.ofInt_eq, Exact.real_mul, Exact.real_sub,
    Exact.real_add, Exact.real_div _ hmean, Nat.cast_one, ← divisor.eq_def, Exact.isZero_real,
    Exact.real_div _ hdivisor, decide_eq_true_eq, if_neg hdivisor]
  rfl

theorem shares_pos {f : String × Int} (hf : f ∈ fieldWeights) (d : Document) :
    ∀ r ∈ s.shares k1 b query (termsOf d) f, 0 < r := by
  intro r hr
  obtain ⟨term, hterm, rfl⟩ := List.mem_map.1 hr
  apply share_pos hs hk hb hb'
  · exact weight_pos hf
  · exact count_pos hf (List.mem_filter.1 hterm).2

theorem sum_shares_pos_iff {f : String × Int} (hf : f ∈ fieldWeights) (d : Document) :
    0 < (s.shares k1 b query (termsOf d) f).sum ↔ ∃ term ∈ query, term ∈ tokenize (fieldText d f.1) := by
  have hpos : ∀ r ∈ s.shares k1 b query (termsOf d) f, 0 < r := shares_pos hs hk hb hb' hf d
  have hcontains : ∀ term, ((termsOf d).field f.1).contains term = true ↔ term ∈ tokenize (fieldText d f.1) := by
    intro term
    rw [field_termsOf d (List.mem_map_of_mem hf), contains_countTerms]
  rw [sum_pos_iff fun r hr => (hpos r hr).le]
  constructor
  · rintro ⟨r, hr, -⟩
    obtain ⟨term, hterm, rfl⟩ := List.mem_map.1 hr
    obtain ⟨hquery, hterm⟩ := List.mem_filter.1 hterm
    exact ⟨term, hquery, (hcontains term).1 hterm⟩
  · rintro ⟨term, hquery, hterm⟩
    have hmem : s.share k1 b f.1 f.2 ((termsOf d).field f.1) term ∈ s.shares k1 b query (termsOf d) f :=
      List.mem_map_of_mem (List.mem_filter.2 ⟨hquery, (hcontains term).2 hterm⟩)
    exact ⟨_, hmem, hpos _ hmem⟩

theorem score_eq (query : List String) (d : Document) :
    s.score (real k1) (real b) query (termsOf d) = .ok (real (s.relevance k1 b query (termsOf d))) := by
  rw [score, Exact.ofNat_eq, Nat.cast_zero,
    foldlM_sum (h := fun f => (s.shares k1 b query (termsOf d) f).sum), zero_add]
  · rfl
  intro f hf r
  apply foldlM_sum
  intro term hterm r
  rw [termScore_eq hs hk hb hb' (count_pos hf (List.mem_filter.1 hterm).2)]
  rfl

/-- A document is relevant if a searched field of it has a term of the query. -/
theorem relevance_pos_iff (query : List String) (d : Document) : 0 < s.relevance k1 b query (termsOf d) ↔
    ∃ f ∈ fieldWeights, ∃ term ∈ query, term ∈ tokenize (fieldText d f.1) := by
  have hnonneg : ∀ r ∈ fieldWeights.map fun f => (s.shares k1 b query (termsOf d) f).sum, 0 ≤ r := by
    rw [List.forall_mem_map]
    intro f hf
    apply List.sum_nonneg
    exact fun r hr => (shares_pos hs hk hb hb' hf d r hr).le
  rw [relevance, sum_pos_iff hnonneg]
  constructor
  · rintro ⟨r, hr, hpos⟩
    obtain ⟨f, hf, rfl⟩ := List.mem_map.1 hr
    exact ⟨f, hf, (sum_shares_pos_iff hs hk hb hb' hf d).1 hpos⟩
  · rintro ⟨f, hf, hterm⟩
    exact ⟨_, List.mem_map_of_mem hf, (sum_shares_pos_iff hs hk hb hb' hf d).2 hterm⟩

end

end Scope

/-! ## Searches -/

noncomputable def exact (x : TextIndex Float) (k1 b : ℝ) : TextIndex Exact where
  k1 := real k1
  b := real b
  documents := x.documents
  terms := x.terms

def Shares (query : String) (d : Document) : Prop :=
  ∃ name ∈ ["symbol_name", "signature", "code"], ∃ token ∈ tokenize query, token ∈ tokenize (fieldText d name)

instance (query : String) : DecidablePred (Shares query) := fun _ => inferInstanceAs (Decidable (∃ name ∈ _, _))

def hitOf (e : ℝ × Key × Document) : TextHit Exact where
  id := e.2.1
  score := real e.1
  fields := e.2.2

variable {x : TextIndex Float} {k1 b : ℝ} {query : String} {workspace : Value} {filters : Filters}

def matching (x : TextIndex Float) (query : String) (filters : Filters) (workspace : Value) :
    List (Key × Document) :=
  (x.passing filters workspace).filter fun e => Shares query e.2

noncomputable def scored (x : TextIndex Float) (k1 b : ℝ) (query : String) (filters : Filters) (workspace : Value)
    (e : Key × Document) : ℝ × Key × Document :=
  ((Scope.of (x.passing filters workspace)).relevance k1 b (tokenize query).eraseDups (termsOf e.2), e)

noncomputable def ranking (x : TextIndex Float) (k1 b : ℝ) (query : String) (filters : Filters)
    (workspace : Value) : List (ℝ × Key × Document) :=
  ((x.matching query filters workspace).map (x.scored k1 b query filters workspace)).mergeSort fun p q =>
    ranksBefore ((hitOf p).score, (hitOf p).id) ((hitOf q).score, (hitOf q).id)

theorem ranking_nil (h : x.matching query filters workspace = []) :
    x.ranking k1 b query filters workspace = [] := by
  rw [ranking, h, List.map_nil, List.mergeSort_nil]

section
variable (hk : 0 ≤ k1) (hb : 0 ≤ b) (hb' : b ≤ 1)
include hk hb hb'

theorem positive_scored (query : String) (hpassing : x.passing filters workspace ≠ []) (e : Key × Document) :
    isPositive (hitOf (x.scored k1 b query filters workspace e)).score = decide (Shares query e.2) := by
  have hmembers : (Scope.of (x.passing filters workspace)).members ≠ [] := by simpa [Scope.of] using hpassing
  rw [hitOf, Exact.isPositive_real, decide_eq_decide, scored, Scope.relevance_pos_iff hmembers hk hb hb']
  simp [Shares, fieldWeights]

theorem ranked_positive (hpassing : x.passing filters workspace ≠ [])
    (hids : ∀ e ∈ x.matching query filters workspace, ∀ e' ∈ x.matching query filters workspace,
      e.1.comparable e'.1 = true) :
    ranked (fun h : TextHit Exact => (h.score, h.id)) (((x.passing filters workspace).map fun e =>
      hitOf (x.scored k1 b query filters workspace e)).filter fun h => isPositive h.score) =
        .ok ((x.ranking k1 b query filters workspace).map hitOf) := by
  have hpositive : ((x.passing filters workspace).map fun e =>
    hitOf (x.scored k1 b query filters workspace e)).filter
      (fun h => isPositive h.score) =
        ((x.matching query filters workspace).map (x.scored k1 b query filters workspace)).map hitOf := by
    rw [List.filter_map, List.map_map, matching]
    congr 1
    exact List.filter_congr fun e _ => positive_scored hk hb hb' query hpassing e
  have hcomparable : ∀ h ∈
    ((x.matching query filters workspace).map (x.scored k1 b query filters workspace)).map hitOf,
      ∀ h' ∈ ((x.matching query filters workspace).map (x.scored k1 b query filters workspace)).map hitOf,
        rankable (h.score, h.id) (h'.score, h'.id) = true := by
    simp only [List.forall_mem_map]
    exact fun e he e' he' => Bool.or_eq_true_iff.2 (.inr (hids e he e' he'))
  rw [hpositive, ranked, sortChecked_ok hcomparable, ranking]
  exact congrArg Except.ok (List.map_mergeSort (f := hitOf) fun _ _ _ _ => rfl).symm

theorem search_exact_eq (hx : x.Counted) (hf : filters.Decides workspace x.documents)
    (hids : ∀ e ∈ x.matching query filters workspace, ∀ e' ∈ x.matching query filters workspace,
      e.1.comparable e'.1 = true)
    {n : Int} (hn : 0 < n) : (x.exact k1 b).search query workspace filters (.int n) =
      .ok (((x.ranking k1 b query filters workspace).take n.toNat).map hitOf) := by
  have hscope : (x.exact k1 b).scope filters workspace = .ok (.of (x.passing filters workspace)) := scope_eq hx hf
  unfold search
  dsimp only
  by_cases hterms : (tokenize query).eraseDups.isEmpty = true
  · have hnone : x.matching query filters workspace = [] := by
      rw [matching, List.filter_eq_nil_iff]
      rw [List.isEmpty_iff] at hterms
      have hquery : ∀ t, t ∉ tokenize query := fun t ht => by simpa [hterms] using List.mem_eraseDups.2 ht
      simp [Shares, hquery]
    rw [if_pos hterms, ranking_nil hnone, List.take_nil]
    rfl
  rw [if_neg hterms, isAbove_int, decide_eq_true hn, hscope]
  by_cases hpassing : x.passing filters workspace = []
  · have hnone : x.matching query filters workspace = [] := by rw [matching, hpassing, List.filter_nil]
    rw [hpassing, ranking_nil hnone, List.take_nil]
    rfl
  have hmembers : (Scope.of (x.passing filters workspace)).members ≠ [] := by simpa [Scope.of] using hpassing
  have hsome : ¬ (Scope.of (x.passing filters workspace)).members.isEmpty = true := by simpa using hmembers
  refine (if_neg hsome).trans (bind_eq_ok.2 ⟨(x.passing filters workspace).map fun e =>
    hitOf (x.scored k1 b query filters workspace e), ?_,
    bind_eq_ok.2 ⟨_, ranked_positive hk hb hb' hpassing hids, ?_⟩⟩)
  · rw [Scope.of, List.mapM_map]
    apply mapM_ok_map
    intro e he
    have hfields : (x.exact k1 b).documents.get? e.1 = some e.2 := OrderedMap.get?_of_mem (mem_passing.1 he).1
    rw [Function.comp_apply, hfields]
    exact congrArg (· >>= _) (Scope.score_eq hmembers hk hb hb' (tokenize query).eraseDups e.2)
  · rw [List.map_take]
    rfl

end

theorem mem_of_mem_ranking {e : ℝ × Key × Document} (h : e ∈ x.ranking k1 b query filters workspace) :
    e.2 ∈ x.matching query filters workspace ∧ e = x.scored k1 b query filters workspace e.2 := by
  obtain ⟨e, he, rfl⟩ := List.mem_map.1 (List.mem_mergeSort.1 h)
  exact ⟨he, rfl⟩

theorem map_snd_ranking (x : TextIndex Float) (k1 b : ℝ) (query : String) (filters : Filters) (workspace : Value) :
    ((x.ranking k1 b query filters workspace).map Prod.snd).Perm (x.matching query filters workspace) := by
  have hperm := (List.mergeSort_perm
    ((x.matching query filters workspace).map (x.scored k1 b query filters workspace))
    fun p q => ranksBefore ((hitOf p).score, (hitOf p).id) ((hitOf q).score, (hitOf q).id)).map Prod.snd
  rw [List.map_map] at hperm
  exact hperm.trans (by simp [Function.comp_def, scored])

theorem pairwise_ranking (hids : ∀ e ∈ x.matching query filters workspace, e.1.Defined) :
    (x.ranking k1 b query filters workspace).Pairwise fun e e' => e'.1 < e.1 ∨ e.1 = e'.1 ∧
    e.2.1.le e'.2.1 = true := by
  have horders := Exact.ranksBefore_orders.comap fun p : ℝ × Key × Document => ((hitOf p).score, (hitOf p).id)
  refine (horders.pairwise_mergeSort fun e he => ⟨⟨e.1, rfl⟩, ?_⟩).imp Exact.ranksBefore_real.1
  obtain ⟨d, hd, rfl⟩ := List.mem_map.1 he
  exact hids d hd

theorem distinct_ranking (x : TextIndex Float) (k1 b : ℝ) (query : String) (filters : Filters) (workspace : Value) :
    (x.ranking k1 b query filters workspace).Pairwise fun e e' => (e.2.1 == e'.2.1) = false := by
  have hdistinct : (x.matching query filters workspace).Pairwise fun a b => (a.1 == b.1) = false :=
    (passing_distinct x filters workspace).filter _
  refine List.pairwise_map.1 (((map_snd_ranking x k1 b query filters workspace).pairwise_iff ?_).2 hdistinct)
  intro a b hab
  rwa [BEq.comm]

/-- Whether an index comes from an empty one by additions, deletions and loads. -/
def Reached (x : TextIndex Float) : Prop := ∃ k b operations, x = after k b operations

/-- In real numbers a search meets no division by zero, no logarithm of what is not positive and no
missing key: documents have their counts, a scope with members has its mean lengths, and its members
have their scores. If the ids are of one kind, the hits are the documents in scope that share a
token with the query, each once and with a positive score, by descending score and ascending id, as
many of them as the limit lets through. -/
theorem search_of_shares (x : TextIndex Float) (hx : x.Reached) (k1 b : ℝ) (hk : 0 ≤ k1) (hb : 0 ≤ b) (hb' : b ≤ 1)
    (query : String) (workspace : Value) (filters : Filters) (hfilters : filters.Decides workspace x.documents)
    (hids : ∀ e ∈ x.matching query filters workspace, e.1.Defined ∧
      ∀ e' ∈ x.matching query filters workspace, e.1.comparable e'.1 = true) :
    (∀ e ∈ x.documents.entries, ∃ t,
      x.terms.get? e.1 = some t ∧ t.map Prod.fst = ["symbol_name", "signature", "code"]) ∧
    ∃ s, (x.exact k1 b).scope filters workspace = .ok s ∧
      (s.members ≠ [] → ∀ name, ∃ r, r ≠ 0 ∧ s.averageLength name = real r) ∧
      (∀ m ∈ s.members, ∃ r, s.score (real k1) (real b) (tokenize query).eraseDups m.2 = .ok (real r)) ∧
      ∃ ranking : List (ℝ × Key × Document),
        (∀ n : Int, 0 < n → (x.exact k1 b).search query workspace filters (.int n) = .ok
          ((ranking.take n.toNat).map hitOf)) ∧
        (ranking.map Prod.snd).Perm (x.matching query filters workspace) ∧
        (∀ e ∈ ranking, 0 < e.1 ∧
          s.score (real k1) (real b) (tokenize query).eraseDups (termsOf e.2.2) = .ok (real e.1)) ∧
        ranking.Pairwise fun e e' => (e.2.1 == e'.2.1) = false ∧
        (e'.1 < e.1 ∨ e.1 = e'.1 ∧ e.2.1.le e'.2.1 = true) := by
  obtain ⟨k, b', operations, rfl⟩ := hx
  have hcounted := counted_after k b' operations
  generalize after k b' operations = x at *
  refine ⟨fun e he => ⟨termsOf e.2, ?_, rfl⟩, .of (x.passing filters workspace), scope_eq hcounted hfilters, ?_, ?_,
    x.ranking k1 b query filters workspace, ?_, map_snd_ranking .., ?_, ?_⟩
  · rw [hcounted e.1, OrderedMap.get?_of_mem he]
    rfl
  · exact fun hs name => ⟨_, (Scope.meanLength_pos hs name).ne', Scope.averageLength_eq hs name⟩
  · intro m hm
    obtain ⟨e, -, rfl⟩ := List.mem_map.1 hm
    exact ⟨_, Scope.score_eq (List.ne_nil_of_mem hm) hk hb hb' _ e.2⟩
  · exact fun n hn => search_exact_eq hk hb hb' hcounted hfilters (fun e he => (hids e he).2) hn
  · intro e he
    obtain ⟨hmatching, hscored⟩ := mem_of_mem_ranking he
    obtain ⟨hpassing, hshares⟩ := List.mem_filter.1 hmatching
    have hmembers : (Scope.of (x.passing filters workspace)).members ≠ [] :=
      List.ne_nil_of_mem (List.mem_map_of_mem hpassing)
    have hpositive := positive_scored hk hb hb' query (List.ne_nil_of_mem hpassing) e.2
    rw [← hscored, hshares, hitOf, Exact.isPositive_real, decide_eq_true_eq] at hpositive
    refine ⟨hpositive, (Scope.score_eq hmembers hk hb hb' _ e.2.2).trans ?_⟩
    rw [hscored]
    rfl
  · exact (distinct_ranking ..).and (pairwise_ranking fun e he => (hids e he).1)

theorem search_f_of_sharing :
    ∃ r : ℝ, 0 < r ∧ ((after 1.2 0.75 sharing).exact 1.2 0.75).search "f" "a" {} (.int 10) =
    .ok [{ id := .str "1", score := real r, fields := functionIn "a" "1" "def f" }] := by
  have hpassing : (after 1.2 0.75 sharing).passing {} "a" = [(.str "1", functionIn "a" "1" "def f"),
      (.str "3", functionIn "a" "3" "def g")] := rfl
  have hshares : Shares "f" (functionIn "a" "1" "def f") ∧ ¬ Shares "f" (functionIn "a" "3" "def g") := by
    decide +kernel
  have hmatching : (after 1.2 0.75 sharing).matching "f" {} "a" = [(.str "1", functionIn "a" "1" "def f")] := by
    simp [matching, hpassing, hshares]
  obtain ⟨-, s, -, -, -, ranking, hsearch, hperm, hpositive, -⟩ :=
    search_of_shares (after 1.2 0.75 sharing) ⟨_, _, _, rfl⟩
    1.2 0.75 (by norm_num) (by norm_num) (by norm_num) "f" "a" {} (Filters.decides_of_lists rfl rfl _ _) (by
      rw [hmatching]
      decide)
  rw [hmatching] at hperm
  obtain ⟨⟨r, e⟩, rfl⟩ := List.length_eq_one_iff.1 (by simpa using hperm.length_eq)
  obtain rfl : e = (.str "1", functionIn "a" "1" "def f") := List.singleton_perm_singleton.1 hperm
  exact ⟨r, (hpositive _ List.mem_cons_self).1, hsearch 10 (by decide)⟩

end TextIndex

end SourceAtlas.Search
