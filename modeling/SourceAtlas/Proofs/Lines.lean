import Mathlib.Data.List.Induction
import SourceAtlas.Dependency

/-!
# Symbols by lines

The index asks of a symbol whether it covers the first line of a range, and
whether it reaches the last one. For a range of at least one line it finds the
last symbol whose lines contain the range, as a scan of all symbols does.
-/

namespace SourceAtlas

theorem findSome?_congr {α β : Type} {f g : α → Option β} {as : List α} (h : ∀ a ∈ as, f a = g a) :
    as.findSome? f = as.findSome? g := by
  induction as with
  | nil => rfl
  | cons a as ih =>
    obtain ⟨ha, has⟩ := List.forall_mem_cons.1 h
    rw [List.findSome?_cons, List.findSome?_cons, ha, ih has]

theorem findSome?_of_sublist {α β : Type} {f : α → Option β} {as bs : List α}
    (h : as.Sublist bs) (hnodup : bs.Nodup)
    (hf : ∀ b ∈ bs, b ∉ as → f b = none) : bs.findSome? f = as.findSome? f := by
  induction h with
  | slnil => rfl
  | @cons as bs b hsub ih =>
    obtain ⟨hb, hbs⟩ := List.nodup_cons.1 hnodup
    obtain ⟨hfb, hfbs⟩ := List.forall_mem_cons.1 hf
    rw [List.findSome?_cons_of_isNone (by simp [hfb fun hmem => hb (hsub.subset hmem)])]
    exact ih hbs hfbs
  | @cons_cons as bs a hsub ih =>
    obtain ⟨ha, hbs⟩ := List.nodup_cons.1 hnodup
    rw [List.findSome?_cons, List.findSome?_cons, ih hbs fun b hb hmem => ?_]
    refine hf b (List.mem_cons_of_mem a hb) fun h => ?_
    rcases List.mem_cons.1 h with rfl | h
    · exact ha hb
    · exact hmem h

namespace Dependency

namespace ScopeIndex

variable {x : ScopeIndex}

theorem getD_cover (m : Std.TreeMap Nat (List Nat)) (position first count line : Nat) :
    (cover m position first count).getD line [] =
      if first ≤ line ∧ line < first + count then position :: m.getD line [] else m.getD line [] := by
  induction count generalizing m first with
  | zero =>
    rw [if_neg (by omega)]
    rfl
  | succ count ih =>
    have hstep : cover m position first (count + 1) =
        cover (m.insert first (position :: m.getD first [])) position (first + 1) count := rfl
    rw [hstep, ih, Std.TreeMap.getD_insert]
    by_cases hline : line = first
    · subst hline
      rw [if_neg (by omega), if_pos (by simp), if_pos (by omega)]
    · have hother : ¬ compare first line = .eq := by simpa using fun h => hline h.symm
      rw [if_neg hother]
      exact if_congr (by omega) rfl rfl

/-- The positions of the symbols that cover a line, the last one first. -/
def bucket (x : ScopeIndex) (line : Nat) : List Nat := x.byLine.getD line []

theorem bucket_add (name : String) (l : Location) (line : Nat) :
    (x.add name l).bucket line =
      if l.first ≤ line ∧ line ≤ l.last then x.entries.size :: x.bucket line else x.bucket line := by
  have hlines : line < l.first + l.lineCount ↔ line ≤ l.last := by
    have := l.first_le_last
    rw [Location.lineCount]
    omega
  rw [bucket, bucket, add, getD_cover]
  exact if_congr (and_congr_right' hlines) rfl rfl

def Bounded (x : ScopeIndex) : Prop := ∀ line, ∀ position ∈ x.bucket line, position < x.entries.size

theorem Bounded.add (h : x.Bounded) (name : String) (l : Location) : (x.add name l).Bounded := by
  intro line position hposition
  have hsize : (x.add name l).entries.size = x.entries.size + 1 := Array.size_push ..
  rw [bucket_add] at hposition
  rw [hsize]
  split at hposition
  · rcases List.mem_cons.1 hposition with rfl | hposition
    · omega
    · exact Nat.lt_succ_of_lt (h line position hposition)
  · exact Nat.lt_succ_of_lt (h line position hposition)

def reaching? (x : ScopeIndex) (last : Int) (position : Nat) : Option String := do
  let (name, l) ← x.entries[position]?
  if last ≤ l.last then some name else none

theorem innermost_eq {first : Nat} {last : Int} :
    x.innermost first last = (x.bucket first).findSome? (x.reaching? last) := by
  rw [innermost, if_neg (by omega)]
  rfl

theorem innermost_of_neg {first last : Int} (h : first < 0) : x.innermost first last = none := if_pos h

theorem reaching?_add_last {name : String} {l : Location} {last : Int} :
    (x.add name l).reaching? last x.entries.size = if last ≤ l.last then some name else none := by
  simp [reaching?, ScopeIndex.add]

theorem reaching?_add_of_lt {name : String} {l : Location} {last : Int} {position : Nat}
    (h : position < x.entries.size) :
    (x.add name l).reaching? last position = x.reaching? last position := by
  rw [reaching?, reaching?, ScopeIndex.add, Array.getElem?_push_lt h, Array.getElem?_eq_getElem h]

/-- A symbol that is added is found for each range that its lines contain, and hides nothing else. -/
theorem innermost_add (h : x.Bounded) (name : String) (l : Location) (first last : Int) :
    (x.add name l).innermost first last =
      if l.contains first (max first last) then some name else x.innermost first last := by
  have hcontains : l.contains first (max first last) = true ↔ l.first ≤ first ∧ first ≤ l.last ∧ last ≤ l.last := by
    rw [Location.contains_iff]
    omega
  rcases Int.lt_or_le first 0 with hneg | hnonneg
  · have hfirst := l.one_le_first
    rw [innermost_of_neg hneg, innermost_of_neg hneg, if_neg (by rw [hcontains]; omega)]
  obtain ⟨line, rfl⟩ := Int.eq_ofNat_of_zero_le hnonneg
  have hrest : (x.bucket line).findSome? ((x.add name l).reaching? last) =
      (x.bucket line).findSome? (x.reaching? last) :=
    findSome?_congr fun position hposition => reaching?_add_of_lt (h line position hposition)
  rw [innermost_eq, innermost_eq, bucket_add]
  by_cases hline : l.first ≤ line ∧ line ≤ l.last
  · rw [if_pos hline, List.findSome?_cons, reaching?_add_last, hrest]
    by_cases hlast : last ≤ l.last
    · rw [if_pos hlast, if_pos (hcontains.2 (by omega))]
    · rw [if_neg hlast, if_neg (by rw [hcontains]; omega)]
  · rw [if_neg hline, if_neg (by rw [hcontains]; omega), hrest]

theorem ofSymbols_snoc (ss : List (String × Location)) (s : String × Location) :
    ofSymbols (ss ++ [s]) = (ofSymbols ss).add s.1 s.2 := by
  rw [ofSymbols, List.foldl_append]
  rfl

theorem bounded_ofSymbols (ss : List (String × Location)) : (ofSymbols ss).Bounded := by
  induction ss using List.reverseRecOn with
  | nil =>
    intro line position hposition
    cases hposition
  | append_singleton ss s ih =>
    rw [ofSymbols_snoc]
    exact ih.add s.1 s.2

theorem innermost_ofSymbols (ss : List (String × Location)) (first last : Int) :
    (ofSymbols ss).innermost first last =
      (ss.findRev? fun s => s.2.contains first (max first last)).map Prod.fst := by
  induction ss using List.reverseRecOn with
  | nil =>
    rw [innermost]
    split <;> rfl
  | append_singleton ss s ih =>
    rw [ofSymbols_snoc, innermost_add (bounded_ofSymbols ss), ih, List.findRev?_eq_find?_reverse,
      List.findRev?_eq_find?_reverse, List.reverse_append, List.reverse_singleton, List.singleton_append,
      List.find?_cons]
    cases s.2.contains first (max first last) <;> rfl

end ScopeIndex

/-! ## Indexes of symbols -/

abbrev scopesOf (symbols : List Symbol) : ScopeIndex :=
  .ofSymbols (symbols.map fun s => (s.qualifiedName, s.location))

def lastAround? (symbols : List Symbol) (first last : Int) : Option Symbol :=
  symbols.findRev? fun s => s.location.contains first last

theorem innermost_scopesOf (symbols : List Symbol) (first last : Int) :
    (scopesOf symbols).innermost first last = (lastAround? symbols first (max first last)).map
    (·.qualifiedName) := by
  rw [ScopeIndex.innermost_ofSymbols, lastAround?, List.findRev?_eq_find?_reverse, List.findRev?_eq_find?_reverse,
    ← List.map_reverse, List.find?_map, Option.map_map]
  rfl

theorem lastAround?_eq_none_iff {symbols : List Symbol} {first last : Int} :
    lastAround? symbols first last = none ↔ ∀ s ∈ symbols, s.location.contains first last = false := by
  rw [lastAround?, List.findRev?_eq_find?_reverse, List.find?_eq_none]
  simp

/-- The index finds what a scan of the symbols from the last one on finds. -/
theorem innermost_eq_scan (symbols : List Symbol) (first last : Int) (h : first ≤ last) :
    (scopesOf symbols).innermost first last =
        (symbols.reverse.find? fun s => s.location.contains first last).map (·.qualifiedName) ∧
      ((scopesOf symbols).innermost first last = none ↔ ∀ s ∈ symbols, s.location.contains first last = false) := by
  rw [innermost_scopesOf, Int.max_eq_right h]
  refine ⟨?_, ?_⟩
  · rw [lastAround?, List.findRev?_eq_find?_reverse]
  · rw [Option.map_eq_none_iff, lastAround?_eq_none_iff]

end Dependency

/-! A class with a method, a function that ends with the class, and one that overlaps both. -/

namespace Sample

def lined (qualifiedName : String) (first last : Nat) (h : 1 ≤ first := by decide)
    (h' : first ≤ last := by decide) :
    Symbol :=
  { name := qualifiedName, qualifiedName, kind := .function, location := ⟨first, last, h, h'⟩, code := "" }

def overlapping : List Symbol := [lined "A" 1 10, lined "A.f" 2 4, lined "g" 3 12, lined "h" 5 10]

end Sample

namespace Dependency

theorem innermost_eq_scan_of_overlapping :
    (scopesOf Sample.overlapping).innermost 3 4 = some "g" ∧
    (scopesOf Sample.overlapping).innermost 2 9 = some "A" ∧
      (scopesOf Sample.overlapping).innermost 5 13 = none := by
  obtain ⟨hg, -⟩ := innermost_eq_scan Sample.overlapping 3 4 (by decide)
  obtain ⟨hA, -⟩ := innermost_eq_scan Sample.overlapping 2 9 (by decide)
  obtain ⟨-, hnone⟩ := innermost_eq_scan Sample.overlapping 5 13 (by decide)
  exact ⟨hg.trans (by decide), hA.trans (by decide), hnone.2 (by decide)⟩

end Dependency

end SourceAtlas
