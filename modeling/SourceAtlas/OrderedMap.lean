/-!
# Maps in order of insertion

A key keeps the place and the form of its first insertion until it is erased.
No two keys of a map are equal, by construction; keys may have several forms
that are equal.
-/

namespace SourceAtlas

structure OrderedMap (κ α : Type) [BEq κ] where
  entries : List (κ × α)
  distinct : entries.Pairwise fun a b => (a.1 == b.1) = false

namespace OrderedMap

variable {κ α β : Type} [BEq κ]

def empty : OrderedMap κ α := ⟨[], .nil⟩

instance : Inhabited (OrderedMap κ α) := ⟨empty⟩

def keys (m : OrderedMap κ α) : List κ := m.entries.map Prod.fst

def values (m : OrderedMap κ α) : List α := m.entries.map Prod.snd

def size (m : OrderedMap κ α) : Nat := m.entries.length

/-- Keeps the entries that satisfy `p`. -/
def filter (m : OrderedMap κ α) (p : κ → α → Bool) : OrderedMap κ α :=
  ⟨m.entries.filter fun e => p e.1 e.2, m.distinct.filter _⟩

def get? (m : OrderedMap κ α) (k : κ) : Option α := (m.entries.find? (·.1 == k)).map Prod.snd

def contains (m : OrderedMap κ α) (k : κ) : Bool := m.entries.any (·.1 == k)

def erase (m : OrderedMap κ α) (k : κ) : OrderedMap κ α := m.filter fun j _ => j != k

/-- Replaces the value of a key that is present. -/
def replace (entries : List (κ × α)) (k : κ) (v : α) : List (κ × α) :=
  entries.map fun e => (e.1, if e.1 == k then v else e.2)

theorem keys_replace (entries : List (κ × α)) (k : κ) (v : α) :
    (replace entries k v).map Prod.fst = entries.map Prod.fst := by
  simp [replace, List.map_map, Function.comp_def]

def insert (m : OrderedMap κ α) (k : κ) (v : α) : OrderedMap κ α :=
  if h : m.entries.any (·.1 == k) then
    ⟨replace m.entries k v, List.pairwise_map.2 m.distinct⟩
  else
    ⟨m.entries ++ [(k, v)], by
      refine List.pairwise_append.2 ⟨m.distinct, List.pairwise_singleton _ _, ?_⟩
      intro a ha b hb
      rw [List.mem_singleton.1 hb]
      exact Bool.eq_false_iff.2 (List.any_eq_false.1 (Bool.not_eq_true _ ▸ h) a ha)⟩

/-- Changes the value of a key, which starts as `start` when the key is new. -/
def update (m : OrderedMap κ α) (k : κ) (start : α) (f : α → α) : OrderedMap κ α :=
  m.insert k (f ((m.get? k).getD start))

def ofList (entries : List (κ × α)) : OrderedMap κ α :=
  entries.foldl (fun m e => m.insert e.1 e.2) empty

end OrderedMap

end SourceAtlas
