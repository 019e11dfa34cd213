import SourceAtlas.Proofs.Outlines
import SourceAtlas.Proofs.Overwriting

/-!
# Names of sections

The name of a section is joined with hyphens, of which slugs may have some
themselves. What a name was joined from can still be read off it: the first
letter tells the type, a level ends at the first hyphen, and a position starts
after the last one. So only headings with one level and one slug share a name.
-/

namespace SourceAtlas

open Json (Key)

namespace Markdown

/-! ## Digits -/

theorem hyphen_notMem_digits (n : Nat) : '-' ∉ Nat.toDigits 10 n := by
  intro h
  have := Nat.isDigit_of_mem_toDigits (by decide) (by decide) h
  contradiction

theorem digits_injective {m n : Nat} (h : Nat.toDigits 10 m = Nat.toDigits 10 n) : m = n := by
  have h := congrArg (Nat.ofDigitChars 10 · 0) h
  simpa using h

/-- Digits start with a digit. -/
theorem digits_ne_cons {c : Char} {n : Nat} {xs ys : List Char} (hc : c.isDigit = false) :
    Nat.toDigits 10 n ++ xs ≠ c :: ys := by
  cases hn : Nat.toDigits 10 n with
  | nil => exact absurd hn Nat.toDigits_ne_nil
  | cons d ds =>
    intro h
    have hd : d.isDigit = true :=
      Nat.isDigit_of_mem_toDigits (b := 10) (n := n) (by decide) (by decide) (by simp [hn])
    rw [(List.cons.inj h).1, hc] at hd
    cases hd

/-! ## Parts of names -/

theorem SectionType.eq_of_append {t u : SectionType} {xs ys : List Char}
    (h : t.name.toList ++ xs = u.name.toList ++ ys) :
    t = u ∧ xs = ys := by
  cases t <;> cases u <;> simp_all [SectionType.name]

inductive NameParts where
  | titled (level : Nat) (slug : String)
  | placed (type : SectionType) (slug : Option String) (position : Nat)

namespace NameParts

def slugPart : Option String → List Char
  | some slug => '-' :: slug.toList
  | none => []

def chars : NameParts → List Char
  | titled level slug => 'h' :: (Nat.toDigits 10 level ++ '-' :: slug.toList)
  | placed type slug position => type.name.toList ++ slugPart slug ++ '-' :: Nat.toDigits 10 position

theorem slugPart_injective {s t : Option String} (h : slugPart s = slugPart t) : s = t := by
  cases s <;> cases t <;> simp_all [slugPart, String.toList_inj]

theorem titled_ne_placed {level : Nat} {title : String} {type : SectionType}
    {slug : Option String} {position : Nat} :
    (titled level title).chars ≠ (placed type slug position).chars := by
  intro h
  simp only [chars] at h
  cases type with
  | heading =>
    simp only [SectionType.name, String.reduceToList, List.cons_append, List.cons.injEq, true_and] at h
    exact digits_ne_cons (by decide) h
  | _ => simp [SectionType.name] at h

theorem chars_injective {p q : NameParts} (h : p.chars = q.chars) : p = q := by
  cases p with
  | titled level slug =>
    cases q with
    | placed => exact absurd h titled_ne_placed
    | titled level' slug' =>
      obtain ⟨-, h⟩ := List.cons.inj h
      obtain ⟨hlevel, hslug⟩ := eq_of_append_cons_of_notMem (hyphen_notMem_digits _) (hyphen_notMem_digits _) h
      rw [digits_injective hlevel, String.toList_inj.1 hslug]
  | placed type slug position =>
    cases q with
    | titled => exact absurd h.symm titled_ne_placed
    | placed type' slug' position' =>
      obtain ⟨hfront, hposition⟩ := eq_of_append_cons_last (hyphen_notMem_digits _) (hyphen_notMem_digits _) h
      obtain ⟨rfl, hslug⟩ := SectionType.eq_of_append hfront
      rw [digits_injective hposition, slugPart_injective hslug]

end NameParts

/-! ## Names -/

namespace Section

variable {s s' : Section} {i j : Nat}

/-- Whether two sections are headings with a title, of one level and with one slug. -/
def Repeats (s s' : Section) : Prop :=
  s.type = .heading ∧ s'.type = .heading ∧ s.level = s'.level ∧
    ∃ title title', s.title = some title ∧ s'.title = some title' ∧ title ≠ "" ∧ title' ≠ "" ∧
    slug title = slug title'

def Leveled (s : Section) : Prop := s.type = .heading → ∃ n : Nat, s.level = some (n : Int)

def nameParts (s : Section) (position : Nat) : NameParts :=
  match s.title with
  | none | some "" => .placed s.type none position
  | some title =>
    if s.type = .heading then .titled (s.level.getD 0).toNat (slug title) else .placed s.type
      (some (slug title)) position

theorem chars_nameParts (h : s.Leveled) : (s.nameParts i).chars = (s.symbolName i).toList := by
  cases htitle : s.title with
  | none => simp [nameParts, symbolName, htitle, NameParts.chars, NameParts.slugPart, toString, Int.repr]
  | some title =>
    by_cases hempty : title = ""
    · subst hempty
      simp [nameParts, symbolName, htitle, NameParts.chars, NameParts.slugPart, toString, Int.repr]
    · by_cases htype : s.type = .heading
      · obtain ⟨n, hlevel⟩ := h htype
        simp [nameParts, symbolName, htitle, htype, hlevel, NameParts.chars, toString, Int.repr]
      · simp [nameParts, symbolName, htitle, htype, NameParts.chars, NameParts.slugPart, toString, Int.repr]

theorem nameParts_cases (s : Section) (position : Nat) :
    (∃ title, s.title = some title ∧ title ≠ "" ∧ s.type = .heading ∧
      s.nameParts position = .titled (s.level.getD 0).toNat (slug title)) ∨
    ∃ slug, s.nameParts position = .placed s.type slug position := by
  unfold nameParts
  split
  · exact .inr ⟨none, rfl⟩
  · exact .inr ⟨none, rfl⟩
  · rename_i title hempty htitle
    by_cases htype : s.type = .heading
    · exact .inl ⟨title, htitle, hempty, htype, if_pos htype⟩
    · exact .inr ⟨some (slug title), if_neg htype⟩

/-- At different positions only headings have the same parts. -/
theorem nameParts_eq_iff (hne : i ≠ j) (h : s.Leveled) (h' : s'.Leveled) :
    s.nameParts i = s'.nameParts j ↔ s.Repeats s' := by
  constructor
  · intro heq
    rcases s.nameParts_cases i with ⟨title, htitle, hempty, htype, hparts⟩ | ⟨front, hparts⟩
    · rcases s'.nameParts_cases j with ⟨title', htitle', hempty', htype', hparts'⟩ | ⟨front', hparts'⟩
      · obtain ⟨n, hlevel⟩ := h htype
        obtain ⟨n', hlevel'⟩ := h' htype'
        rw [hparts, hparts', hlevel, hlevel', NameParts.titled.injEq] at heq
        obtain ⟨hsame, hslug⟩ := heq
        obtain rfl : n = n' := hsame
        exact ⟨htype, htype', hlevel.trans hlevel'.symm, title, title', htitle, htitle', hempty, hempty', hslug⟩
      · rw [hparts, hparts'] at heq
        cases heq
    · rcases s'.nameParts_cases j with ⟨title', htitle', hempty', htype', hparts'⟩ | ⟨front', hparts'⟩
      · rw [hparts, hparts'] at heq
        cases heq
      · rw [hparts, hparts', NameParts.placed.injEq] at heq
        exact absurd heq.2.2 hne
  · rintro ⟨htype, htype', hlevel, title, title', htitle, htitle', hempty, hempty', hslug⟩
    simp [nameParts, htitle, htitle', htype, htype', hlevel, hslug]

theorem symbolName_eq_iff (hne : i ≠ j) (h : s.Leveled) (h' : s'.Leveled) :
    s.symbolName i = s'.symbolName j ↔ s.Repeats s' := by
  rw [← nameParts_eq_iff hne h h', ← String.toList_inj, ← chars_nameParts h, ← chars_nameParts h']
  exact ⟨NameParts.chars_injective, congrArg NameParts.chars⟩

end Section

/-! ## Sections of a document -/

namespace Reader

variable {r : Reader} {t : Syntax.Tree} {s s' : Section} {i j : Nat}

theorem exists_headingLevel (ts : List Syntax.Tree) : ∃ n : Nat, headingLevel ts = n := by
  induction ts with
  | nil => exact ⟨1, rfl⟩
  | cons t ts ih =>
    unfold headingLevel
    dsimp only
    split_ifs
    · exact ⟨_, rfl⟩
    · exact ⟨1, rfl⟩
    · exact ⟨2, rfl⟩
    · exact ih

theorem leveled (hs : s ∈ r.sections t) : s.Leveled := by
  intro htype
  obtain ⟨c, -, hc⟩ := exists_of_mem_right (r.sections_shows t) hs
  obtain ⟨n, hn⟩ := exists_headingLevel c.tree.children
  exact ⟨n, by rw [hc.level, if_pos htype, hn]⟩

theorem symbolName_eq_iff (hne : i ≠ j) (hs : (r.sections t)[i]? = some s) (hs' : (r.sections t)[j]? = some s') :
    s.symbolName i = s'.symbolName j ↔ s.Repeats s' :=
  Section.symbolName_eq_iff hne (leveled (List.mem_of_getElem? hs)) (leveled (List.mem_of_getElem? hs'))

section

variable {o : Atlas.Origin} {language : Language} {hash : String} {now : Int} {cs : List Chunk} {c d : Chunk}
  (h : r.chunks t (o.provenance language hash) now = .ok cs)

include h

theorem chunkName_eq (i : Nat) :
    cs[i]?.map (·.payload.symbolName) = (r.sections t)[i]?.map fun s => s.symbolName i := by
  rw [← List.getElem?_map, (Atlas.sections_ok h).1]
  cases hs : (r.sections t)[i]? <;> simp [hs]

theorem name_of_chunk (hs : (r.sections t)[i]? = some s) (hc : cs[i]? = some c) :
    c.payload.symbolName = s.symbolName i := by
  have hname := chunkName_eq h i
  rw [hs, hc] at hname
  exact Option.some.inj hname

theorem exists_chunk (hs : (r.sections t)[i]? = some s) : ∃ c, cs[i]? = some c := by
  have hname := chunkName_eq h i
  rw [hs] at hname
  obtain ⟨c, hc, -⟩ := Option.map_eq_some_iff.1 hname
  exact ⟨c, hc⟩

theorem exists_section (hc : cs[i]? = some c) : ∃ s, (r.sections t)[i]? = some s := by
  have hname := chunkName_eq h i
  rw [hc] at hname
  obtain ⟨s, hs, -⟩ := Option.map_eq_some_iff.1 hname.symm
  exact ⟨s, hs⟩

/-- The ids of chunks that are told apart by their places follow the names. -/
theorem id_eq_iff (hids : Separated cs) (hne : i ≠ j)
    (hs : (r.sections t)[i]? = some s) (hs' : (r.sections t)[j]? = some s') (hc : cs[i]? = some c)
    (hd : cs[j]? = some d) :
    c.id = d.id ↔ s.Repeats s' := by
  have hname := name_of_chunk h hs hc
  have hname' := name_of_chunk h hs' hd
  rw [← symbolName_eq_iff hne hs hs', ← hname, ← hname']
  constructor
  · exact hids.name (List.mem_of_getElem? hc) (List.mem_of_getElem? hd)
  · intro hsame
    obtain ⟨id, hid⟩ := Atlas.exists_id_of_name (Atlas.sections_ok h).2
    rw [hid c (List.mem_of_getElem? hc), hid d (List.mem_of_getElem? hd), hsame]

end

def Lasts (r : Reader) (t : Syntax.Tree) (i : Nat) (s : Section) : Prop :=
  ∀ j s', i < j → (r.sections t)[j]? = some s' → ¬ s.Repeats s'

theorem held_of_lasts {o : Atlas.Origin} {language : Language} {hash : String} {now : Int}
    {y : Index.Yield} {a b : Atlas}
    {c : Chunk} (h : r.chunks t (o.provenance language hash) now = .ok y.chunks) (hids : Separated y.chunks)
    (hstored : (Atlas.persist y).on a = (.ok (), b)) (hs : (r.sections t)[i]? = some s) (hc : y.chunks[i]? = some c)
    (hlasts : r.Lasts t i s) (part : Part) : (b.held part).get? c.key = some (part.document c) := by
  obtain ⟨vs, hvs, -, hb⟩ := Atlas.of_persist hstored
  obtain ⟨hi, rfl⟩ := List.getElem?_eq_some_iff.1 hc
  have hsplit : y.chunks = y.chunks.take i ++ y.chunks[i] :: y.chunks.drop (i + 1) := by simp
  apply hb.get?_last (Atlas.length_of_embedChunks hvs) part hsplit
  intro d hd hkey
  obtain ⟨k, hk⟩ := List.mem_iff_getElem?.1 hd
  rw [List.getElem?_drop] at hk
  obtain ⟨s', hs'⟩ := exists_section h hk
  have hid := (id_eq_iff h hids (by omega) hs hs' hc hk).1 (Key.str.inj hkey).symm
  exact hlasts _ s' (by omega) hs' hid

end Reader

/-- Sections at different places in a document have one name, and their chunks one id, just if they
are headings with a title, of one level and with one slug. So once the chunks are stored, each is
found by its id in every part, unless such a heading follows. -/
theorem sections_kept_apart (r : Reader) (t : Syntax.Tree) :
    (∀ (i j : Nat) (s s' : Section), i ≠ j → (r.sections t)[i]? = some s → (r.sections t)[j]? = some s' →
      (s.symbolName i = s'.symbolName j ↔ s.Repeats s')) ∧
    ∀ (o : Atlas.Origin) (language : Language) (hash : String) (now : Int) (y : Index.Yield),
      r.chunks t (o.provenance language hash) now = .ok y.chunks → Separated y.chunks →
      (∀ (i j : Nat) (s s' : Section) (c d : Chunk),
        i ≠ j → (r.sections t)[i]? = some s → (r.sections t)[j]? = some s' →
        y.chunks[i]? = some c → y.chunks[j]? = some d → (c.id = d.id ↔ s.Repeats s')) ∧
      ∀ (a b : Atlas), (Atlas.persist y).on a = (.ok (), b) → ∀ (i : Nat) (s : Section),
        (r.sections t)[i]? = some s →
        ∃ c, y.chunks[i]? = some c ∧ c.payload.symbolName = s.symbolName i ∧
          (r.Lasts t i s → ∀ part, (b.held part).get? c.key = some (part.document c)) := by
  refine ⟨fun i j s s' hne hs hs' => Reader.symbolName_eq_iff hne hs hs',
    fun o language hash now y h hids => ⟨?_, ?_⟩⟩
  · intro i j s s' c d hne hs hs' hc hd
    exact Reader.id_eq_iff h hids hne hs hs' hc hd
  · intro a b hstored i s hs
    obtain ⟨c, hc⟩ := Reader.exists_chunk h hs
    exact ⟨c, hc, Reader.name_of_chunk h hs hc, fun hlasts => Reader.held_of_lasts h hids hstored hs hc hlasts⟩

end Markdown

/-! A note that is stored. -/

namespace Sample

abbrev noteChunks : Outcome (List Chunk) := noteReader.chunks noteTree (origin.provenance .markdown "") 0

def noteYield : Index.Yield := { chunks := noteChunks.toOption.getD [] }

end Sample

namespace Markdown

theorem sections_of_note_kept_apart :
    ∃ (s s' : Section) (c d : Chunk), Sample.noteReader.sections Sample.noteTree = [s, s'] ∧
    ¬ s.Repeats s' ∧ Sample.noteYield.chunks = [c, d] ∧ c.payload.symbolName = "h1-a" ∧ c.id ≠ d.id ∧
    ∀ part, (((Atlas.persist Sample.noteYield).on Sample.atlas).2.held part).get? c.key =
      some (part.document c) := by
  obtain ⟨hnames, hchunks⟩ := sections_kept_apart Sample.noteReader Sample.noteTree
  have hrun : ((Sample.noteReader.sections Sample.noteTree).zipIdx.map fun e => e.1.symbolName e.2) =
    ["h1-a", "paragraph-a-1"] ∧
      Sample.noteChunks.toBool = true ∧ Sample.noteYield.chunks.length = 2 ∧ Separated Sample.noteYield.chunks ∧
      ((Atlas.persist Sample.noteYield).on Sample.atlas).1.toBool = true := by
    decide +kernel
  obtain ⟨hjoined, hok, hcount, hids, hstored⟩ := hrun
  obtain ⟨s, s', hsections⟩ : ∃ s s', Sample.noteReader.sections Sample.noteTree = [s, s'] := by
    have hlength := congrArg List.length hjoined
    rw [List.length_map, List.length_zipIdx] at hlength
    exact List.length_eq_two.1 hlength
  obtain ⟨c, d, hpair⟩ := List.length_eq_two.1 hcount
  rw [hsections] at hnames hchunks hjoined
  obtain ⟨hname, hname'⟩ : s.symbolName 0 = "h1-a" ∧ s'.symbolName 1 = "paragraph-a-1" := by simpa using hjoined
  have hapart : ¬ s.Repeats s' := by
    rw [← hnames 0 1 s s' (by decide) rfl rfl]
    intro hsame
    have hsame : s.symbolName 0 = s'.symbolName 1 := hsame
    rw [hname, hname'] at hsame
    exact absurd hsame (by decide)
  obtain ⟨hdistinct, hheld⟩ := hchunks Sample.origin .markdown "" 0 Sample.noteYield (eq_ok [] hok) hids
  obtain ⟨c', hc', hchunk, hfound⟩ := hheld _ _ (Act.on_eq_ok () hstored) 0 s rfl
  rw [hpair] at hc' hdistinct
  obtain rfl : c = c' := Option.some.inj hc'
  refine ⟨s, s', c, d, hsections, hapart, hpair, hchunk.trans hname, ?_, hfound ?_⟩
  · exact (hdistinct 0 1 s s' c d (by decide) rfl rfl rfl rfl).not.2 hapart
  · intro j s'' hj hs''
    rw [hsections] at hs''
    obtain ⟨hj', rfl⟩ := List.getElem?_eq_some_iff.1 hs''
    obtain rfl : j = 1 := by simp at hj'; omega
    exact hapart

end Markdown

end SourceAtlas
