import SourceAtlas.FileTree
import SourceAtlas.Proofs.Acts
import SourceAtlas.Snapshot

/-!
# Reading what was written

A file that is written is read back, and its neighbours are as they were. What
leads to a file are directories, and writing leaves every directory one.
-/

namespace SourceAtlas

open Json (Record)
open Text (Path)

namespace FileTree

variable {t : FileTree} {name other : String} {place : List String}

/-! ## Entries -/

theorem find?_setEntry (es : List (String × FileTree)) (name other : String) (t : FileTree) :
    ((setEntry es name t).find? (·.1 == other)).map (·.2) =
      if name = other then some t else (es.find? (·.1 == other)).map (·.2) := by
  unfold setEntry
  split
  · rename_i hany
    rw [List.find?_map, Option.map_map]
    by_cases h : name = other
    · subst h
      have hsame : ((fun e : String × FileTree => e.1 == name) ∘ fun e => if e.1 == name then (name, t) else e) =
          (·.1 == name) := by
        funext e
        by_cases he : e.1 = name <;> simp [he]
      obtain ⟨e, he⟩ := Option.isSome_iff_exists.1 (List.find?_isSome.2 (List.any_eq_true.1 hany))
      have hname : (e.1 == name) = true := List.find?_some (p := fun e : String × FileTree => e.1 == name) he
      rw [if_pos rfl, hsame, he, Option.map_some, Function.comp_apply, if_pos hname]
    · have hsame : ((fun e : String × FileTree => e.1 == other) ∘ fun e => if e.1 == name then (name, t) else e) =
          (·.1 == other) := by
        funext e
        by_cases he : e.1 = name <;> simp [he]
      rw [hsame, if_neg h]
      refine Option.map_congr fun e he => ?_
      have hother : e.1 = other :=
        beq_iff_eq.1 (List.find?_some (p := fun e : String × FileTree => e.1 == other) he)
      have hne : ¬ e.1 = name := fun hname => h (hname.symm.trans hother)
      simp [hne]
  · rename_i hany
    rw [List.find?_append, Option.map_or, List.find?_singleton]
    by_cases h : name = other
    · subst h
      have hnone : es.find? (·.1 == name) = none :=
        List.find?_eq_none.2 fun e he hname => hany (List.any_eq_true.2 ⟨e, he, hname⟩)
      simp [hnone]
    · simp [h]

theorem child?_setEntry (t leaf : FileTree) (name other : String) :
    (dir (setEntry t.entries name leaf)).child? other = if name = other then some leaf else t.child? other :=
  find?_setEntry t.entries name other leaf

theorem at?_cons (t : FileTree) (name : String) (names : List String) :
    t.at? (name :: names) = (t.child? name).bind (·.at? names) := rfl

theorem at?_getD_empty (c : Option FileTree) (name : String) (names : List String) :
    (c.getD empty).at? (name :: names) = c.bind (·.at? (name :: names)) := by
  cases c <;> rfl

/-! ## Putting -/

theorem at?_put : ∀ (place : List String) (t leaf : FileTree), (t.put leaf place).at? place = some leaf
  | [], _, _ => rfl
  | name :: names, t, leaf => by
    rw [put, at?_cons, child?_setEntry, if_pos rfl]
    exact at?_put names _ leaf

/-- Beside the place where something is put nothing changes. -/
theorem at?_put_beside (hne : name ≠ other) (leaf : FileTree) : ∀ (dirs : List String) (t : FileTree),
    (t.put leaf (dirs ++ [name])).at? (dirs ++ [other]) = t.at? (dirs ++ [other])
  | [], t => by
    rw [List.nil_append, List.nil_append, put, at?_cons, at?_cons, child?_setEntry, if_neg hne]
  | d :: dirs, t => by
    rw [List.cons_append, List.cons_append, put, at?_cons, at?_cons, child?_setEntry, if_pos rfl, Option.bind_some,
      at?_put_beside hne leaf dirs]
    cases dirs <;> exact at?_getD_empty ..

/-- Directories stay directories unless one of them is replaced. -/
theorem dir_of_put (leaf : FileTree) :
    ∀ (place : List String) {t : FileTree} {q : List String} {es : List (String × FileTree)},
    (∀ ds, t.at? place ≠ some (dir ds)) → t.at? q = some (dir es) → ∃ ds, (t.put leaf place).at? q = some (dir ds)
  | [], t, q, es, hplace, hq => by
    cases t with
    | dir ds => exact absurd rfl (hplace ds)
    | file content =>
      cases q with
      | nil => cases hq
      | cons _ _ => cases hq
  | name :: names, t, [], es, _, _ => ⟨_, rfl⟩
  | name :: names, t, other :: rest, es, hplace, hq => by
    rw [at?_cons] at hq
    rw [put, at?_cons, child?_setEntry]
    by_cases h : name = other
    · subst h
      obtain ⟨c, hc, hq⟩ := Option.bind_eq_some_iff.1 hq
      rw [if_pos rfl, Option.bind_some, hc]
      refine dir_of_put leaf names (fun ds hds => hplace ds ?_) hq
      rw [at?_cons, hc]
      exact hds
    · rw [if_neg h]
      exact ⟨es, hq⟩

/-! ## Following paths -/

theorem follow_cons (t : FileTree) (shown : String) (here : List String) (name : String) (rest : List String) :
    t.follow shown here (name :: rest) = t.follow shown here [name] >>= fun next => t.follow shown next rest := by
  simp only [follow]
  split
  · rfl
  · rfl
  · split
    · rfl
    · split <;> rfl

theorem follow_append (t : FileTree) (shown : String) : ∀ (names rest here : List String),
    t.follow shown here (names ++ rest) = t.follow shown here names >>= fun next => t.follow shown next rest
  | [], rest, here => by
    rw [List.nil_append, follow]
    rfl
  | name :: names, rest, here => by
    rw [List.cons_append, follow_cons, follow_cons t shown here name names]
    cases t.follow shown here [name] with
    | error f => rfl
    | ok next => exact follow_append t shown names rest next

/-- A name that can be a file leads from a directory to the place below it. -/
theorem follow_name (hup : name ≠ "..") (hlength : name.utf8ByteSize ≤ maxName) {shown : String}
    {here : List String} :
    t.follow shown here [name] = .ok place ↔ (∃ es, t.at? here = some (dir es)) ∧ place = here ++ [name] := by
  simp only [follow, beq_iff_eq, hup, if_false, Nat.not_lt.2 hlength]
  cases t.at? here with
  | none => simp [throw, throwThe, MonadExceptOf.throw]
  | some c =>
    cases c with
    | file content => simp [throw, throwThe, MonadExceptOf.throw]
    | dir es => simp [pure, Except.pure, eq_comm]

theorem follow_mono {u : FileTree} (hdir : ∀ q es, t.at? q = some (dir es) → ∃ ds, u.at? q = some (dir ds))
    (shown shown' : String) : ∀ {names here : List String}, t.follow shown here names = .ok place →
      u.follow shown' here names = .ok place
  | [], here, h => by
    rw [follow] at h ⊢
    exact h
  | name :: names, here, h => by
    simp only [follow] at h ⊢
    split at h
    · cases h
    · cases h
    · rename_i es hes
      obtain ⟨ds, hds⟩ := hdir here es hes
      simp only [hds]
      split
      · rename_i hup
        rw [if_pos hup] at h
        exact follow_mono hdir shown shown' h
      · rename_i hup
        rw [if_neg hup] at h
        split
        · rename_i hlength
          rw [if_pos hlength] at h
          cases h
        · rename_i hlength
          rw [if_neg hlength] at h
          exact follow_mono hdir shown shown' h

/-! ## Files of one directory -/

def IsFileName (name : String) : Prop := name ≠ ".." ∧ name.utf8ByteSize ≤ maxName

def fileIn (dirs : List String) (name : String) : Path := ⟨"", dirs ++ [name]⟩

variable {dirs : List String} {content : FileContent} {u : FileTree}

theorem placeOf_fileIn (hname : IsFileName name) (h : t.placeOf (fileIn dirs name) = .ok place) :
    ∃ here es, (∀ shown, t.follow shown [] dirs = .ok here) ∧ t.at? here = some (dir es) ∧ place = here ++ [name] ∧
      checkPath (fileIn dirs name) = .ok () := by
  obtain ⟨_, hcheck, h⟩ := bind_eq_ok.1 h
  have hfollow : t.follow (fileIn dirs name).toString [] (dirs ++ [name]) = .ok place := h
  rw [follow_append] at hfollow
  obtain ⟨here, hhere, hlast⟩ := bind_eq_ok.1 hfollow
  obtain ⟨⟨es, hes⟩, rfl⟩ := (follow_name hname.1 hname.2).1 hlast
  exact ⟨here, es, fun shown => follow_mono (fun _ es hes => ⟨es, hes⟩) _ shown hhere, hes, rfl, hcheck⟩

theorem placeOf_of_follow (hname : IsFileName name) (hcheck : checkPath (fileIn dirs name) = .ok ())
    {here : List String} {es : List (String × FileTree)}
    (hfollow : ∀ shown, t.follow shown [] dirs = .ok here)
    (hhere : t.at? here = some (dir es)) : t.placeOf (fileIn dirs name) = .ok (here ++ [name]) := by
  have hplace : t.follow (fileIn dirs name).toString [] (dirs ++ [name]) = .ok (here ++ [name]) := by
    rw [follow_append, hfollow]
    exact (follow_name hname.1 hname.2).2 ⟨⟨es, hhere⟩, rfl⟩
  rw [placeOf, hcheck]
  exact hplace

/-- Writing a file puts it into a directory that is there. -/
theorem of_write (hname : IsFileName name) (h : t.write (fileIn dirs name) content = .ok u) :
    ∃ here es, (∀ shown, t.follow shown [] dirs = .ok here) ∧ t.at? here = some (dir es) ∧
      checkPath (fileIn dirs name) = .ok () ∧ (∀ ds, t.at? (here ++ [name]) ≠ some (dir ds)) ∧
      u = t.put (file content) (here ++ [name]) := by
  obtain ⟨place, hplace, h⟩ := bind_eq_ok.1 h
  obtain ⟨here, es, hfollow, hes, rfl, hcheck⟩ := placeOf_fileIn hname hplace
  have hscope : t.scope (fileIn dirs name) = t := rfl
  rw [hscope] at h
  refine ⟨here, es, hfollow, hes, hcheck, ?_⟩
  split at h
  · cases h
  · rename_i hfree
    exact ⟨hfree, (pure_eq_ok.1 h).symm⟩

theorem has_of_readFile {p : Path} (h : t.readFile p = .ok content) : t.has p = .ok true := by
  obtain ⟨found, hfound, -⟩ := bind_eq_ok.1 h
  rw [has, hfound]
  rfl

theorem find_of_write (hname : IsFileName name) (h : t.write (fileIn dirs name) content = .ok u) :
    u.find (fileIn dirs name) = .ok (file content) := by
  obtain ⟨here, es, hfollow, hes, hcheck, hfree, rfl⟩ := of_write hname h
  have hdir := fun q es hq => @dir_of_put (file content) (here ++ [name]) t q es hfree hq
  obtain ⟨ds, hds⟩ := hdir here es hes
  have hplace := placeOf_of_follow (t := t.put (file content) (here ++ [name])) hname hcheck
    (fun shown => follow_mono hdir shown shown (hfollow shown)) hds
  have hscope : (t.put (file content) (here ++ [name])).scope (fileIn dirs name) =
    t.put (file content) (here ++ [name]) := rfl
  rw [find, hplace, hscope]
  simp only [bind, Except.bind, at?_put]
  rfl

/-- The other files of the directory are found as before. -/
theorem find_of_write_beside (hname : IsFileName name) (hother : IsFileName other) (hne : name ≠ other)
    (h : t.write (fileIn dirs name) content = .ok u) {found : FileTree}
    (hfound : t.find (fileIn dirs other) = .ok found) :
    u.find (fileIn dirs other) = .ok found := by
  obtain ⟨here, es, hfollow, hes, -, hfree, rfl⟩ := of_write hname h
  obtain ⟨place, hplace, hfound⟩ := bind_eq_ok.1 hfound
  obtain ⟨there, ds, hthere, -, rfl, hcheck⟩ := placeOf_fileIn hother hplace
  obtain rfl : here = there := Except.ok.inj ((hfollow "").symm.trans (hthere ""))
  have hdir := fun q es hq => @dir_of_put (file content) (here ++ [name]) t q es hfree hq
  obtain ⟨ds, hds⟩ := hdir here es hes
  have hplace := placeOf_of_follow (t := t.put (file content) (here ++ [name])) hother hcheck
    (fun shown => follow_mono hdir shown shown (hfollow shown)) hds
  have hscope : ∀ v : FileTree, v.scope (fileIn dirs other) = v := fun _ => rfl
  rw [hscope] at hfound
  rw [find, hplace, hscope]
  simp only [bind, Except.bind, at?_put_beside hne]
  exact hfound

end FileTree

/-! ## Snapshots -/

namespace Snapshot

variable {t u : FileTree} {p : Path} {fields : Record}

def versioned (r : Record) : Record := Record.extend [("version", .str version)] r

theorem of_save {data : Record} (h : save t p (.obj data) = .ok u) :
    t.write p (.record (versioned data)) = .ok u := by
  obtain ⟨fields, hfields, h⟩ := bind_eq_ok.1 h
  obtain rfl := pure_eq_ok.1 hfields
  dsimp only at h
  cases hwrite : t.write p (.record (versioned data)) with
  | error f =>
    unfold versioned at hwrite
    rw [hwrite] at h
    cases h
  | ok v =>
    unfold versioned at hwrite
    rw [hwrite] at h
    exact h

theorem load_of_find (h : t.find p = .ok (.file (.record fields))) : load t p = .ok (some fields) := by
  have hread : t.readFile p = .ok (.record fields) := by
    rw [FileTree.readFile, h]
    rfl
  simp only [load, FileTree.has_of_readFile hread, hread, bind, Except.bind, Bool.not_true,
    Bool.false_eq_true, reduceIte]
  rfl

end Snapshot

end SourceAtlas
