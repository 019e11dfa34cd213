import SourceAtlas.Proofs.Histories
import SourceAtlas.Proofs.Traces

/-!
# Calls for several workspaces

The ledger knows a file by its repository and path, an id by its workspace as
well. What is reported as unchanged is there for the workspace of the call
that stored the file last, and for no other.
-/

namespace SourceAtlas

open Json (Value Key)

def Index.FileResult.stored? : Index.FileResult → Option Index.Yield
  | .indexed _ y => some y
  | _ => none

namespace Atlas

/-! ## Calls that answer -/

/-- What calls for any workspaces lead to if all of them answer, the newest first. Between calls
files, time, faults and the engine may change. -/
inductive Calls (parse : Parser) : List Call → Atlas → Prop
  | start (plan : Plan) (disk : Disk) : Calls parse [] (Atlas.open plan disk)
  | world {calls : List Call} {a : Atlas} (h : Calls parse calls a) (disk : Disk) (engine : Graph.Engine)
      (faults : List (Operation × Failure)) : Calls parse calls { a with disk, engine, faults }
  | call {calls : List Call} {a b : Atlas} {o : Origin} {text : String} {x : Index.FileResult}
      (h : Calls parse calls a) (hok : (indexText parse o text true).on a = (.ok x, b)) :
      Calls parse (⟨a, o, text⟩ :: calls) b

def Call.stored? (parse : Parser) (c : Call) : Option Index.Yield :=
  ((indexText parse c.origin c.text true).on c.before).1.toOption.bind Index.FileResult.stored?

def Call.storedFor? (parse : Parser) (file : FileKey) (c : Call) : Option (Call × Index.Yield) :=
  (c.stored? parse).bind fun y => if y.rows.any (·.file == file) then some (c, y) else none

/-- The newest call that was reported as indexed for a file, with what it stored. -/
def newestStored (parse : Parser) (file : FileKey) (calls : List Call) : Option (Call × Index.Yield) :=
  calls.findSome? (·.storedFor? parse file)

def storedBy (parse : Parser) (calls : List Call) : List Chunk :=
  calls.flatMap fun c => ((c.stored? parse).map (·.chunks)).getD []

variable {parse : Parser} {calls : List Call} {a b : Atlas} {o : Origin} {text : String} {x : Index.FileResult}
  {y : Index.Yield} {file : FileKey} {c : Call}

theorem stored?_of_run (hok : (indexText parse o text true).on a = (.ok x, b)) :
    Call.stored? parse ⟨a, o, text⟩ = x.stored? := by
  have hrun : ((indexText parse o text true).on a).1 = .ok x := congrArg Prod.fst hok
  show (((indexText parse o text true).on a).1.toOption.bind _) = _
  rw [hrun]
  rfl

theorem rows_of_stored (hok : (indexText parse o text true).on a = (.ok x, b)) (hy : x.stored? = some y) :
    ∃ row, y.rows = [row] ∧ x.events = [.stored row.file y.chunks] := by
  obtain ⟨hx, -⟩ := of_indexText hok
  cases x with
  | indexed language z =>
    obtain rfl := Option.some.inj hy
    obtain ⟨row, hrows, -⟩ := row_of_examine hx
    exact ⟨row, hrows, events_indexed hrows⟩
  | _ => cases hy

theorem events_of_not_stored (hx : x.stored? = none) : x.events = [] := by
  cases x with
  | indexed language y => cases hx
  | _ => rfl

/-- Calls that answer are a history, of which the newest call for a file is what was stored last. -/
theorem Calls.history (h : Calls parse calls a) : ∃ es, History a es ∧ chunksIn es = storedBy parse calls ∧
    ∀ file, latest es file = (newestStored parse file calls).map (·.2.chunks) := by
  induction h with
  | start plan disk => exact ⟨[], .start plan disk, rfl, fun _ => rfl⟩
  | world _ disk engine faults ih =>
    obtain ⟨es, hes, hchunks, hlatest⟩ := ih
    exact ⟨es, hes.world disk engine faults, hchunks, hlatest⟩
  | @call calls a b o text x _ hok ih =>
    obtain ⟨es, hes, hchunks, hlatest⟩ := ih
    have hcall := stored?_of_run hok
    refine ⟨x.events ++ es, hes.text hok, ?_⟩
    simp only [storedBy, List.flatMap_cons, newestStored, List.findSome?_cons, Call.storedFor?, hcall]
    cases hx : x.stored? with
    | none =>
      rw [events_of_not_stored hx]
      exact ⟨hchunks, hlatest⟩
    | some y =>
      obtain ⟨row, hrows, hevents⟩ := rows_of_stored hok hx
      rw [hevents]
      refine ⟨congrArg (y.chunks ++ ·) hchunks, fun file => ?_⟩
      show latest (.stored row.file y.chunks :: es) file = _
      rw [latest, Option.bind_some, hrows, List.any_cons, List.any_nil, Bool.or_false]
      cases row.file == file with
      | true => rfl
      | false => exact hlatest file

theorem plan_of_run (hok : (indexText parse o text true).on a = (.ok x, b)) : b.plan = a.plan := by
  obtain ⟨-, ⟨-, rfl⟩ | ⟨language, y, rfl, hp⟩⟩ := of_indexText hok
  · rfl
  · obtain ⟨vs, -, -, hb⟩ := of_persist hp
    exact hb.plan

theorem Calls.plan (h : Calls parse calls a) : ∀ c ∈ calls, c.before.plan = a.plan := by
  induction h with
  | start plan disk => exact fun c hc => absurd hc List.not_mem_nil
  | world _ disk engine faults ih => exact ih
  | call _ hok ih =>
    rw [plan_of_run hok]
    exact List.forall_mem_cons.2 ⟨rfl, ih⟩

theorem run_of_stored (h : c.stored? parse = some y) : ∃ language,
    c.before.examine parse c.origin c.text = .ok (.indexed language y) := by
  obtain ⟨x, hx, hy⟩ := Option.bind_eq_some_iff.1 h
  cases hrun : ((indexText parse c.origin c.text true).on c.before).1 with
  | error f =>
    rw [hrun] at hx
    cases hx
  | ok z =>
    rw [hrun] at hx
    obtain rfl := Option.some.inj hx
    obtain ⟨hx, -⟩ := of_indexText (eq_of_fst hrun)
    cases z with
    | indexed language z =>
      obtain rfl := Option.some.inj hy
      exact ⟨language, hx⟩
    | _ => cases hy

theorem of_newestStored (h : newestStored parse file calls = some (c, y)) :
    c ∈ calls ∧ c.stored? parse = some y ∧ y.rows.any (·.file == file) = true := by
  obtain ⟨e, he, hstored⟩ := List.exists_of_findSome?_eq_some h
  obtain ⟨z, hz, hfile⟩ := Option.bind_eq_some_iff.1 hstored
  split at hfile
  case isFalse => cases hfile
  rename_i hany
  obtain ⟨rfl, rfl⟩ := Prod.mk.inj (Option.some.inj hfile)
  exact ⟨he, hz, hany⟩

/-- What the newest call stored: chunks of its place, named after its text. -/
theorem Calls.place_of_newestStored (h : Calls parse calls a)
    (hnewest : newestStored parse file calls = some (c, y)) :
    ∃ language row, y.rows = [row] ∧ (row.file == file) = true ∧ asKey c.origin.repo = .ok row.repo ∧
      row.path = .str c.origin.path ∧ Language.ofPath? c.origin.path = some language ∧
      namesIn a.plan language c.text (parse c.origin.path c.text) = .ok (y.chunks.map (·.payload.symbolName)) ∧
      ∀ d ∈ y.chunks, Chunk.IsFrom c.origin d := by
  obtain ⟨hc, hstored, hany⟩ := of_newestStored hnewest
  obtain ⟨language, hx⟩ := run_of_stored hstored
  obtain ⟨row, hrows, hrepo, hpath, -, -, -⟩ := row_of_examine hx
  obtain ⟨hlanguage, -, hanalyse⟩ := examine_indexed hx
  obtain ⟨hnames, hfrom, -⟩ := analyse_ok hanalyse
  rw [hrows, List.any_cons, List.any_nil, Bool.or_false] at hany
  rw [h.plan c hc] at hnames
  exact ⟨language, row, hrows, hany, hrepo, hpath, hlanguage, hnames, hfrom⟩

/-! ## What is there after a call -/

theorem newestStored_self {repo : Key} (hok : (indexText parse o text true).on a = (.ok x, b))
    (hy : x.stored? = some y) (hrepo : asKey o.repo = .ok repo) (calls : List Call) :
    newestStored parse (repo, .str o.path) (⟨a, o, text⟩ :: calls) = some (⟨a, o, text⟩, y) := by
  obtain ⟨hx, -⟩ := of_indexText hok
  cases x with
  | indexed language z =>
    obtain rfl := Option.some.inj hy
    obtain ⟨row, hrows, hrowRepo, hpath, -⟩ := row_of_examine hx
    obtain rfl : row.repo = repo := Except.ok.inj (hrowRepo.symm.trans hrepo)
    have hfile : (row.file == (row.repo, .str o.path)) = true := by
      rw [Graph.LedgerRow.file, hpath]
      exact BEq.rfl
    simp only [newestStored, List.findSome?_cons, Call.storedFor?, stored?_of_run hok, hy, Option.bind_some, hrows,
      List.any_cons, List.any_nil, Bool.or_false, hfile, if_true]
  | _ => cases hy

/-- A file that can be indexed has a row after every call for it. -/
theorem recorded_of_run {language : Language} (hlanguage : Language.ofPath? o.path = some language)
    (hok : (indexText parse o text true).on a = (.ok x, b)) :
    ∃ repo, asKey o.repo = .ok repo ∧ (b.store.ledger.get? (repo, .str o.path)).isSome = true := by
  obtain ⟨hx, hstep⟩ := of_indexText hok
  cases x with
  | unsupported =>
    unfold examine at hx
    rw [hlanguage] at hx
    simp only [bind_eq_ok] at hx
    obtain ⟨row, -, hx⟩ := hx
    split at hx
    · cases hx
    · simp only [bind_eq_ok, pure_eq_ok] at hx
      obtain ⟨-, -, y, -, hx⟩ := hx
      cases hx
  | «unchanged» l =>
    obtain ⟨-, rfl⟩ | ⟨_, _, hno, -⟩ := hstep
    case inr => cases hno
    obtain ⟨-, repo, hrepo, hrow⟩ := examine_unchanged hx
    obtain ⟨row, hrow⟩ := Option.isSome_iff_exists.1 hrow
    rw [Graph.Ledger.unchanged?, Option.filter_eq_some_iff] at hrow
    exact ⟨repo, hrepo, by rw [hrow.1]; rfl⟩
  | indexed l y =>
    obtain ⟨hno, -⟩ | ⟨_, _, hindexed, hp⟩ := hstep
    case inl => exact absurd rfl (hno l y)
    cases hindexed
    obtain ⟨row, hrows, hrepo, hpath, -⟩ := row_of_examine hx
    obtain ⟨vs, -, -, hb⟩ := of_persist hp
    have hrow := hb.get?_row hrows
    rw [Graph.LedgerRow.file, hpath] at hrow
    exact ⟨row.repo, hrepo, by rw [hrow]; rfl⟩

/-- A chunk that belongs to a file is there just if it is one of those stored last, by workspace
and name. -/
theorem Consistent.has_iff {o₀ : Origin} {es : List Event} {cs ds : List Chunk} {d : Chunk} (h : Consistent b es)
    (hlatest : latest es file = some cs) (hcs : ∀ e ∈ cs, Chunk.IsFrom o₀ e) (hids : Separated (ds ++ chunksIn es))
    (hd : d ∈ ds) (hfrom : Chunk.IsFrom o d) (hfile : d.file = file) :
    (∀ part, b.has part d.key) ↔
      o₀.workspace = o.workspace ∧ d.payload.symbolName ∈ cs.map (·.payload.symbolName) := by
  constructor
  · intro hall
    obtain ⟨document, hdocument⟩ := Option.isSome_iff_exists.1 (hall .symbols)
    obtain ⟨cs', e, he, hcs', hkey, -⟩ := h.owned .symbols _ _ hdocument
    -- the chunk under this id is of the same place, so it is one of those stored last
    have hplace := hids d (List.mem_append_left _ hd) e (List.mem_append_right _ (mem_chunksIn_of_latest hcs' he))
      (Key.str.inj hkey)
    simp only [Chunk.place, Prod.mk.injEq] at hplace
    obtain ⟨hworkspace, hrepo, hpath, hname⟩ := hplace
    have hsame : e.file = file := by
      rw [← hfile, Chunk.file, Chunk.file, hrepo, hpath]
    rw [hsame, hlatest] at hcs'
    obtain rfl := Option.some.inj hcs'
    refine ⟨?_, List.mem_map.2 ⟨e, he, hname.symm⟩⟩
    rw [(hcs e he).workspace, hfrom.workspace, hworkspace]
  · rintro ⟨hworkspace, hname⟩ part
    obtain ⟨e, he, hname⟩ := List.mem_map.1 hname
    obtain ⟨hefile, e', -, hget⟩ := h.present part file cs hlatest e he
    rw [hfrom.key_eq (hcs e he) hworkspace.symm (hfile.trans hefile.symm) hname.symm]
    exact Option.isSome_iff_exists.2 ⟨_, hget⟩

/-- After a call on a file that can be indexed, one that stored the file, now or before, was the
newest to do so. The parts have just those chunks of the content whose names that call stored, and
they have them just if it was for the same workspace. -/
theorem Calls.present_iff {language : Language} {now : Int} {hash : String} (h : Calls parse calls a)
    (hlanguage : Language.ofPath? o.path = some language) (hok : (indexText parse o text true).on a = (.ok x, b))
    (hy : analyse a.plan now o language text hash (parse o.path text) = .ok y)
    (hids : Separated (y.chunks ++ storedBy parse (⟨a, o, text⟩ :: calls))) :
    ∃ repo c z, asKey o.repo = .ok repo ∧
      newestStored parse (repo, .str o.path) (⟨a, o, text⟩ :: calls) = some (c, z) ∧
      (x.stored?.isSome → c = ⟨a, o, text⟩) ∧
      (∀ d ∈ y.chunks, (∀ part, b.has part d.key) ↔
        c.origin.workspace = o.workspace ∧ d.payload.symbolName ∈ z.chunks.map (·.payload.symbolName)) ∧
      (c.text = text → ∀ d ∈ y.chunks, d.payload.symbolName ∈ z.chunks.map (·.payload.symbolName)) := by
  have hcalls := h.call hok
  obtain ⟨es, hhistory, hchunks, hlatest⟩ := hcalls.history
  rw [← hchunks] at hids
  have hconsistent := hhistory.consistent (hids.mono fun d hd => List.mem_append_right _ hd)
  obtain ⟨hnames, hfrom, -⟩ := analyse_ok hy
  obtain ⟨repo, hrepo, hrow⟩ := recorded_of_run hlanguage hok
  rw [hconsistent.ledger, hlatest, Option.isSome_map] at hrow
  obtain ⟨⟨c, z⟩, hnewest⟩ := Option.isSome_iff_exists.1 hrow
  have hlatest : latest es (repo, .str o.path) = some z.chunks := by rw [hlatest, hnewest]; rfl
  obtain ⟨language₀, row, -, hfile, -, hpath, hlanguage₀, hnames₀, hfrom₀⟩ := hcalls.place_of_newestStored hnewest
  refine ⟨repo, c, z, hrepo, hnewest, fun hstored => ?_, fun d hd => ?_, fun htext d hd => ?_⟩
  · obtain ⟨y', hy'⟩ := Option.isSome_iff_exists.1 hstored
    rw [newestStored_self hok hy' hrepo] at hnewest
    exact (Prod.mk.inj (Option.some.inj hnewest)).1.symm
  · exact hconsistent.has_iff hlatest hfrom₀ hids hd (hfrom d hd) ((hfrom d hd).file_eq hrepo)
  · have hsame : c.origin.path = o.path := by
      have hkey := ((beq_pair _ _).1 hfile).2
      rw [Graph.LedgerRow.file, hpath] at hkey
      exact Key.str.inj ((Key.beq_str _ _).1 hkey)
    rw [hsame, hlanguage] at hlanguage₀
    obtain rfl := Option.some.inj hlanguage₀
    rw [hsame, htext, plan_of_run hok, hnames] at hnames₀
    rw [← Except.ok.inj hnames₀]
    exact List.mem_map_of_mem hd

/-- The function is indexed again for its workspace. -/
theorem Calls.present_iff_of_function :
    let a := (Sample.index Sample.function Sample.atlas).2
    let b := (Sample.index Sample.function a).2
    Calls Sample.parse [⟨Sample.atlas, Sample.origin, Sample.function⟩] a ∧
      Sample.index Sample.function a = (.ok (.unchanged .python), b) ∧
      Sample.functionYield.chunks.length = 1 ∧ ∀ d ∈ Sample.functionYield.chunks, ∀ part, b.has part d.key := by
  intro a b
  have hfirst : (Sample.index Sample.function Sample.atlas).1.toBool = true := by decide +kernel
  have hcalls : Calls Sample.parse [⟨Sample.atlas, Sample.origin, Sample.function⟩] a :=
    .call (.start Sample.plan Sample.disk) (Act.on_eq_ok .unsupported hfirst)
  have hok : Sample.index Sample.function a = (.ok (.unchanged .python), b) :=
    eq_of_fst (eq_unchanged (by decide +kernel))
  have hplan : Sample.plan = a.plan := hcalls.plan _ List.mem_cons_self
  have hlanguage : Language.ofPath? Sample.origin.path = some .python := by decide
  have hids : Separated (Sample.functionYield.chunks ++ storedBy Sample.parse
    [⟨a, Sample.origin, Sample.function⟩, ⟨Sample.atlas, Sample.origin, Sample.function⟩]) := by decide +kernel
  obtain ⟨repo, c, z, -, hnewest, -, hpresent, hnames⟩ :=
    hcalls.present_iff hlanguage hok (hplan ▸ Sample.functionYield_ok) hids
  have hsame : c.origin = Sample.origin ∧ c.text = Sample.function := by
    obtain ⟨hc, -⟩ := of_newestStored hnewest
    rcases List.mem_cons.1 hc with rfl | hc
    · exact ⟨rfl, rfl⟩
    · rw [List.mem_singleton.1 hc]
      exact ⟨rfl, rfl⟩
  refine ⟨hcalls, hok, by decide +kernel, fun d hd => (hpresent d hd).2 ⟨?_, hnames hsame.2 d hd⟩⟩
  rw [hsame.1]

/-! ## Ids that are missed -/

/-- Content is reported as unchanged while an id of it is in no part. -/
def Missed (parse : Parser) (a : Atlas) (o : Origin) (text : String) : Prop :=
  ∃ b y, (indexText parse o text true).on a = (.ok (.unchanged .python), b) ∧
    analyse a.plan 0 o .python text "" (parse o.path text) = .ok y ∧ ∃ d ∈ y.chunks, ∀ part, ¬ b.has part d.key

def lacks (a : Atlas) (d : Chunk) : Bool :=
  decide (¬ a.has .symbols d.key ∧ ¬ a.has .vectors d.key ∧ ¬ a.has .texts d.key)

theorem not_has_of_lacks {d : Chunk} (h : a.lacks d = true) (part : Part) : ¬ a.has part d.key := by
  obtain ⟨hsymbols, hvectors, htexts⟩ := of_decide_eq_true h
  cases part <;> assumption

def misses (parse : Parser) (a : Atlas) (o : Origin) (text : String) : Bool :=
  let r := (indexText parse o text true).on a
  r.1.toOption.bind (fun x => if x.skipReason? = some "unchanged" then x.language? else none) == some .python &&
    (analyse a.plan 0 o .python text "" (parse o.path text)).toOption.any fun y => y.chunks.any r.2.lacks

theorem missed_of_misses (h : misses parse a o text = true) : Missed parse a o text := by
  unfold misses at h
  unfold Missed
  generalize (indexText parse o text true).on a = r at h ⊢
  obtain ⟨hunchanged, hlacks⟩ := Bool.and_eq_true_iff.1 h
  cases hy : analyse a.plan 0 o .python text "" (parse o.path text) with
  | error f =>
    rw [hy] at hlacks
    cases hlacks
  | ok y =>
    rw [hy] at hlacks
    obtain ⟨d, hd, hmissing⟩ := List.any_eq_true.1 hlacks
    exact ⟨r.2, y, eq_of_fst (eq_unchanged (beq_iff_eq.1 hunchanged)), rfl, d, hd, not_has_of_lacks hmissing⟩

/-- Content that was indexed for another workspace. -/
theorem missed_for_other_workspace : ∃ calls a, Calls Sample.parse calls a ∧
    Missed Sample.parse a { Sample.origin with workspace := "ws2" } Sample.function := by
  have hrun : (Sample.index Sample.function Sample.atlas).1.toBool = true ∧
      misses Sample.parse (Sample.index Sample.function Sample.atlas).2 { Sample.origin with workspace := "ws2" }
        Sample.function = true := by decide +kernel
  exact ⟨_, _, .call (.start Sample.plan Sample.disk) (Act.on_eq_ok .unsupported hrun.1), missed_of_misses hrun.2⟩

end Atlas

/-! ## Contents and places that are mistaken for others -/

namespace Sample

def padding (n : Nat) : String := String.ofList (List.replicate n '-')

def alike : String := "def f(): pass\n#" ++ padding 17 ++ "0Oze0s3s" ++ padding 23 ++ "\n"

def alike' : String := "def x(): pass\n#" ++ padding 17 ++ "q000m0a0" ++ padding 23 ++ "\n"

def parseAlike : Atlas.Parser := fun _ _ =>
  ⟨.node { kind := "module", first := 0, stop := 64 }
    [functionAt 0, .node { kind := "comment", first := 14, stop := 63 } []],
    fun _ => .node { kind := "inline", first := 0, stop := 0 } []⟩

def here : Atlas.Origin := { origin with workspace := "a\x00b", repo := "c" }

def there : Atlas.Origin := { origin with workspace := "a", repo := "b\x00c" }

end Sample

namespace Atlas

/-- Content of the same workspace, for which there is other content of the same hash. -/
theorem missed_for_hash : ∃ calls a, Calls Sample.parseAlike calls a ∧ (∀ c ∈ calls, c.origin = Sample.origin) ∧
    Missed Sample.parseAlike a Sample.origin Sample.alike' := by
  have hrun : ((indexText Sample.parseAlike Sample.origin Sample.alike true).on Sample.atlas).1.toBool = true ∧
      misses Sample.parseAlike ((indexText Sample.parseAlike Sample.origin Sample.alike true).on Sample.atlas).2
        Sample.origin Sample.alike' = true := by decide +kernel
  exact ⟨_, _, .call (.start Sample.plan Sample.disk) (Act.on_eq_ok .unsupported hrun.1),
    fun c hc => by rw [List.mem_singleton.1 hc], missed_of_misses hrun.2⟩

/-- Content of the same workspace, whose id another place had and gave up. -/
theorem missed_for_id :
    let a := ((indexText Sample.parse Sample.here Sample.function true).on Sample.atlas).2
    let b := ((indexText Sample.parse Sample.there Sample.function true).on a).2
    let c := ((indexText Sample.parse Sample.there "" true).on b).2
    Calls Sample.parse [⟨b, Sample.there, ""⟩, ⟨a, Sample.there, Sample.function⟩,
      ⟨Sample.atlas, Sample.here, Sample.function⟩] c ∧ Missed Sample.parse c Sample.here Sample.function := by
  intro a b c
  have hrun : ((indexText Sample.parse Sample.here Sample.function true).on Sample.atlas).1.toBool = true ∧
      ((indexText Sample.parse Sample.there Sample.function true).on a).1.toBool = true ∧
      ((indexText Sample.parse Sample.there "" true).on b).1.toBool = true ∧
      misses Sample.parse c Sample.here Sample.function = true := by decide +kernel
  have ha : Calls Sample.parse [⟨Sample.atlas, Sample.here, Sample.function⟩] a :=
    .call (.start Sample.plan Sample.disk) (Act.on_eq_ok .unsupported hrun.1)
  have hb := ha.call (Act.on_eq_ok .unsupported hrun.2.1)
  exact ⟨hb.call (Act.on_eq_ok .unsupported hrun.2.2.1), missed_of_misses hrun.2.2.2⟩

/-- Content that is reported as unchanged may lack its ids for the workspace that asks, for content
that merely has the same hash, and where two places have one id. -/
theorem Calls.ids_missed :
    (∃ calls a, Calls Sample.parse calls a ∧
      Missed Sample.parse a { Sample.origin with workspace := "ws2" } Sample.function) ∧
    (∃ calls a, Calls Sample.parseAlike calls a ∧ (∀ c ∈ calls, c.origin = Sample.origin) ∧
      Missed Sample.parseAlike a Sample.origin Sample.alike') ∧
    (∃ calls a, Calls Sample.parse calls a ∧
      (∀ c ∈ calls, c.origin.repo = Sample.here.repo → c.origin = Sample.here ∧ c.text = Sample.function) ∧
      Missed Sample.parse a Sample.here Sample.function) := by
  obtain ⟨hcalls, hmissed⟩ := missed_for_id
  refine ⟨missed_for_other_workspace, missed_for_hash, _, _, hcalls, fun c hc hrepo => ?_, hmissed⟩
  simp only [List.mem_cons, List.not_mem_nil, or_false] at hc
  rcases hc with rfl | rfl | rfl
  · exact absurd (Value.str.inj hrepo) (by decide)
  · exact absurd (Value.str.inj hrepo) (by decide)
  · exact ⟨rfl, rfl⟩

end Atlas

end SourceAtlas
