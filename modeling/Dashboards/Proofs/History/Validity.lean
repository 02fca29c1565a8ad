import Dashboards.Proofs.Document.Structure
import Dashboards.Proofs.History.Interchange
import Dashboards.Proofs.History.Preview
import Dashboards.Proofs.Outcomes

/-!
# Committed documents are valid

A commit stores what a valid simulation left, with the number of the new version put into it.  The
simulation has looked at the structure of the document before that, and the number changes nothing
about it.  So the document is valid as it is stored, in memory or in the versions table, and as
nothing that was stored is ever lost, it is still there whatever is asked of the archive later.
-/

namespace Dashboards

/-- What no answer takes away, a whole dialogue does not take away. -/
theorem Dialogue.run_keeps {Q σ α : Type} {Answer : Q → Type}
    {respond : (q : Q) → σ → Answer q × σ} {P : σ → Prop}
    (h : ∀ q s, P s → P (respond q s).2) (d : Dialogue Answer α) {s : σ} (hs : P s) :
    P (run respond d s).2 := by
  induction d generalizing s with
  | done a => exact hs
  | ask q next ih => exact ih _ (h q s hs)

/-- The new document of a valid simulation is valid. -/
theorem EditRules.newDocument_valid {rules : EditRules} {doc : Document} {version expected : Int}
    {ops : List Operation} (h : (rules.simulate doc version expected ops).valid = true) :
    ∃ new, (rules.simulate doc version expected ops).newDocument = some new ∧ new.Valid := by
  obtain ⟨rfl, new, hnew, happlied, hdocument⟩ := simulate_valid h
  have hissues := (simulate_cases rules doc expected ops).1.1 h
  rw [simulate_of_applied happlied, issues_judge, Patch.apply, hdocument] at hissues
  exact ⟨new, hnew, (Document.valid_iff _).2 (List.map_eq_nil_iff.1 hissues)⟩

namespace History

/-! ## 1. Records that were made -/

/-- A record is made of a positive number and an object. -/
theorem Record.of_make {version : Int} {document : Value} {createdAt : String}
    {author note : Option String} {rec : Record}
    (h : Record.make version document createdAt author note = .good rec) :
    1 ≤ version ∧ ∃ doc, Document.read document = .good doc ∧
      rec = ⟨version, doc, createdAt, author, note⟩ := by
  rw [Record.make, Shape.integerAtLeast_ofInt] at h
  cases hdoc : Document.read document with
  | bad faults =>
    rw [hdoc] at h
    split at h <;> cases h
  | good doc =>
    rw [hdoc] at h
    split at h
    · cases h
    · rename_i hpos
      exact ⟨Int.not_lt.1 hpos, doc, rfl, (Shape.Checked.good.inj h).symm⟩

theorem Table.Row.of_record {row : Row} {rec : Record} (h : row.record = .ok rec) :
    1 ≤ row.version ∧ rec.version = row.version := by
  have hmade : ∀ {document : Value} {made : Record},
      Record.make row.version document row.createdAt row.author row.note = .good made →
      1 ≤ row.version ∧ made.version = row.version := by
    intro document made hmake
    obtain ⟨hpos, doc, -, rfl⟩ := Record.of_make hmake
    exact ⟨hpos, rfl⟩
  rw [Row.record] at h
  -- The document is a text that has to be read first, or a tree already.
  split at h
  all_goals
    obtain ⟨document, -, h⟩ := exists_of_bind_eq_ok h
    dsimp only at h
    split at h
    · exact Except.ok.inj h ▸ hmade ‹_›
    · cases h

/-! ## 2. Commits to an archive -/

namespace Conversation

variable {τ : Type} {respond : (q : Question) → τ → Answer q × τ} {rules : EditRules} {id : String}
  {expected : Int} {ops : List Operation} {author note : Option String} {rec : Record}
  {s : Simulation} {a a' : τ}

/-- A commit succeeds exactly if its patch is approved and the archive then takes its document. -/
theorem run_commit_eq_ok_iff :
    Dialogue.run respond (commit rules id expected ops author note).run a = (.ok (rec, s), a') ↔
      ∃ (latest : Record) (a₁ : τ) (new : Document), respond (.current id) a = (.ok latest, a₁) ∧
        approve rules latest expected ops = .ok (.obj new, s) ∧
        respond (.commit id latest.version ⟨.obj new, author, note⟩) a₁ = (.ok rec, a') := by
  rw [run_commit]
  constructor
  · intro h
    rcases hcurrent : respond (.current id) a with ⟨f | latest, a₁⟩
    · rw [hcurrent] at h
      cases h
    rw [hcurrent] at h
    dsimp only at h
    split at h
    · cases h
    · rename_i happrove
      obtain ⟨-, -, new, -, -, rfl⟩ := approve_eq_ok_iff.1 happrove
      split at h
      · cases h
        exact ⟨latest, a₁, new, rfl, happrove, ‹_›⟩
      · cases h
  · rintro ⟨latest, a₁, new, hcurrent, happrove, hstored⟩
    rw [hcurrent]
    dsimp only
    rw [happrove]
    dsimp only
    rw [hstored]

/-- A commit that succeeds has handed a valid document to the archive. -/
theorem of_commit
    (h : Dialogue.run respond (commit rules id expected ops author note).run a =
      (.ok (rec, s), a')) :
    ∃ (expected' : Int) (new : Document) (a₁ : τ), new.Valid ∧
      respond (.commit id expected' ⟨.obj new, author, note⟩) a₁ = (.ok rec, a') := by
  obtain ⟨latest, a₁, new, -, happrove, hstored⟩ := run_commit_eq_ok_iff.1 h
  obtain ⟨hsimulated, hvalid, new₁, hnew, -, hcopy⟩ := approve_eq_ok_iff.1 happrove
  obtain rfl : new = new₁ := Value.obj.inj hcopy
  obtain rfl := dryRun_eq_ok hsimulated
  obtain ⟨new', hnew', hsound⟩ := EditRules.newDocument_valid hvalid
  obtain rfl : new' = new := Option.some.inj (hnew'.symm.trans hnew)
  exact ⟨_, _, _, hsound, hstored⟩

end Conversation

/-! ## 3. The registry -/

namespace Registry

variable {r r' : Registry} {id : String} {rec : Record}

theorem recordsOf_of_find {records : List Record} (h : r.find id = .ok records) :
    r.recordsOf id = records := by
  rw [find] at h
  rw [recordsOf]
  split at h
  · rename_i kept hkept
    rw [hkept]
    exact Except.ok.inj h
  · cases h

theorem mem_recordsOf_store {id' : String} {records : List Record} (h : rec ∈ r.recordsOf id)
    (hrecords : id' = id → rec ∈ records) : rec ∈ (r.store id' records).recordsOf id := by
  by_cases hid : id' = id
  · subst hid
    rw [recordsOf, store, Members.get?_set_self]
    exact hrecords rfl
  · rw [recordsOf, store, Members.get?_set_of_ne _ _ (Ne.symm hid)]
    exact h

/-- No record is lost, whatever the registry is asked. -/
theorem mem_recordsOf_respond (q : Question) (h : rec ∈ r.recordsOf id) :
    rec ∈ (respond q r).2.recordsOf id := by
  cases q with
  | create id' first =>
    show rec ∈ (r.create id' first).2.recordsOf id
    rw [create]
    split
    · exact h
    · rename_i hnew
      -- Only the clock moves on, and a dashboard without a history has no record to lose.
      have hkept : rec ∈ (r.record 1 first).2.recordsOf id := h
      have habsent : id' ≠ id := by
        rintro rfl
        rw [recordsOf, Option.not_isSome_iff_eq_none.1 hnew] at h
        cases h
      generalize r.record 1 first = made at hkept ⊢
      rcases made with ⟨f | made, r₁⟩
      · exact hkept
      · exact mem_recordsOf_store hkept fun hid => absurd hid habsent
  | commit id' expected next =>
    show rec ∈ (r.commit id' expected next).2.recordsOf id
    rw [commit]
    rcases hfind : r.find id' with f | records
    · exact h
    rcases r.current id' with f | latest
    · exact h
    dsimp only
    split
    · exact h
    · have hkept : rec ∈ (r.record (latest.version + 1) next).2.recordsOf id := h
      generalize r.record (latest.version + 1) next = made at hkept ⊢
      rcases made with ⟨f | made, r₁⟩
      · exact hkept
      · refine mem_recordsOf_store hkept ?_
        rintro rfl
        rw [recordsOf_of_find hfind] at h
        exact List.mem_append_left _ h
  | _ => exact h

/-- A commit that succeeds has stored its document as the one of its record. -/
theorem stored_of_commit {expected : Int} {doc : Document} {author note : Option String}
    (h : r.commit id expected ⟨.obj doc, author, note⟩ = (.ok rec, r')) :
    rec ∈ r'.recordsOf id ∧ rec.document = doc.stamped (expected + 1) := by
  rw [commit] at h
  generalize r.find id = found at h
  rcases found with f | records
  · cases h
  generalize r.current id = last at h
  rcases last with f | latest
  · cases h
  dsimp only at h
  split at h
  · cases h
  · rename_i hversion
    obtain rfl : expected = latest.version := not_not.1 hversion
    rw [record, stamp_obj] at h
    cases hmake : Record.make (latest.version + 1) (.obj (doc.stamped (latest.version + 1)))
        r.clock.text author note with
    | bad faults =>
      rw [hmake] at h
      cases h
    | good made =>
      rw [hmake] at h
      obtain ⟨hok, rfl⟩ := Prod.mk.inj h
      obtain rfl : made = rec := Except.ok.inj hok
      obtain ⟨-, read, hread, rfl⟩ := Record.of_make hmake
      rw [Document.read_obj] at hread
      refine ⟨?_, (Shape.Checked.good.inj hread).symm⟩
      rw [recordsOf, store, Members.get?_set_self]
      exact List.mem_append_right _ List.mem_cons_self

end Registry

/-! ## 4. The versions table -/

namespace Table

variable {σ : Type} {reply : (c : Call) → σ → Reply c × σ} {table : σ → List Entry} {id : String}
  {expected : Int} {a a' : Archive σ} {e : Entry}

theorem Answers.mem {entries after : List Entry} {c : Call} {answer : Reply c}
    (h : Answers entries c answer after) (he : e ∈ entries) : e ∈ after := by
  cases h with
  | inserted => exact List.mem_append_left _ he
  | _ => exact he

/-- No entry is lost, whatever the archive is asked. -/
theorem mem_respond (hobeys : Obeys reply table) (q : Question) (he : e ∈ table a.database) :
    e ∈ table (respond reply q a).2.database := by
  have hhold : ∀ {α : Type} (s : Session α), e ∈ table (a.hold reply s).2.database := fun s =>
    Dialogue.run_keeps (P := fun s => e ∈ table s) (fun c s hs => (hobeys c s).mem hs) s.run he
  cases q with
  | freshId => exact he
  | _ => exact hhold _

theorem Archive.hold_bind {α β : Type} (a : Archive σ) (s : Session α) (k : α → Session β) :
    a.hold reply (s >>= k) =
      match a.hold reply s with
      | (.ok x, a') => a'.hold reply (k x)
      | (.error f, a') => (.error f, a') := by
  have hrun : Dialogue.run reply (s >>= k).run a.database =
      Dialogue.run reply (s.run >>= ExceptT.bindCont k) a.database := rfl
  rw [Archive.hold, hrun, Dialogue.run_bind, Archive.hold]
  rcases Dialogue.run reply s.run a.database with ⟨_ | x, s'⟩ <;> rfl

/-- A session that runs into the row of another writer does not succeed. -/
theorem hold_conflict {α β : Type} (a : Archive σ) (k : α → Session β) :
    ∃ f a', a.hold reply (conflict id expected >>= k) = (.error f, a') := by
  rw [conflict, Archive.hold_bind, Archive.hold_bind]
  rcases a.hold reply (send (.greatest id)) with ⟨f | greatest, a'⟩
  · exact ⟨f, a', rfl⟩
  · exact ⟨_, a', rfl⟩

/-- A commit that succeeds has inserted its document, and its record is that of the row. -/
theorem stored_of_commit (hobeys : Obeys reply table) {doc : Document} {author note : Option String}
    {rec : Record}
    (h : respond reply (.commit id expected ⟨.obj doc, author, note⟩) a = (.ok rec, a')) :
    Entry.of id (expected + 1) ⟨.obj doc, author, note⟩ ∈ table a'.database ∧
      ∃ row : Row, row.HandsBack (Entry.of id (expected + 1) ⟨.obj doc, author, note⟩) ∧
        row.record = .ok rec := by
  have hcommit : respond reply (.commit id expected ⟨.obj doc, author, note⟩) a =
      a.hold reply (commit id expected ⟨.obj doc, author, note⟩) := rfl
  obtain ⟨s₂, row?, -, hhold, hread⟩ := hobeys.hold_commit a id expected ⟨.obj doc, author, note⟩
  rw [hcommit, hhold] at h
  obtain ⟨rfl, -⟩ | ⟨e, row, rfl, -⟩ := hread
  · cases h
  dsimp only [commitOnto] at h
  split at h
  · cases h
  obtain ⟨answer, s₃, hanswers, hhold⟩ := hobeys.hold { a with database := s₂ }
    (insertion id (expected + 1) ⟨.obj doc, author, note⟩) (conflict id expected) (handed .noRow)
  rw [hhold] at h
  have hinsert := hanswers.of_insert
  split at hinsert
  -- The row is there already, or it is inserted and handed back.
  · obtain ⟨rfl, -⟩ := hinsert
    obtain ⟨f, b, hconflict⟩ :=
      @hold_conflict σ reply id expected _ _ { a with database := s₃ } (handed .noRow)
    exact absurd (hconflict.symm.trans h) nofun
  · obtain ⟨row, hrow, rfl, htable⟩ := hinsert
    obtain ⟨hrecord, hend⟩ := Prod.mk.inj h
    refine ⟨?_, row, hrow, hrecord⟩
    rw [← hend, htable]
    exact List.mem_append_right _ List.mem_cons_self

/-- An entry of the table in which a record is kept with a valid document. -/
structure Entry.Preserves (e : Entry) (id : String) (rec : Record) (doc : Document) : Prop where
  id : e.id = id
  version : e.version = rec.version
  document : e.document = Json.line (.spaced true) (.obj doc)
  valid : doc.Valid
  /-- Unless it is nested too deeply or holds an integer with too many digits, the document is read
  back from the entry, and is the one of the record. -/
  readBack : (Value.obj doc).Legible Excess.textDepth →
    Json.read e.document = .ok (.obj doc) ∧ rec.document = doc

/-- The row of a valid document hands it back. -/
theorem Entry.preserves_of_record {version : Int} {doc : Document} {author note : Option String}
    {row : Row} {rec : Record} (hvalid : doc.Valid)
    (hrow : row.HandsBack (Entry.of id version ⟨.obj doc, author, note⟩))
    (hrecord : row.record = .ok rec) :
    (Entry.of id version ⟨.obj doc, author, note⟩).Preserves id rec (doc.stamped version) := by
  obtain ⟨hpos, hversion⟩ := Row.of_record hrecord
  refine ⟨rfl, (hversion.trans hrow.version).symm, rfl, hvalid.stamped version, fun hlegible => ?_⟩
  have hfinite : (Value.obj (doc.stamped version)).Orderly (·.isFinite = true) :=
    Value.orderly_of_numbers hlegible.distinct (hvalid.stamped version).finite
  have hread : Json.read (Entry.of id version ⟨.obj doc, author, note⟩).document =
      .ok (.obj (doc.stamped version)) := Json.read_line hlegible hfinite
  refine ⟨hread, ?_⟩
  rw [Row.record_of_reads (hrow.document _ hread) hpos] at hrecord
  rw [← Except.ok.inj hrecord]

end Table

/-! ## 5. Every commit -/

/-- Every committed version is structurally valid as it is stored.  Whatever the rules, the patch and
what was asked before and after, the record of a commit that succeeds stays in the registry with a
valid document, and likewise its entry in the versions table. -/
theorem committed_valid (rules : EditRules) (id : String) (expected : Int) (ops : List Operation)
    (author note : Option String) :
    (∀ (r r' : Registry) (rec : Record) (s : Simulation),
      r.converse (Conversation.commit rules id expected ops author note) = (.ok (rec, s), r') →
      rec.document.Valid ∧
        ∀ {α : Type} (later : Conversation α), rec ∈ (r'.converse later).2.recordsOf id) ∧
    ∀ {σ : Type} (reply : (c : Table.Call) → σ → Table.Reply c × σ) (table : σ → List Table.Entry),
      Table.Obeys reply table → ∀ (a a' : Table.Archive σ) (rec : Record) (s : Simulation),
      a.converse reply (Conversation.commit rules id expected ops author note) =
        (.ok (rec, s), a') →
      ∃ (doc : Document) (e : Table.Entry), e.Preserves id rec doc ∧
        ∀ {α : Type} (later : Conversation α), e ∈ table (a'.converse reply later).2.database := by
  constructor
  · intro r r' rec s h
    obtain ⟨expected', new, r₁, hvalid, hstored⟩ := Conversation.of_commit h
    obtain ⟨hmem, hdocument⟩ := Registry.stored_of_commit hstored
    refine ⟨hdocument ▸ hvalid.stamped _, fun later => ?_⟩
    exact Dialogue.run_keeps (P := fun r : Registry => rec ∈ r.recordsOf id)
      (fun q r => Registry.mem_recordsOf_respond q) later.run hmem
  · intro σ reply table hobeys a a' rec s h
    obtain ⟨expected', new, a₁, hvalid, hstored⟩ := Conversation.of_commit h
    obtain ⟨hmem, row, hrow, hrecord⟩ := Table.stored_of_commit hobeys hstored
    refine ⟨_, _, Table.Entry.preserves_of_record hvalid hrow hrecord, fun later => ?_⟩
    exact Dialogue.run_keeps (P := fun a : Table.Archive σ => _ ∈ table a.database)
      (fun q a => Table.mem_respond hobeys q) later.run hmem

/-- A dashboard in a registry, and its row in a versions table. -/
def oneDashboard : Registry :=
  (Registry.empty ⟨0⟩).after [.create (some "sales") [("title", .str "Sales")] none none]

def oneEntry : List Table.Entry := [.of "sales" 1 ⟨.obj [("title", .str "Sales")], none, none⟩]

/-- A commit of a new title and a first KPI, made for version 1. -/
def extendingCommit : Conversation (Record × Simulation) :=
  Conversation.commit ⟨.default, 5, none⟩ "sales" 1
    [⟨.replace, "/title", .str "Sales 2", none⟩,
      ⟨.add, "/kpis", .arr [.obj [("key", .str "cpl")]], none⟩] none none

/-- What the patch leaves, before the number of the new version is put into it. -/
def extendedDocument : Document :=
  [("title", .str "Sales 2"), ("version", .ofInt 1), ("kpis", .arr [.obj [("key", .str "cpl")]])]

/-- The record of that row. -/
def oneRecord : Record :=
  ⟨1, [("title", .str "Sales"), ("version", .ofInt 1)], "2024-03-01T09:00:00+00:00", none, none⟩

theorem current_oneEntry : Table.respond Table.serve (.current "sales") ⟨oneEntry, 0⟩ =
    (.ok oneRecord, ⟨oneEntry, 0⟩) := by
  with_unfolding_all rfl

theorem commit_oneEntry : ∃ rec a, Table.respond Table.serve
    (.commit "sales" 1 ⟨.obj extendedDocument, none, none⟩) ⟨oneEntry, 0⟩ = (.ok rec, a) :=
  ⟨_, _, by with_unfolding_all rfl⟩

/-- The commit succeeds in the registry and in a table that is a list, so its document is valid in
both. -/
theorem committed_valid_extending :
    (∃ rec s r', oneDashboard.converse extendingCommit = (.ok (rec, s), r') ∧
        rec.document.Valid) ∧
      ∃ rec s a', Table.Archive.converse Table.serve extendingCommit ⟨oneEntry, 0⟩ =
        (.ok (rec, s), a') ∧ ∃ doc e, Table.Entry.Preserves e "sales" rec doc := by
  obtain ⟨inRegistry, inTable⟩ := committed_valid ⟨.default, 5, none⟩ "sales" 1
    [⟨.replace, "/title", .str "Sales 2", none⟩,
      ⟨.add, "/kpis", .arr [.obj [("key", .str "cpl")]], none⟩] none none
  obtain ⟨rec, s, r', hregistry⟩ :
      ∃ rec s r', oneDashboard.converse extendingCommit = (.ok (rec, s), r') := ⟨_, _, _, rfl⟩
  obtain ⟨rec', a', hstored⟩ := commit_oneEntry
  have htable : ∃ s', Table.Archive.converse Table.serve extendingCommit ⟨oneEntry, 0⟩ =
      (.ok (rec', s'), a') :=
    ⟨_, Conversation.run_commit_eq_ok_iff.2
      ⟨oneRecord, _, extendedDocument, current_oneEntry, rfl, hstored⟩⟩
  obtain ⟨s', htable⟩ := htable
  obtain ⟨doc, e, hkept, -⟩ := inTable _ _ Table.obeys_serve _ _ _ _ htable
  exact ⟨⟨rec, s, r', hregistry, (inRegistry _ _ _ _ hregistry).1⟩, rec', s', a', htable, doc, e,
    hkept⟩

end History

end Dashboards
