import Dashboards.Proofs.History.Validity
import Dashboards.Proofs.Service.Errands
import Dashboards.Proofs.Text.Cutting
import Dashboards.Proofs.Text.Octets

/-!
# Only authorised edits change dashboards

A request changes the histories of dashboards only as an edit: a creation starts the history of one
dashboard, a commit or a rollback adds one record to one history, and the record names the caller.
It makes no difference what the collaborator replies, nor whether the histories are kept in memory or
in the versions table.
-/

namespace Dashboards

open History

namespace History

/-! ## 1. Questions to the registry -/

namespace Registry

variable {r : Registry} {id : String}

theorem histories_of_reads {q : Question} (h : q.Reads) (r : Registry) :
    (respond q r).2.histories = r.histories := by
  cases q with
  | create | commit => exact h.elim
  | _ => rfl

/-- A dashboard is created with one record, made of the draft, or nothing is written. -/
theorem kept_or_created (r : Registry) (id : String) (first : Draft) :
    (∃ f r', r.create id first = (.error f, r') ∧ r'.histories = r.histories) ∨
      r.histories.get? id = none ∧ ∃ rec r', r.create id first = (.ok (), r') ∧
        Record.make 1 (stamp first.document 1) r.clock.text first.author first.note = .good rec ∧
        r'.histories = r.histories.set id [rec] := by
  rw [create]
  split
  · exact .inl ⟨_, _, rfl, rfl⟩
  · rename_i hnew
    rw [record]
    cases hmake : Record.make 1 (stamp first.document 1) r.clock.text first.author first.note with
    | bad faults => exact .inl ⟨_, _, rfl, rfl⟩
    | good rec => exact .inr ⟨Option.not_isSome_iff_eq_none.1 hnew, rec, _, rfl, rfl, rfl⟩

/-- A commit adds one record, made of the draft, or nothing is written. -/
theorem kept_or_extended (r : Registry) (id : String) (expected : Int) (next : Draft) :
    (∃ f r', r.commit id expected next = (.error f, r') ∧ r'.histories = r.histories) ∨
      ∃ records rec r', r.histories.get? id = some records ∧
        r.commit id expected next = (.ok rec, r') ∧ rec.author = next.author ∧
        rec.note = next.note ∧ r'.histories = r.histories.set id (records ++ [rec]) := by
  rw [commit]
  cases hkept : r.histories.get? id with
  | none =>
    rw [find, hkept]
    exact .inl ⟨_, _, rfl, rfl⟩
  | some records =>
    rw [find_of_kept hkept]
    cases r.current id with
    | error f => exact .inl ⟨_, _, rfl, rfl⟩
    | ok latest =>
      dsimp only
      split
      · exact .inl ⟨_, _, rfl, rfl⟩
      rw [record]
      cases hmake : Record.make (latest.version + 1) (stamp next.document (latest.version + 1))
          r.clock.text next.author next.note with
      | bad faults => exact .inl ⟨_, _, rfl, rfl⟩
      | good rec =>
        obtain ⟨-, doc, -, rfl⟩ := Record.of_make hmake
        exact .inr ⟨records, _, _, rfl, rfl, rfl, rfl, rfl⟩

end Registry

/-! ## 2. Questions to the versions table -/

namespace Table

open Dialogue

/-- A call that leaves the table as it is. -/
def Call.Reads : Call → Prop
  | .insert .. => False
  | _ => True

section Sessions

variable {α : Type} {writes : Call → Prop} {m n : Nat} {id : String} {expected : Int} {next : Draft}

theorem within_attempt {c : Call} {taken : Session (Payload c)}
    (hc : (question c : Dialogue Reply (Reply c)).Within Call.Reads writes m)
    (htaken : taken.run.Within Call.Reads writes n) :
    (attempt c taken).run.Within Call.Reads writes (m + n) := by
  refine hc.lift.andThen (n := n) fun reply => ?_
  cases reply with
  | ok payload => exact within_done _
  | error violation => exact htaken

theorem within_send (c : Call) (hc : c.Reads) : (send c).run.Within Call.Reads writes 0 :=
  within_attempt (m := 0) (n := 0) (within_read hc) (within_done _)

theorem within_handed {absent : Fault} (row? : Option Row) :
    (handed absent row?).run.Within Call.Reads writes 0 := by
  cases row? <;> exact within_done _

theorem within_find : (find id).run.Within Call.Reads writes 0 := by
  refine (within_send (.exists id) trivial).andThen (n := 0) fun found => ?_
  cases found <;> exact within_done _

theorem within_current : (current id).run.Within Call.Reads writes 0 := by
  rw [current_eq]
  exact (within_send (.latest id false) trivial).andThen (n := 0) within_handed

theorem within_version {number : Int} : (version id number).run.Within Call.Reads writes 0 := by
  rw [version_eq]
  exact (within_send (.version id number) trivial).andThen (n := 0) within_handed

theorem within_newest {limit : Int} : (newest id limit).run.Within Call.Reads writes 0 :=
  (within_send (.newest id (max limit 0)) trivial).andThen (n := 0) fun rows =>
    Within.mapM (fun _ => within_done _) rows

theorem within_conflict : (conflict id expected : Session α).run.Within Call.Reads writes 0 :=
  (within_send (.greatest id) trivial).andThen (n := 0) fun _ => within_done _

/-- A creation sends one insertion. -/
theorem within_create :
    (create id next).run.Within Call.Reads (· = insertion id 1 next) 1 := by
  have hinsert : (attempt (insertion id 1 next) (throw (.takenId id))).run.Within Call.Reads
      (· = insertion id 1 next) 1 := within_attempt (n := 0) (within_write rfl) (within_done _)
  exact hinsert.andThen (n := 0) fun _ => within_done _

/-- A commit sends one insertion at most. -/
theorem within_commit :
    (commit id expected next).run.Within Call.Reads (· = insertion id (expected + 1) next) 1 := by
  have hinsert : (attempt (insertion id (expected + 1) next) (conflict id expected)).run.Within
      Call.Reads (· = insertion id (expected + 1) next) 1 :=
    within_attempt (n := 0) (within_write rfl) within_conflict
  have honto : ∀ row?, (commitOnto id expected next row?).run.Within Call.Reads
      (· = insertion id (expected + 1) next) 1 := by
    intro row?
    cases row? with
    | none => exact within_done _
    | some latest =>
      rw [commitOnto]
      split
      · exact within_done _
      · exact hinsert.andThen (n := 0) within_handed
  rw [commit_eq]
  exact (within_send .begin trivial).andThen (n := 1) fun _ =>
    (within_attempt (c := .latest id true) (m := 0) (n := 0) (within_read trivial)
      within_conflict).andThen (n := 1) honto

end Sessions

section Obeying

variable {α σ : Type} {reply : (c : Call) → σ → Reply c × σ} {table : σ → List Entry} {id : String}

theorem Answers.eq_of_reads {entries after : List Entry} {c : Call} {answer : Reply c}
    (h : Answers entries c answer after) (hc : c.Reads) : after = entries := by
  cases h with
  | inserted | refused => exact hc.elim
  | _ => rfl

theorem table_of_reads (hobeys : Obeys reply table) {q : Question} (hq : q.Reads) (a : Archive σ) :
    table (respond reply q a).2.database = table a.database := by
  have hread : ∀ c s, c.Reads → table (reply c s).2 = table s := fun c s => (hobeys c s).eq_of_reads
  have hhold : ∀ {β : Type} {s : Session β}, s.run.Within Call.Reads (fun _ => False) 0 →
      table (a.hold reply s).2.database = table a.database := fun h => h.kept_run table hread a.database
  cases q with
  | create | commit => exact hq.elim
  | freshId => rfl
  | find => exact hhold within_find
  | current => exact hhold within_current
  | version => exact hhold within_version
  | newest => exact hhold within_newest

/-- A session with one insertion adds the entry, whose key is new, or the table is as before. -/
theorem kept_or_inserted (hobeys : Obeys reply table) {s : Session α} {v : Int} {d : Draft}
    (h : s.run.Within Call.Reads (· = insertion id v d) 1) (a : Archive σ) :
    table (a.hold reply s).2.database = table a.database ∨
      v ∉ versions (table a.database) id ∧
        table (a.hold reply s).2.database = table a.database ++ [Entry.of id v d] := by
  have hread : ∀ c s, c.Reads → table (reply c s).2 = table s := fun c s => (hobeys c s).eq_of_reads
  obtain hsame | ⟨_, s', rfl, hs', hleft⟩ := h.kept_run_once table hread a.database
  · exact .inl hsame
  have hinsert := (hobeys (insertion id v d) s').of_insert
  rw [hs'] at hinsert
  split at hinsert
  · exact .inl (hleft.trans hinsert.2)
  · rename_i hnew
    obtain ⟨row, -, -, hadded⟩ := hinsert
    exact .inr ⟨hnew, hleft.trans hadded⟩

end Obeying

end Table

end History

namespace Service

/-! ## 3. Edits -/

/-- Carries out the errands of the service: an archive answers its questions, and a collaborator
replies from a state of its own. -/
def carry {σ κ : Type} (respond : (q : Question) → σ → Answer q × σ)
    (reply : Completion.Request → κ → Completion.Reply × κ) :
    (e : Errand) → σ × κ → e.Reply × (σ × κ)
  | .archive q, (a, k) => ((respond q a).1, (respond q a).2, k)
  | .collaborator c, (a, k) => ((reply c k).1, a, (reply c k).2)

/-- A request that is let in for an edit: it is posted to a path that is there for edits, to a service
with an archive.  Where identities are required, the sender has one that is not empty and the role of
an editor. -/
structure State.Admits (s : State) (r : Request) (route : Route) : Prop where
  method : r.method = "POST"
  path : Route.ofSegments? r.target.segments = some route
  archive : s.hasArchive = true
  identity : s.settings.requireIdentity = true → ∃ id, r.header? "x-user-id" = some id ∧ id ≠ ""
  role : s.settings.requireIdentity = true →
    ∃ role ∈ s.settings.editorRoles, r.header? "x-user-role" = some role

/-- What an edit leaves of the histories, all others being as before: a creation starts one, and a
commit or a rollback adds one record to one. -/
inductive Route.Edited (author : Option String) (before : Members (List Record)) :
    Route → Members (List Record) → Prop
  | created {id : String} {rec : Record} (hnew : before.get? id = none) (hversion : rec.version = 1)
      (hauthor : rec.author = author) : Edited author before .create (before.set id [rec])
  | committed {id : String} {records : List Record} {rec : Record}
      (hkept : before.get? id = some records) (hauthor : rec.author = author) :
      Edited author before (.commit id) (before.set id (records ++ [rec]))
  | rolledBack {id : String} {records : List Record} {rec : Record}
      (hkept : before.get? id = some records) (hauthor : rec.author = author) :
      Edited author before (.rollback id) (before.set id (records ++ [rec]))

/-- What an edit leaves of the entries in the versions table: there is one more, whose key is new. -/
inductive Route.Entered (author : Option String) (before : List Table.Entry) :
    Route → List Table.Entry → Prop
  | created {id text : String} {note : Option String} (hnew : 1 ∉ Table.versions before id) :
      Entered author before .create (before ++ [⟨id, 1, text, author, note⟩])
  | committed {id text : String} {v : Int} {note : Option String}
      (hnew : v ∉ Table.versions before id) :
      Entered author before (.commit id) (before ++ [⟨id, v, text, author, note⟩])
  | rolledBack {id text : String} {v : Int} {note : Option String}
      (hnew : v ∉ Table.versions before id) :
      Entered author before (.rollback id) (before ++ [⟨id, v, text, author, note⟩])

theorem State.Permits.admits {s : State} {r : Request} {q : Question} (h : s.Permits r q) :
    ∃ route, s.Admits r route ∧ route.Writes (r.header? "x-user-id") q := by
  obtain ⟨⟨route, hlead, hq⟩, harchive, hcaller⟩ := h
  obtain ⟨hpath, hmethod⟩ := of_lead_eq_route hlead
  refine ⟨route, ⟨?_, hpath, harchive, fun hrequired => ?_, fun hrequired => ?_⟩, hq⟩
  · rw [← hmethod]
    cases route with
    | create | commit | rollback => rfl
    | _ => exact hq.elim
  · obtain ⟨id, hid⟩ := Option.isSome_iff_exists.1 (hcaller hrequired).1
    obtain ⟨hid, hnonempty⟩ := Option.filter_eq_some_iff.1 hid
    exact ⟨id, hid, of_decide_eq_true hnonempty⟩
  · obtain ⟨role, hrole, hcontained⟩ := (Option.any_eq_true _ _).1 (hcaller hrequired).2
    exact ⟨role, List.contains_iff_mem.1 hcontained, hrole⟩

/-- What questions that only read keep, errands that only read keep. -/
theorem kept_carry {σ κ τ : Type} {respond : (q : Question) → σ → Answer q × σ} {kept : σ → τ}
    (hread : ∀ q a, q.Reads → kept (respond q a).2 = kept a)
    (reply : Completion.Request → κ → Completion.Reply × κ) (e : Errand) (s : σ × κ) (he : e.Reads) :
    kept (carry respond reply e s).2.1 = kept s.1 := by
  cases e with
  | archive q => exact hread q s.1 he
  | collaborator c => rfl

/-- Whatever keeps the histories where questions only read keeps them over a whole request, apart from
what one question left that the request was permitted to put. -/
theorem State.kept_run_receive {σ κ τ : Type} {respond : (q : Question) → σ → Answer q × σ}
    (kept : σ → τ) (hread : ∀ q a, q.Reads → kept (respond q a).2 = kept a) (s : State) (now : Float)
    (r : Request) (reply : Completion.Request → κ → Completion.Reply × κ) (a : σ) (k : κ) :
    let after := ((s.receive now r).1.run (carry respond reply) (a, k)).2.1
    kept after = kept a ∨ ∃ q a', s.Permits r q ∧ kept a' = kept a ∧
      kept after = kept (respond q a').2 := by
  obtain hsame | ⟨e, ⟨a', k'⟩, he, hkept, hleft⟩ := (s.within_receive now r).kept_run_once
    (fun s : σ × κ => kept s.1) (kept_carry hread reply) (a, k)
  · exact .inl hsame
  · cases e with
    | archive q => exact .inr ⟨q, a', he, hkept, hleft⟩
    | collaborator c => exact he.elim

/-- A question that writes on a route leaves the histories as they are, or as an edit of the route
leaves them. -/
theorem Route.Writes.edited {route : Route} {author : Option String} {q : Question}
    (h : route.Writes author q) (registry : Registry) :
    (Registry.respond q registry).2.histories = registry.histories ∨
      route.Edited author registry.histories (Registry.respond q registry).2.histories := by
  have hcommit : ∀ (id : String) (expected : Int) (next : Draft),
      (registry.commit id expected next).2.histories = registry.histories ∨
        ∃ records rec, registry.histories.get? id = some records ∧ rec.author = next.author ∧
          (registry.commit id expected next).2.histories =
            registry.histories.set id (records ++ [rec]) := by
    intro id expected next
    obtain ⟨f, after, hcommit, hsame⟩ | ⟨records, rec, after, hkept, hcommit, hauthor, -, hset⟩ :=
      registry.kept_or_extended id expected next
    · exact .inl (by rw [hcommit, hsame])
    · exact .inr ⟨records, rec, hkept, hauthor, by rw [hcommit, hset]⟩
  cases route with
  | create =>
    cases q with
    | create id first =>
      show (registry.create id first).2.histories = _ ∨
        Route.Edited author _ .create (registry.create id first).2.histories
      obtain ⟨f, after, hcreate, hsame⟩ | ⟨hnew, rec, after, hcreate, hmake, hset⟩ :=
        registry.kept_or_created id first
      · exact .inl (by rw [hcreate, hsame])
      · obtain ⟨-, doc, -, rfl⟩ := Record.of_make hmake
        rw [hcreate, hset]
        exact .inr (.created hnew rfl h)
    | _ => exact h.elim
  | commit id =>
    cases q with
    | commit id' expected next =>
      obtain ⟨rfl, hauthor⟩ := h
      obtain hsame | ⟨records, rec, hkept, hrec, hset⟩ := hcommit id' expected next
      · exact .inl hsame
      · exact .inr (hset ▸ .committed hkept (hrec.trans hauthor))
    | _ => exact h.elim
  | rollback id =>
    cases q with
    | commit id' expected next =>
      obtain ⟨rfl, hauthor⟩ := h
      obtain hsame | ⟨records, rec, hkept, hrec, hset⟩ := hcommit id' expected next
      · exact .inl hsame
      · exact .inr (hset ▸ .rolledBack hkept (hrec.trans hauthor))
    | _ => exact h.elim
  | _ => exact h.elim

/-- The same of a table whose database does what its statements say. -/
theorem Route.Writes.entered {σ : Type} {query : (c : Table.Call) → σ → Table.Reply c × σ}
    {table : σ → List Table.Entry} (hobeys : Table.Obeys query table) {route : Route}
    {author : Option String} {q : Question} (h : route.Writes author q) (a : Table.Archive σ) :
    table (Table.respond query q a).2.database = table a.database ∨
      route.Entered author (table a.database) (table (Table.respond query q a).2.database) := by
  cases route with
  | create =>
    cases q with
    | create id first =>
      cases h
      obtain hsame | ⟨hnew, hadded⟩ := Table.kept_or_inserted hobeys Table.within_create a
      · exact .inl hsame
      · exact .inr (hadded.symm ▸ .created hnew)
    | _ => exact h.elim
  | commit id =>
    cases q with
    | commit id' expected next =>
      obtain ⟨rfl, rfl⟩ := h
      obtain hsame | ⟨hnew, hadded⟩ := Table.kept_or_inserted hobeys Table.within_commit a
      · exact .inl hsame
      · exact .inr (hadded.symm ▸ .committed hnew)
    | _ => exact h.elim
  | rollback id =>
    cases q with
    | commit id' expected next =>
      obtain ⟨rfl, rfl⟩ := h
      obtain hsame | ⟨hnew, hadded⟩ := Table.kept_or_inserted hobeys Table.within_commit a
      · exact .inl hsame
      · exact .inr (hadded.symm ▸ .rolledBack hnew)
    | _ => exact h.elim
  | _ => exact h.elim

/-- Only authorised edits change dashboards.  After any request, and whatever the collaborator replies,
the histories are as they were, or the request was let in as an edit and has created one dashboard or
added one record to one, in the name of the sender.  This holds of the histories in memory, and of the
entries of a versions table. -/
theorem edits_of_receive (s : State) (now : Float) (r : Request) {κ : Type}
    (reply : Completion.Request → κ → Completion.Reply × κ) (k : κ) :
    (∀ before : Registry,
      let after := ((s.receive now r).1.run (carry Registry.respond reply) (before, k)).2.1
      after.histories = before.histories ∨ ∃ route, s.Admits r route ∧
        route.Edited (r.header? "x-user-id") before.histories after.histories) ∧
    ∀ {σ : Type} {query : (c : Table.Call) → σ → Table.Reply c × σ} {table : σ → List Table.Entry},
      Table.Obeys query table → ∀ before : Table.Archive σ,
      let after := ((s.receive now r).1.run (carry (Table.respond query) reply) (before, k)).2.1
      table after.database = table before.database ∨ ∃ route, s.Admits r route ∧
        route.Entered (r.header? "x-user-id") (table before.database) (table after.database) := by
  constructor
  · intro before
    obtain hsame | ⟨q, a, hpermits, hkept, hleft⟩ := State.kept_run_receive
      Registry.histories (fun q a hq => Registry.histories_of_reads hq a) s now r reply before k
    · exact .inl hsame
    obtain ⟨route, hadmits, hwrites⟩ := hpermits.admits
    obtain hsame | hedited := hwrites.edited a
    · exact .inl (hleft.trans (hsame.trans hkept))
    · exact .inr ⟨route, hadmits, by rw [← hkept, hleft]; exact hedited⟩
  · intro σ query table hobeys before
    obtain hsame | ⟨q, a, hpermits, hkept, hleft⟩ := State.kept_run_receive
      (fun a : Table.Archive σ => table a.database)
      (fun q a hq => Table.table_of_reads hobeys hq a) s now r reply before k
    · exact .inl hsame
    obtain ⟨route, hadmits, hwrites⟩ := hpermits.admits
    obtain hsame | hentered := hwrites.entered hobeys a
    · exact .inl (hleft.trans (hsame.trans hkept))
    · exact .inr ⟨route, hadmits, by rw [← hkept, hleft]; exact hentered⟩

/-- The usual settings, except that identities are required. -/
def strictSettings : Settings where
  databaseUrl := none
  leastConnections := 2
  mostConnections := 10
  commandTimeout := 60.0
  origins := Settings.defaultOrigins
  policy := .default
  summaryLength := 5
  historyDefault := 20
  historyLimit := 200
  leastRows := 3
  requireDates := false
  tolerance := 0.01
  requestBudget := 60
  requestWindow := 60.0
  collaboratorUrl := none
  collaboratorKey := none
  collaboratorModel := "gpt-4o-mini"
  collaboratorTimeout := 30.0
  temperature := 0.3
  maxTokens := 4000
  retries := 2
  requireIdentity := true
  editorRoles := ["admin", "manager", "editor"]

def strictService : State := ⟨strictSettings, true, none, 0⟩

/-- The path with these segments. -/
def pathOf (segments : List String) : String :=
  .ofList (['/'].intercalate (segments.map String.toList))

/-- Segments without slashes are those of their path. -/
theorem segments_pathOf {segments : List String} (hne : segments ≠ [])
    (h : ∀ segment ∈ segments, '/' ∉ segment.toList) (query : List (String × String)) :
    Target.segments ⟨pathOf segments, query⟩ = segments :=
  Text.splitOn_joined hne h

/-- A body is read as the text that it is the UTF-8 form of, provided that the text starts with two
characters in ASCII. -/
theorem Request.content_of_text {r : Request} {text : String} {c d : Char} {cs : List Char} {v : Value}
    (hbody : r.body = Octets.encoded text) (hjson : r.carriesJson = true)
    (htext : text.toList = c :: d :: cs) (hc : 0 < c.toNat ∧ c.toNat < 0x80)
    (hd : 0 < d.toNat ∧ d.toNat < 0x80) (hread : Json.readChars text.toList = .ok v) :
    r.content = .ok (.json v) := by
  have hchars : Octets.jsonChars? (r.body.map (·.toNat)) = some text.toList :=
    hbody ▸ Octets.jsonChars?_ofText htext hc hd
  have hne : r.body ≠ [] := by
    rw [hbody, Octets.encoded, htext, List.flatMap_cons]
    exact List.append_ne_nil_of_left_ne_nil String.utf8EncodeChar_ne_nil _
  rw [Request.content, if_neg hne, if_pos hjson, Request.jsonIn, hchars]
  dsimp only
  rw [hread]
  rfl

/-- An editor brings the first version of a dashboard back. -/
def rollbackRequest : Request where
  method := "POST"
  target := ⟨pathOf ["", "dashboards", "sales", "rollback"], []⟩
  headers := [("X-User-Id", Octets.encoded "ana"), ("X-User-Role", Octets.encoded "editor")]
  body := Octets.encoded "\x7b\"targetVersion\": 1\x7d"

/-- A collaborator that is never reached. -/
def unreached (_ : Completion.Request) (k : Unit) : Completion.Reply × Unit := (.lost "", k)

theorem lead_rollbackRequest :
    lead rollbackRequest.method rollbackRequest.target = .route (.rollback "sales") := by
  rw [lead, rollbackRequest, segments_pathOf (by decide) (by decide)]
  decide +kernel

theorem content_rollbackRequest :
    rollbackRequest.content = .ok (.json (.obj [("targetVersion", .ofInt 1)])) := by
  have htext : "\x7b\"targetVersion\": 1\x7d".toList =
      '\x7b' :: '"' :: "targetVersion\": 1\x7d".toList := by decide
  exact Request.content_of_text rfl (by decide +kernel) htext (by decide) (by decide)
    (by with_unfolding_all rfl)

theorem receive_rollbackRequest : (strictService.receive 0 rollbackRequest).1 =
    answer strictSettings ⟨some "ana", some "editor"⟩ (traceText 0) (.rollback "sales" ⟨1⟩) := by
  have hadmitted : (strictService.trace rollbackRequest).2.admission 0 (Route.rollback "sales").needs
      rollbackRequest.caller = (none, (strictService.trace rollbackRequest).2) := by
    with_unfolding_all rfl
  have hread : Task.read (.rollback "sales") rollbackRequest.target
      (.json (.obj [("targetVersion", .ofInt 1)])) = .good (.rollback "sales" ⟨1⟩) := rfl
  rw [State.receive_eq_answer lead_rollbackRequest content_rollbackRequest hadmitted hread]
  with_unfolding_all rfl

/-- A rollback adds an entry to a table that is a list, and names its sender in it. -/
theorem edits_of_receive_rollback : Table.Obeys Table.serve (fun entries => entries) ∧
    ∃ route, strictService.Admits rollbackRequest route ∧
      route.Entered (some "ana") oneEntry
        ((strictService.receive 0 rollbackRequest).1.run (carry (Table.respond Table.serve) unreached)
          (⟨oneEntry, 0⟩, ())).2.1.database := by
  refine ⟨Table.obeys_serve, ?_⟩
  have hlength : ((strictService.receive 0 rollbackRequest).1.run
      (carry (Table.respond Table.serve) unreached) (⟨oneEntry, 0⟩, ())).2.1.database.length = 2 := by
    rw [receive_rollbackRequest]
    decide +kernel
  have hsender : rollbackRequest.header? "x-user-id" = some "ana" := by with_unfolding_all rfl
  obtain hsame | hentered := (edits_of_receive strictService 0 rollbackRequest unreached ()).2
    Table.obeys_serve ⟨oneEntry, 0⟩
  · rw [hsame] at hlength
    exact absurd hlength (by decide)
  · rw [hsender] at hentered
    exact hentered

end Service

end Dashboards
