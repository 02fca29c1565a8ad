import Dashboards.Proofs.Json.Limits
import Dashboards.Proofs.Service.Edits

/-!
# Failed requests write nothing

A request that fails leaves every history in memory as it is.  Most requests fail before anything is
written, and a conversation with the registry that writes does not fail afterwards.  What may still
fail is the response: a document that cannot be shown, though it can be stored, is created by a request
that then fails, and so does a commit whose summary cannot be encoded.
-/

namespace Dashboards

open History

namespace History

/-! ## 1. Conversations that write at their end -/

/-- A conversation that leaves the histories as they are wherever it ends with a fault. -/
def Conversation.Atomic {α : Type} (c : Conversation α) : Prop :=
  ∀ (r r' : Registry) (f : Fault), r.converse c = (.error f, r') → r'.histories = r.histories

end History

/-- A conversation that only reads keeps the histories. -/
theorem Service.Sparing.kept {α : Type} {c : Conversation α}
    (h : Service.Sparing (fun _ => False) 0 c) (r : Registry) :
    (r.converse c).2.histories = r.histories :=
  Dialogue.Within.kept_run Registry.histories (fun _ r hq => Registry.histories_of_reads hq r) h r

namespace History.Conversation.Atomic

open Service

variable {α β : Type}

theorem still (result : Except Fault α) : Atomic (ExceptT.mk (pure result) : Conversation α) := by
  intro r r' fault h
  obtain ⟨-, rfl⟩ := Prod.mk.inj h
  rfl

/-- After questions that only read, it is the rest that counts. -/
theorem after {c : Conversation α} {f : α → Conversation β} (hc : Sparing (fun _ => False) 0 c)
    (hf : ∀ a, (f a).Atomic) : (c >>= f).Atomic := by
  intro r r' fault h
  have hkept := hc.kept r
  rw [Registry.converse_bind] at h
  rcases hfirst : r.converse c with ⟨f₁ | a, r₁⟩
  · rw [hfirst] at h hkept
    obtain ⟨-, rfl⟩ := Prod.mk.inj h
    exact hkept
  · rw [hfirst] at h hkept
    exact (hf a r₁ r' fault h).trans hkept

/-- What is made of the result in the end does not fail. -/
theorem andPure {c : Conversation α} (hc : c.Atomic) (g : α → β) :
    (c >>= fun a => pure (g a)).Atomic := by
  intro r r' fault h
  rw [Registry.converse_bind] at h
  rcases hfirst : r.converse c with ⟨f₁ | a, r₁⟩
  · rw [hfirst] at h
    obtain ⟨-, rfl⟩ := Prod.mk.inj h
    exact hc r r₁ f₁ hfirst
  · rw [hfirst] at h
    cases h

theorem put (id : String) (expected : Int) (next : Draft) :
    (Conversation.put id expected next).Atomic := by
  intro r r' fault h
  have hput : r.converse (Conversation.put id expected next) = r.commit id expected next := rfl
  rw [hput] at h
  obtain ⟨f, r₁, hcommit, hsame⟩ | ⟨-, rec, r₁, -, hcommit, -⟩ := r.kept_or_extended id expected next
  · rw [hcommit] at h
    obtain ⟨-, rfl⟩ := Prod.mk.inj h
    exact hsame
  · rw [hcommit] at h
    cases h

variable {s : Settings} {caller : Caller} {id : String}

/-- A commit that fails has not written. -/
theorem commit (b : CommitBody) : (Service.commit s caller id b).Atomic := by
  have hcommit : (Conversation.commit s.editRules id b.version b.operations caller.id b.note).Atomic :=
    after Sparing.current fun record => after (Sparing.still _) fun (new, simulation) =>
      (put id record.version ⟨new, caller.id, b.note⟩).andPure fun committed => (committed, simulation)
  exact after Sparing.find fun _ => hcommit.andPure _

/-- A rollback that fails has not written. -/
theorem rollback (b : RollbackBody) : (Service.rollback caller id b).Atomic :=
  after Sparing.find fun _ => andPure
    (after Sparing.version fun _ => after Sparing.current fun _ => put _ _ _) _

end History.Conversation.Atomic

namespace Service

/-- A creation of a document that can be copied starts a history, unless there is one under its id. -/
theorem converse_create {s : Settings} (caller : Caller) {b : CreateBody} (r : Registry)
    (hcopied : Conversation.copied s.editRules.room (.obj b.document) = .ok (.obj b.document)) :
    match r.histories.get? (r.chosen b.id) with
    | some _ => ∃ f r', r.converse (create s caller b) = (.error f, r') ∧ r'.histories = r.histories
    | none => ∃ rec r', r.converse (create s caller b) = (.ok (identity (r.chosen b.id) rec), r') ∧
        rec.document = b.document.stamped 1 ∧
        r'.histories = r.histories.set (r.chosen b.id) [rec] := by
  have hcreate : r.converse (create s caller b) = r.converse (do
      let id ← Conversation.create b.id ⟨.obj b.document, caller.id, b.note⟩
      identity id <$> Conversation.current id) := by
    rw [create, Registry.converse_bind, hcopied]
    rfl
  obtain ⟨r₁, hsame, hfirst⟩ :=
    Registry.converse_create b.id ⟨.obj b.document, caller.id, b.note⟩ r
  rw [hcreate, Registry.converse_bind, hfirst]
  cases hget : r.histories.get? (r.chosen b.id) with
  | some records =>
    rw [Registry.create_of_taken (hsame ▸ hget)]
    exact ⟨_, r₁, rfl, hsame⟩
  | none =>
    obtain ⟨rec, r', hdone, hholds, hset⟩ :=
      Registry.create_of_new (hsame ▸ hget) b.document caller.id b.note
    rw [hsame] at hset
    have hcurrent : r'.converse (Conversation.current (r.chosen b.id)) = (.ok rec, r') := by
      show (r'.current (r.chosen b.id), r') = _
      rw [Registry.current_of_kept (hset ▸ Members.get?_set_self _ _ _)
        (show [rec].getLast? = some rec from rfl)]
    rw [hdone]
    refine ⟨rec, r', ?_, hholds.document, hset⟩
    dsimp only [Except.map]
    rw [Registry.converse, Dialogue.run_mapResult, ← Registry.converse, hcurrent]
    rfl

/-- A creation that fails has not written, and one that succeeds shows the document that it stored. -/
theorem converse_create_cases (s : Settings) (caller : Caller) (b : CreateBody) (r : Registry) :
    (∃ f r', r.converse (create s caller b) = (.error f, r') ∧ r'.histories = r.histories) ∨
      ∃ rec r', r.converse (create s caller b) = (.ok (identity (r.chosen b.id) rec), r') ∧
        rec.document = b.document.stamped 1 := by
  cases hcopied : Conversation.copied s.editRules.room (.obj b.document) with
  | error f =>
    left
    rw [create, Registry.converse_bind, hcopied]
    exact ⟨f, r, rfl, rfl⟩
  | ok v =>
    obtain rfl : .obj b.document = v := by
      rw [Conversation.copied] at hcopied
      split at hcopied
      · exact Except.ok.inj hcopied
      · cases hcopied
    have hcreate := converse_create caller r hcopied
    split at hcreate
    · exact .inl hcreate
    · obtain ⟨rec, r', hconverse, hdocument, -⟩ := hcreate
      exact .inr ⟨rec, r', hconverse, hdocument⟩

/-! ## 2. Responses -/

/-- A response that reports a failure, by its status or in its body. -/
def Response.Failed (r : Response) : Prop :=
  ¬(200 ≤ r.status ∧ r.status < 300) ∨
    ∃ body, r.payload = .json body ∧ body.member? "ok" = some (.bool false)

/-- The trace id of a response can be encoded, whoever chose it. -/
theorem State.isEncodable_trace (s : State) (r : Request) : isEncodable (s.trace r).1 = true := by
  rw [State.trace]
  cases htrace : r.trace? with
  | none => exact isEncodable_padded _ _
  | some trace =>
    obtain ⟨bytes, -, rfl⟩ := Option.map_eq_some_iff.1 (Option.filter_eq_some_iff.1 htrace).1
    exact Octets.isEncodable_latin bytes

end Service

/-- A document that can be shown: it is not nested too deeply, and its texts can be encoded. -/
structure Document.Shown (doc : Document) : Prop where
  shallow : (Value.obj doc).depth ≤ Excess.responseDepth
  encodable : (Value.obj doc).isEncodable = true

/-- A dry run whose summary and warnings can be encoded. -/
def Simulation.Told (x : Simulation) : Prop :=
  ∀ line ∈ x.changes.map (·.text) ++ x.warnings, isEncodable line = true

theorem Members.get?_overlay {α : Type} (ms more : Members α) {key : String} (h : key ∉ more.keys) :
    (ms.overlay more).get? key = ms.get? key := by
  induction more generalizing ms with
  | nil => rfl
  | cons e more ih =>
    obtain ⟨hne, hrest⟩ := not_or.1 fun hmem => h (List.mem_cons.2 hmem)
    show ((ms.set e.1 e.2).overlay more).get? key = _
    rw [ih _ hrest, Members.get?_set_of_ne _ _ hne]

namespace Value

theorem get?_finiteOnlyMembers (ms : Members Value) (key : String) :
    Members.get? (finiteOnlyMembers ms) key = (ms.get? key).map finiteOnly := by
  induction ms with
  | nil => rfl
  | cons e ms ih =>
    simp only [finiteOnlyMembers, Members.get?]
    split
    · rfl
    · exact ih

end Value

namespace Service

/-- What stands at the front of every answer. -/
theorem areEncodableMembers_front {trace : String} (htrace : isEncodable trace = true) (ok : Bool) :
    Value.areEncodableMembers [("ok", .bool ok), ("traceId", .str trace)] = true := by
  have hkeys : isEncodable "ok" = true ∧ isEncodable "traceId" = true := by decide
  simp [Value.areEncodableMembers, Value.isEncodable, htrace, hkeys]

/-- A regular answer that keeps within the limits is shown, and reports no failure. -/
theorem not_failed_regular {trace : String} {status : Nat} {members : Members Value}
    (hstatus : 200 ≤ status ∧ status < 300) (htrace : isEncodable trace = true)
    (hok : "ok" ∉ members.keys) (hdepth : Value.depthOfMembers members ≤ Excess.responseDepth)
    (hencodable : Value.areEncodableMembers members = true) :
    ¬(regular trace status members).Failed := by
  have hoverlay := Value.depthOfMembers_overlay [("ok", .bool true), ("traceId", .str trace)] members
  have hshallow : (successEnvelope trace members).depth ≤ Excess.responseDepth + 1 := by
    simp only [successEnvelope, Value.depth]
    simp only [Value.depthOfMembers, Value.depth, Excess.responseDepth] at hoverlay hdepth ⊢
    omega
  have hanswer : (successEnvelope trace members).isEncodable = true :=
    Value.areEncodableMembers_overlay (areEncodableMembers_front htrace true) hencodable
  rw [regular, Response.json, if_pos ⟨hshallow, hanswer⟩]
  rintro (hbad | ⟨body, hbody, hfalse⟩)
  · exact hbad hstatus
  · obtain rfl := Payload.json.inj hbody
    rw [successEnvelope] at hfalse
    simp only [Value.finiteOnly, Value.member?] at hfalse
    rw [Value.get?_finiteOnlyMembers, Members.get?_overlay _ _ hok] at hfalse
    cases hfalse

/-! ## 3. Requests -/

section Requests

variable {κ : Type} (reply : Completion.Request → κ → Completion.Reply × κ)

/-- A conversation with the archive leaves the collaborator alone. -/
theorem run_withArchive {α : Type} (c : Conversation α) (registry : Registry) (k : κ) :
    (withArchive c).run (carry Registry.respond reply) (registry, k) =
      ((registry.converse c).1, (registry.converse c).2, k) :=
  Dialogue.run_relay (fun registry => (registry, k)) (fun _ _ => rfl) c.run registry

theorem run_ofArchive {α : Type} (c : Conversation α) (registry : Registry) (k : κ) :
    (ofArchive c).run.run (carry Registry.respond reply) (registry, k) =
      ((registry.converse c).1.mapError failureOf, (registry.converse c).2, k) := by
  show Dialogue.run _ (Except.mapError failureOf <$> withArchive c) _ = _
  rw [Dialogue.run_map, run_withArchive]

/-- A task whose result is a regular answer is carried out by the conversation for its members. -/
theorem run_answer {s : Settings} {caller : Caller} {trace : String} {task : Task} {status : Nat}
    {c : Conversation (Members Value)}
    (hperform : perform s caller trace task = regular trace status <$> ofArchive c)
    (registry : Registry) (k : κ) :
    (answer s caller trace task).run (carry Registry.respond reply) (registry, k) =
      ((match (registry.converse c).1 with
        | .ok members => regular trace status members
        | .error f => .failure trace (failureOf f)), (registry.converse c).2, k) := by
  rw [answer, Dialogue.run_bind, hperform, Dialogue.run_mapResult, run_ofArchive]
  rcases registry.converse c with ⟨f | members, registry'⟩ <;> rfl

/-- A record whose document is nested too deeply is not shown. -/
theorem regular_of_deep {rec : Record} (h : Excess.responseDepth < (Value.obj rec.document).depth)
    (trace : String) (status : Nat) (id : String) :
    regular trace status (identity id rec) = .failure trace internalFailure := by
  have hdepth : (successEnvelope trace (identity id rec)).depth =
      max 1 (max 1 (max 1 (max 1 (max (Value.obj rec.document).depth 0)))) + 1 := rfl
  rw [regular, Response.json, if_neg fun hshown => by have := hshown.1; omega]

theorem depthOfMembers_identity (id : String) (rec : Record) :
    Value.depthOfMembers (identity id rec) =
      max 1 (max 1 (max (Value.obj rec.document).depth 0)) := rfl

theorem areEncodableMembers_identity {id : String} {rec : Record} (hid : isEncodable id = true)
    (hdocument : (Value.obj rec.document).isEncodable = true) :
    Value.areEncodableMembers (identity id rec) = true := by
  have hkeys : isEncodable "dashboardId" = true ∧ isEncodable "version" = true ∧
      isEncodable "document" = true := by decide
  have hversion : (Value.ofInt rec.version).isEncodable = true := rfl
  simp [identity, Value.areEncodableMembers, Value.isEncodable, hkeys, hid, hversion] at hdocument ⊢
  exact hdocument

theorem isEncodable_of_textWithin {v : Value} {text : String} {least : Nat} {greatest : Option Nat}
    (h : Shape.textWithin least greatest v = .good text) : isEncodable text = true := by
  rw [Shape.textWithin] at h
  obtain ⟨found, hfound, hlength⟩ := Shape.Checked.exists_of_refine h
  obtain ⟨_, -, hfound⟩ := Shape.Checked.exists_of_refine hfound
  have hencodable : isEncodable found = true := by
    rw [Shape.encodable] at hfound
    split at hfound
    · cases hfound
      assumption
    · cases hfound
  -- The bounds on the length change nothing in a text that keeps them.
  have hsame : found = text := by
    split at hlength
    · cases hlength
    · split at hlength
      · split at hlength
        · cases hlength
        · exact Shape.Checked.good.inj hlength
      · exact Shape.Checked.good.inj hlength
  exact hsame ▸ hencodable

/-- The id of a dashboard that is created can be encoded: another one is not accepted. -/
theorem isEncodable_chosen {content : Request.Content} {b : CreateBody}
    (h : readBody CreateBody.fields content = .good b) (registry : Registry) :
    isEncodable (registry.chosen b.id) = true := by
  obtain ⟨ms, hfields⟩ : ∃ ms, CreateBody.fields ms = .good b := by
    unfold readBody at h
    split at h
    · cases h
    · exact ⟨_, Shape.Checked.eq_of_under h⟩
    · cases h
  obtain ⟨ofNote, note, hofNote, -, rfl⟩ := Shape.Checked.exists_of_seq hfields
  obtain ⟨ofDocument, document, hofDocument, -, rfl⟩ := Shape.Checked.exists_of_seq hofNote
  obtain ⟨given, hgiven, rfl⟩ := Shape.Checked.exists_of_map hofDocument
  show isEncodable (registry.chosen given) = true
  unfold Registry.chosen
  split
  · exact isEncodable_padded _ _
  · exact isEncodable_padded _ _
  · rename_i id _
    rw [Shape.nullableField, Shape.optional] at hgiven
    split at hgiven
    · have hread := Shape.Checked.eq_of_under hgiven
      unfold Shape.nullable at hread
      split at hread
      · cases hread
      · obtain ⟨text, htext, hid⟩ := Shape.Checked.exists_of_map hread
        exact Option.some.inj hid ▸ isEncodable_of_textWithin htext
    · cases hgiven

/-- A conversation that succeeds went on from a first part that did. -/
theorem exists_of_converse_bind {α β : Type} {c : Conversation α} {f : α → Conversation β} {b : β}
    {before after : Registry} (h : before.converse (c >>= f) = (.ok b, after)) :
    ∃ a between, before.converse c = (.ok a, between) ∧
      between.converse (f a) = (.ok b, after) := by
  rw [Registry.converse_bind] at h
  split at h
  · exact ⟨_, _, ‹_›, h⟩
  · cases h

/-- The members of the answer to a commit are shallow, and can be encoded where its texts can be. -/
theorem members_of_commit {s : Settings} {caller : Caller} {id : String} {b : CommitBody}
    {before after : Registry} {members : Members Value}
    (h : before.converse (commit s caller id b) = (.ok members, after)) :
    "ok" ∉ members.keys ∧ Value.depthOfMembers members ≤ 2 ∧
      ∃ rec x, before.converse (Conversation.commit s.editRules id b.version b.operations caller.id
          b.note) = (.ok (rec, x), after) ∧
        (Simulation.Told x → Value.areEncodableMembers members = true) := by
  rw [commit] at h
  obtain ⟨_, between, hfind, h⟩ := exists_of_converse_bind h
  obtain rfl : before = between := congrArg Prod.snd hfind
  obtain ⟨⟨record, simulation⟩, _, hcommit, h⟩ := exists_of_converse_bind h
  cases h
  have hsummary := Value.depth_ofStrings (simulation.changes.map (·.text))
  have hwarnings := Value.depth_ofStrings simulation.warnings
  refine ⟨?_, ?_, record, simulation, hcommit, fun htold => ?_⟩
  · show "ok" ∉ ["committedVersion", "previousVersion", "diffSummary", "warnings"]
    decide
  · simp only [Value.depthOfMembers, Value.depth, Value.ofInt]
    omega
  · have hkeys : isEncodable "committedVersion" = true ∧ isEncodable "previousVersion" = true ∧
        isEncodable "diffSummary" = true ∧ isEncodable "warnings" = true := by decide
    obtain ⟨hchanges, hwarned⟩ := List.forall_mem_append.1 htold
    simp [Value.areEncodableMembers, Value.ofInt, Value.isEncodable, hkeys,
      Value.isEncodable_ofStrings.2 hchanges, Value.isEncodable_ofStrings.2 hwarned]

/-- A rollback that succeeds leaves its usual note. -/
theorem note_of_rollback {id : String} {target : Int} {author : Option String}
    {before after : Registry} {rec : Record}
    (h : before.converse (Conversation.rollback id target author) = (.ok rec, after)) :
    rec.note = some (rollbackNote target) := by
  rw [Registry.converse_rollback] at h
  split at h
  · rename_i earlier latest _ _
    obtain ⟨f, _, hcommit, -⟩ | ⟨_, _, _, -, hcommit, -, hnote, -⟩ := before.kept_or_extended id
      latest.version ⟨.obj earlier.document, author, some (rollbackNote target)⟩
    · rw [hcommit] at h
      cases h
    · rw [hcommit] at h
      cases h
      exact hnote
  all_goals cases h

theorem members_of_rollback {caller : Caller} {id : String} {b : RollbackBody}
    {before after : Registry} {members : Members Value}
    (h : before.converse (rollback caller id b) = (.ok members, after)) :
    "ok" ∉ members.keys ∧ Value.depthOfMembers members ≤ 2 ∧
      Value.areEncodableMembers members = true := by
  rw [rollback] at h
  obtain ⟨_, between, hfind, h⟩ := exists_of_converse_bind h
  obtain rfl : before = between := congrArg Prod.snd hfind
  obtain ⟨record, _, hrollback, h⟩ := exists_of_converse_bind h
  cases h
  have hnote := note_of_rollback hrollback
  refine ⟨?_, ?_, ?_⟩
  · show "ok" ∉ ["committedVersion", "rolledBackTo", "note"]
    decide
  · rw [hnote]
    exact show max 1 (max 1 (max 1 0)) ≤ 2 by decide
  · have hkeys : isEncodable "committedVersion" = true ∧ isEncodable "rolledBackTo" = true ∧
        isEncodable "note" = true := by decide
    have htext : isEncodable (rollbackNote b.target) = true :=
      isEncodable_append.2 ⟨by decide, isEncodable_intText _⟩
    simp [Value.areEncodableMembers, Value.isEncodable, Value.ofInt, Value.ofOption, hnote, hkeys, htext]

/-- An edit that is carried out and whose answer cannot be sent: the creation of a document that cannot
be shown, or a commit whose summary cannot be encoded. -/
inductive State.EditsUnshown (s : State) (r : Request) (before : Registry) : Prop
  | created {content : Request.Content} {b : CreateBody} {members : Members Value} {after : Registry}
      (hlead : lead r.method r.target = .route .create) (hcontent : r.content = .ok content)
      (hbody : readBody CreateBody.fields content = .good b)
      (hcreate : before.converse (create s.settings r.caller b) = (.ok members, after))
      (hunshown : ¬Document.Shown (b.document.stamped 1))
  | committed {id : String} {content : Request.Content} {b : CommitBody} {rec : Record}
      {x : Simulation} {after : Registry} (hlead : lead r.method r.target = .route (.commit id))
      (hcontent : r.content = .ok content) (hbody : readBody CommitBody.fields content = .good b)
      (hcommit : before.converse (Conversation.commit s.settings.editRules id b.version b.operations
        r.caller.id b.note) = (.ok (rec, x), after)) (huntold : ¬x.Told)

/-- A failed request writes nothing.  Whatever the state of the service, the registry and the request,
if the response reports a failure then every history is as it was, unless the request is an edit that
is carried out and whose answer cannot be sent. -/
theorem histories_of_failed (s : State) (now : Float) (r : Request) (before : Registry) (k : κ)
    (hfailed : ((s.receive now r).1.run (carry Registry.respond reply) (before, k)).1.Failed)
    (hshown : ¬s.EditsUnshown r before) :
    ((s.receive now r).1.run (carry Registry.respond reply) (before, k)).2.1.histories =
      before.histories := by
  obtain ⟨response, hdone⟩ | ⟨route, task, ⟨hlead, -, content, hcontent, hread⟩, hanswer⟩ :=
    s.receive_cases now r
  · rw [hdone]
    rfl
  have htrace := s.isEncodable_trace r
  rw [hanswer] at hfailed ⊢
  cases route with
  | create =>
    obtain ⟨b, hbody, rfl⟩ := Shape.Checked.exists_of_map hread
    rw [run_answer reply rfl] at hfailed ⊢
    obtain ⟨f, after, hconverse, hsame⟩ | ⟨rec, after, hconverse, hdocument⟩ :=
      converse_create_cases s.settings r.caller b before
    · rw [hconverse]
      exact hsame
    · rw [hconverse] at hfailed
      have hdoc : Document.Shown rec.document := by
        by_contra hunshown
        exact hshown (.created hlead hcontent hbody hconverse (hdocument ▸ hunshown))
      refine absurd hfailed (not_failed_regular (by decide) htrace ?_ ?_
        (areEncodableMembers_identity (isEncodable_chosen hbody before) hdoc.encodable))
      · show "ok" ∉ ["dashboardId", "version", "document"]
        decide
      · have hroom := hdoc.shallow
        have hpositive := Value.depth_pos (.obj rec.document)
        rw [depthOfMembers_identity]
        omega
  | commit id =>
    obtain ⟨b, hbody, rfl⟩ := Shape.Checked.exists_of_map hread
    rw [run_answer reply rfl] at hfailed ⊢
    rcases hconverse : before.converse (commit s.settings r.caller id b) with ⟨f | members, after⟩
    · exact Conversation.Atomic.commit b _ _ _ hconverse
    · rw [hconverse] at hfailed
      obtain ⟨hok, hdepth, rec, x, hcommit, hencodable⟩ := members_of_commit hconverse
      have htold : x.Told := by
        by_contra huntold
        exact hshown (.committed hlead hcontent hbody hcommit huntold)
      exact absurd hfailed (not_failed_regular (by decide) htrace hok
        (Nat.le_trans hdepth (by decide)) (hencodable htold))
  | rollback id =>
    obtain ⟨b, -, rfl⟩ := Shape.Checked.exists_of_map hread
    rw [run_answer reply rfl] at hfailed ⊢
    rcases hconverse : before.converse (rollback r.caller id b) with ⟨f | members, after⟩
    · exact Conversation.Atomic.rollback b _ _ _ hconverse
    · rw [hconverse] at hfailed
      obtain ⟨hok, hdepth, hencodable⟩ := members_of_rollback hconverse
      exact absurd hfailed (not_failed_regular (by decide) htrace hok
        (Nat.le_trans hdepth (by decide)) hencodable)
  | _ =>
    have hanswered : (answer s.settings r.caller (s.trace r).1 task).Within Errand.Reads
        (Errand.Puts fun _ => False) 0 :=
      Dialogue.Within.bind (n := 0) (within_perform_of_not_edits id hread _ _ _) fun result => by
        cases result <;> exact Dialogue.within_done _
    exact hanswered.kept_run (fun s : Registry × κ => s.1.histories)
      (kept_carry (fun q r hq => Registry.histories_of_reads hq r) reply) (before, k)

end Requests

/-- A registry without the dashboard that is to be rolled back. -/
def otherDashboard : Registry :=
  (Registry.empty ⟨0⟩).after [.create (some "leads") [("title", .str "Leads")] none none]

/-- A rollback of a dashboard that is not there fails, and writes nothing. -/
theorem histories_of_failed_rollback :
    ((strictService.receive 0 rollbackRequest).1.run (carry Registry.respond unreached)
        (otherDashboard, ())).1.Failed ∧
      ¬strictService.EditsUnshown rollbackRequest otherDashboard ∧
      ((strictService.receive 0 rollbackRequest).1.run (carry Registry.respond unreached)
        (otherDashboard, ())).2.1.histories = otherDashboard.histories := by
  have hfailed : ((strictService.receive 0 rollbackRequest).1.run (carry Registry.respond unreached)
      (otherDashboard, ())).1.Failed := by
    left
    rw [receive_rollbackRequest]
    decide +kernel
  have hshown : ¬strictService.EditsUnshown rollbackRequest otherDashboard := by
    intro h
    cases h with
    | created hlead =>
      rw [lead_rollbackRequest] at hlead
      cases hlead
    | committed hlead =>
      rw [lead_rollbackRequest] at hlead
      cases hlead
  exact ⟨hfailed, hshown, histories_of_failed unreached strictService 0 rollbackRequest otherDashboard
    () hfailed hshown⟩

/-! ## 4. A document too deep to be shown -/

/-- A body in which a writer has written an object is read as the object. -/
theorem Request.content_of_line {r : Request} {ms : Members Value}
    (hbody : r.body = Octets.encoded (Json.line (.spaced true) (.obj ms)))
    (hjson : r.carriesJson = true) (hlegible : (Value.obj ms).Legible Excess.textDepth)
    (hfinite : (Value.obj ms).Orderly (·.isFinite = true)) : r.content = .ok (.json (.obj ms)) := by
  obtain ⟨d, cs, hchars, hd⟩ := Json.exists_toList_line_obj ms
  exact Request.content_of_text hbody hjson hchars (by decide) hd
    (Json.readChars_line hlegible hfinite)

/-- A document with so many objects nested in it. -/
def nested : Nat → Document
  | 0 => []
  | n + 1 => [("a", .obj (nested n))]

theorem depth_nested (n : Nat) : (Value.obj (nested n)).depth = n + 1 := by
  induction n with
  | zero => rfl
  | succ n ih =>
    show max (Value.obj (nested n)).depth 0 + 1 = _
    rw [ih, Nat.max_zero]

theorem legible_nested {n room : Nat} (h : n < room) : (Value.obj (nested n)).Legible room := by
  induction n generalizing room with
  | zero =>
    obtain ⟨room, rfl⟩ : ∃ m, room = m + 1 := ⟨room - 1, by omega⟩
    exact .obj List.nodup_nil fun m hm => by cases hm
  | succ n ih =>
    obtain ⟨room, rfl⟩ : ∃ m, room = m + 1 := ⟨room - 1, by omega⟩
    refine .obj (List.nodup_singleton _) fun m hm => ?_
    obtain rfl := List.mem_singleton.1 hm
    exact ih (by omega)

theorem orderly_nested (n : Nat) : (Value.obj (nested n)).Orderly (·.isFinite = true) := by
  induction n with
  | zero => exact Value.orderly_obj_iff.2 ⟨List.nodup_nil, fun m hm => by cases hm⟩
  | succ n ih =>
    refine Value.orderly_obj_iff.2 ⟨List.nodup_singleton _, fun m hm => ?_⟩
    obtain rfl := List.mem_singleton.1 hm
    exact ih

/-- The members of a body that asks for a dashboard with such a document. -/
def deepMembers (n : Nat) : Members Value :=
  [("dashboardId", .str "d"), ("document", .obj (nested n))]

/-- A request to create a dashboard with such a document. -/
def deepCreation (n : Nat) : Request where
  method := "POST"
  target := ⟨pathOf ["", "dashboards"], []⟩
  headers := []
  body := Octets.encoded (Json.line (.spaced true) (.obj (deepMembers n)))

variable {n : Nat}

theorem readBody_deepMembers (n : Nat) : readBody CreateBody.fields (.json (.obj (deepMembers n))) =
    .good ⟨some "d", nested n, none⟩ := by
  show (CreateBody.mk <$> .good (some "d") <*> (Document.read (.obj (nested n))).under "document" <*>
    .good none).under "body" = _
  rw [Document.read_obj]
  rfl

theorem content_deepCreation (h : n + 1 < Excess.textDepth) :
    (deepCreation n).content = .ok (.json (.obj (deepMembers n))) := by
  have hkeys : ["dashboardId", "document"].Nodup := by decide
  have hroom : n < 984 := Nat.lt_of_succ_lt_succ h
  refine Request.content_of_line rfl rfl (.obj hkeys fun m hm => ?_)
    (Value.orderly_obj_iff.2 ⟨hkeys, fun m hm => ?_⟩)
  · rcases List.mem_cons.1 hm with rfl | hm
    · exact .scalar trivial
    · obtain rfl := List.mem_singleton.1 hm
      exact legible_nested hroom
  · rcases List.mem_cons.1 hm with rfl | hm
    · trivial
    · obtain rfl := List.mem_singleton.1 hm
      exact orderly_nested n

/-- The usual settings. -/
def openService : State := ⟨{ strictSettings with requireIdentity := false }, true, none, 0⟩

theorem receive_deepCreation (h : n + 1 < Excess.textDepth) :
    (openService.receive 0 (deepCreation n)).1 =
      answer openService.settings ⟨none, none⟩ (traceText 0) (.create ⟨some "d", nested n, none⟩) := by
  have hlead : lead (deepCreation n).method (deepCreation n).target = .route .create := by
    have hpath : (deepCreation n).target.segments = ["", "dashboards"] :=
      segments_pathOf (by decide) (by decide) []
    have hroute : Route.ofSegments? ["", "dashboards"] = some .create := by decide +kernel
    rw [lead, hpath, hroute]
    exact if_pos rfl
  have hadmitted : (openService.trace (deepCreation n)).2.admission 0 Route.create.needs
      (deepCreation n).caller = (none, (openService.trace (deepCreation n)).2) := rfl
  have hread : Task.read .create (deepCreation n).target (.json (.obj (deepMembers n))) =
      .good (.create ⟨some "d", nested n, none⟩) := by
    show Task.create <$> readBody CreateBody.fields (.json (.obj (deepMembers n))) = _
    rw [readBody_deepMembers]
    rfl
  rw [State.receive_eq_answer hlead (content_deepCreation h) hadmitted hread]
  rfl

/-- A creation whose document can be copied but not shown fails, and the document is there. -/
theorem failed_deepCreation (hdeep : Excess.responseDepth ≤ n) (hcopied : n < Excess.copyDepth) :
    ((openService.receive 0 (deepCreation n)).1.run (carry Registry.respond unreached)
        (Registry.empty ⟨0⟩, ())).1.Failed ∧
      ((openService.receive 0 (deepCreation n)).1.run (carry Registry.respond unreached)
        (Registry.empty ⟨0⟩, ())).2.1.histories ≠ (Registry.empty ⟨0⟩).histories := by
  have hread : n + 1 < Excess.textDepth := Nat.lt_trans (Nat.succ_lt_succ hcopied) (by decide)
  rw [receive_deepCreation hread, run_answer unreached rfl]
  have hcopy : Conversation.copied openService.settings.editRules.room (.obj (nested n)) =
      .ok (.obj (nested n)) := by
    have hfits : (Value.obj (nested n)).depth ≤ Excess.copyDepth := by
      rw [depth_nested]
      omega
    exact if_pos (decide_eq_true hfits)
  obtain ⟨rec, after, hconverse, hdocument, hset⟩ :=
    @converse_create openService.settings ⟨none, none⟩ ⟨some "d", nested n, none⟩ (Registry.empty ⟨0⟩)
      hcopy
  have hstamped : ((Value.obj ((nested n).stamped 1)).depth) = n + 1 := by
    obtain ⟨m, rfl⟩ : ∃ m, n = m + 1 :=
      Nat.exists_eq_add_one_of_ne_zero (Nat.ne_of_gt (Nat.lt_of_lt_of_le (by decide) hdeep))
    show max (Value.obj (nested m)).depth (max 1 0) + 1 = _
    rw [depth_nested]
    omega
  rw [hconverse]
  refine ⟨.inl ?_, ?_⟩
  · have hshown : Excess.responseDepth < (Value.obj rec.document).depth := by
      rw [hdocument, hstamped]
      omega
    have hstatus : (regular (traceText 0) 201 (identity "d" rec)).status = 500 := by
      rw [regular_of_deep hshown]
      rfl
    show ¬(200 ≤ (regular (traceText 0) 201 (identity "d" rec)).status ∧
      (regular (traceText 0) 201 (identity "d" rec)).status < 300)
    omega
  · rw [hset]
    exact List.cons_ne_nil _ _

/-- With 300 objects inside one another, a dashboard is created by a request that fails. -/
theorem failed_deepCreation_stored :
    ((openService.receive 0 (deepCreation 299)).1.run (carry Registry.respond unreached)
        (Registry.empty ⟨0⟩, ())).1.Failed ∧
      ((openService.receive 0 (deepCreation 299)).1.run (carry Registry.respond unreached)
        (Registry.empty ⟨0⟩, ())).2.1.histories ≠ (Registry.empty ⟨0⟩).histories :=
  failed_deepCreation (by decide) (by decide)

end Service

end Dashboards
