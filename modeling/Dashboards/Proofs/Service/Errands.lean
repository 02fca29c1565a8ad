import Dashboards.Proofs.Dialogue
import Dashboards.Proofs.Outcomes
import Dashboards.Service.State

/-!
# What a request asks of the archive

A request is answered in a dialogue with the archive and the collaborator.  Whoever answers, and
whatever the replies are, the dialogue asks the archive one question at most that could change a
history.  Such a question is asked on the three routes only that are there for edits, about the
dashboard of the route and in the name of the caller, who has been let in as an editor.
-/

namespace Dashboards

open History Dialogue

/-! ## 1. Questions that write -/

/-- A question that leaves the histories as they are. -/
def History.Question.Reads : Question → Prop
  | .create .. | .commit .. => False
  | _ => True

namespace Service

/-- An errand that leaves the histories as they are. -/
def Errand.Reads : Errand → Prop
  | .archive q => q.Reads
  | .collaborator _ => True

/-- An errand that puts such a question to the archive. -/
def Errand.Puts (asked : Question → Prop) : Errand → Prop
  | .archive q => asked q
  | .collaborator _ => False

/-- The questions that write on a route, in the name of an author. -/
def Route.Writes (author : Option String) : Route → Question → Prop
  | .create, .create _ first => first.author = author
  | .commit id, .commit id' _ next | .rollback id, .commit id' _ next =>
    id' = id ∧ next.author = author
  | _, _ => False

/-! ## 2. Conversations with the archive -/

/-- A conversation that asks, apart from questions that read, at most so many that write. -/
def Sparing (writes : Question → Prop) (n : Nat) {α : Type} (c : Conversation α) : Prop :=
  c.run.Within Question.Reads writes n

namespace Sparing

variable {α β : Type} {writes : Question → Prop} {m n : Nat} {id : String}

theorem andThen {c : Conversation α} {f : α → Conversation β} (h : Sparing writes m c)
    (hf : ∀ a, Sparing writes n (f a)) : Sparing writes (m + n) (c >>= f) := Within.andThen h hf

theorem map {c : Conversation α} (h : Sparing writes n c) (f : α → β) :
    Sparing writes n (f <$> c) := h.andThen (n := 0) fun _ => within_done _

/-- What needs no question. -/
theorem still (result : Except Fault α) : Sparing writes n (ExceptT.mk (pure result)) :=
  within_done _

theorem find : Sparing writes 0 (Conversation.find id) := within_read trivial

theorem current : Sparing writes 0 (Conversation.current id) := within_read trivial

theorem version {number : Int} : Sparing writes 0 (Conversation.version id number) :=
  within_read trivial

theorem newest {limit : Int} : Sparing writes 0 (Conversation.newest id limit) := within_read trivial

theorem put {expected : Int} {next : Draft} (h : writes (.commit id expected next)) :
    Sparing writes 1 (Conversation.put id expected next) := within_write h

theorem create {given : Option String} {first : Draft} (h : ∀ id, writes (.create id first)) :
    Sparing writes 1 (Conversation.create given first) := by
  have hfresh : Sparing writes 0 (ExceptT.lift (Dialogue.question Question.freshId)) :=
    (within_read trivial).lift
  have hcreate : ∀ id, Sparing writes 1
      (do ExceptT.mk (Dialogue.question (Question.create id first)); pure id) := fun id =>
    andThen (m := 1) (n := 0) (within_write (h id)) fun _ => within_done _
  unfold Conversation.create
  split
  · exact andThen (m := 0) hfresh hcreate
  · exact andThen (m := 0) hfresh hcreate
  · exact hcreate _

variable {s : Settings}

theorem dryRun {rules : EditRules} {expected : Int} {ops : List Operation} :
    Sparing writes 0 (Conversation.simulate rules id expected ops) :=
  current.andThen (n := 0) fun _ => still _

theorem simulate {b : SimulateBody} : Sparing writes 0 (Service.simulate s id b) :=
  find.andThen (n := 0) fun _ => dryRun

theorem preview {version : Int} {p : Proposal} :
    Sparing writes 0 (Service.preview s id version p) := by
  rw [Service.preview]
  split
  · exact still _
  · exact dryRun.map _

theorem showCurrent : Sparing writes 0 (Service.showCurrent id) :=
  find.andThen (n := 0) fun _ => current.andThen (n := 0) fun _ => still _

theorem showHistory {limit : Option Int} : Sparing writes 0 (Service.showHistory s id limit) :=
  find.andThen (n := 0) fun _ => newest.andThen (n := 0) fun _ => still _

theorem showVersion {number : Int} : Sparing writes 0 (Service.showVersion id number) :=
  find.andThen (n := 0) fun _ => version.andThen (n := 0) fun _ => still _

variable {caller : Caller}

/-- A creation writes once: what it shows of the new dashboard is read. -/
theorem createDashboard {b : CreateBody} :
    Sparing (Route.create.Writes caller.id) 1 (Service.create s caller b) :=
  andThen (m := 0) (still _) fun _ => (create fun _ => rfl).andThen (n := 0) fun _ => current.map _

/-- A commit writes once, and not at all where the patch is not approved. -/
theorem commit {b : CommitBody} :
    Sparing ((Route.commit id).Writes caller.id) 1 (Service.commit s caller id b) := by
  have hcommit : Sparing ((Route.commit id).Writes caller.id) 1 (Conversation.commit s.editRules id
      b.version b.operations caller.id b.note) :=
    current.andThen (n := 1) fun _ => andThen (m := 0) (n := 1) (still _) fun _ =>
      (put ⟨rfl, rfl⟩).andThen (n := 0) fun _ => still _
  exact find.andThen (n := 1) fun _ => hcommit.andThen (n := 0) fun _ => still _

theorem rollback {b : RollbackBody} :
    Sparing ((Route.rollback id).Writes caller.id) 1 (Service.rollback caller id b) := by
  have hput : Sparing ((Route.rollback id).Writes caller.id) 1
      (Conversation.rollback id b.target caller.id) :=
    version.andThen (n := 1) fun _ => current.andThen (n := 1) fun _ => put ⟨rfl, rfl⟩
  exact find.andThen (n := 1) fun _ => hput.andThen (n := 0) fun _ => still _

end Sparing

/-! ## 3. Tasks -/

section Tasks

variable {α : Type} {writes : Question → Prop} {n : Nat}

theorem Sparing.withArchive {c : Conversation α} (h : Sparing writes n c) :
    (Service.withArchive c).Within Errand.Reads (Errand.Puts writes) n :=
  Within.relay h (fun _ hq => within_read hq) fun _ hq => within_write hq

theorem Sparing.ofArchive {c : Conversation α} (h : Sparing writes n c) :
    (Service.ofArchive c).run.Within Errand.Reads (Errand.Puts writes) n := h.withArchive.map _

/-- Nothing that is asked of the collaborator is asked of the archive. -/
theorem within_ofCollaborator (e : Completion.Exchange (Except Completion.Fault α)) :
    (ofCollaborator e).run.Within Errand.Reads (Errand.Puts writes) 0 := by
  have hfree : e.Within (fun _ => True) (fun _ => False) 0 := by
    induction e with
    | done a => exact within_done a
    | ask q next ih => exact .inl ⟨trivial, ih⟩
  exact (hfree.relay (fun _ _ => within_read trivial) fun _ => False.elim).map _

/-- A proposal is asked for and tried, and nothing is written whatever it is. -/
theorem within_propose (s : Settings) (id : String) (b : ProposeBody) :
    (propose s id b).run.Within Errand.Reads (Errand.Puts writes) 0 := by
  rw [propose]
  split
  · exact within_done _
  · have hread : Sparing writes 0 (do Conversation.find id; Conversation.current id) :=
      Sparing.find.andThen (n := 0) fun _ => Sparing.current
    exact hread.ofArchive.andThen (n := 0) fun record =>
      (within_ofCollaborator _).andThen (n := 0) fun proposal =>
        Sparing.preview.ofArchive.andThen (n := 0) fun _ => within_done _

/-- A route that is there for an edit. -/
def Route.Edits : Route → Prop
  | .create | .commit _ | .rollback _ => True
  | _ => False

/-- A task of another route writes nothing. -/
theorem within_perform_of_not_edits {route : Route} {t : Target} {content : Request.Content}
    {task : Task} (hroute : ¬route.Edits) (h : Task.read route t content = .good task)
    (s : Settings) (caller : Caller) (trace : String) :
    (perform s caller trace task).run.Within Errand.Reads (Errand.Puts writes) 0 := by
  cases route with
  | create | commit | rollback => exact absurd trivial hroute
  | current id =>
    cases h
    exact Sparing.showCurrent.ofArchive.mapResult _
  | history id =>
    obtain ⟨limit, -, rfl⟩ := Shape.Checked.exists_of_map h
    exact Sparing.showHistory.ofArchive.mapResult _
  | version id =>
    obtain ⟨number, -, rfl⟩ := Shape.Checked.exists_of_map h
    exact Sparing.showVersion.ofArchive.mapResult _
  | simulate id =>
    obtain ⟨b, -, rfl⟩ := Shape.Checked.exists_of_map h
    have hsimulate : Sparing writes 0 (simulate s id b) := Sparing.simulate
    exact hsimulate.withArchive.lift.andThen (n := 0) fun result => by
      cases result <;> exact within_done _
  | propose id =>
    obtain ⟨b, -, rfl⟩ := Shape.Checked.exists_of_map h
    exact (within_propose s id b).mapResult _
  | insights =>
    obtain ⟨b, -, rfl⟩ := Shape.Checked.exists_of_map h
    exact Within.mapResult (within_done _) _
  | health | about =>
    cases h
    exact within_done _

/-- A task asks the archive what its route is there for. -/
theorem within_perform {route : Route} {t : Target} {content : Request.Content} {task : Task}
    (h : Task.read route t content = .good task) (s : Settings) (caller : Caller) (trace : String) :
    (perform s caller trace task).run.Within Errand.Reads (Errand.Puts (route.Writes caller.id))
      1 := by
  cases route with
  | create =>
    obtain ⟨b, -, rfl⟩ := Shape.Checked.exists_of_map h
    exact Sparing.createDashboard.ofArchive.mapResult _
  | commit id =>
    obtain ⟨b, -, rfl⟩ := Shape.Checked.exists_of_map h
    exact Sparing.commit.ofArchive.mapResult _
  | rollback id =>
    obtain ⟨b, -, rfl⟩ := Shape.Checked.exists_of_map h
    exact Sparing.rollback.ofArchive.mapResult _
  | _ => exact (within_perform_of_not_edits id h s caller trace).mono (Nat.zero_le 1)

end Tasks

/-! ## 4. Requests -/

/-- A request that leads to a route is one to its path with its method. -/
theorem of_lead_eq_route {method : String} {t : Target} {route : Route}
    (h : lead method t = .route route) :
    Route.ofSegments? t.segments = some route ∧ route.method.text = method := by
  rw [lead] at h
  split at h
  · rename_i found hfound
    split at h
    · obtain rfl := Lead.route.inj h
      exact ⟨hfound, ‹_›⟩
    · cases h
  · split at h
    · split at h <;> cases h
    · split at h <;> cases h

/-- What leads to a route does more than ask whether a request may be sent. -/
theorem Request.isPreflight_of_lead {r : Request} {route : Route}
    (h : lead r.method r.target = .route route) : r.isPreflight = false := by
  have hmethod := (of_lead_eq_route h).2
  have hother : (r.method == "OPTIONS") = false := by
    rw [← hmethod]
    cases route.method <;> rfl
  rw [Request.isPreflight, hother]
  rfl

/-- A request that may put a question to the archive: it comes in on a route that is there for edits,
and the question is one of that route, in the name of the caller.  Where identities are required, the
caller has one and the role of an editor. -/
structure State.Permits (s : State) (r : Request) (q : Question) : Prop where
  route : ∃ route, lead r.method r.target = .route route ∧ route.Writes r.caller.id q
  archive : s.hasArchive = true
  caller : s.settings.requireIdentity = true →
    r.caller.isKnown = true ∧ r.caller.isEditor s.settings = true

/-- A request is let in only if nothing that its route needs is missing. -/
theorem State.unmet?_of_admission {s s' : State} {now : Float} {needs : Needs} {caller : Caller}
    (h : s.admission now needs caller = (none, s')) :
    needs.unmet? s.settings s.hasArchive caller = none ∧ s'.settings = s.settings := by
  rw [State.admission] at h
  split at h
  · rename_i hunmet _ _
    obtain ⟨-, rfl⟩ := Prod.mk.inj h
    exact ⟨hunmet, rfl⟩
  · exact ⟨(Prod.mk.inj h).1, congrArg State.settings (Prod.mk.inj h).2.symm⟩

/-- A question that writes is asked on a route that needs an archive, an identity and an editor. -/
theorem Route.needs_of_writes {route : Route} {author : Option String} {q : Question}
    (h : route.Writes author q) :
    route.needs.archive = true ∧ route.needs.identity = true ∧ route.needs.editor = true := by
  cases route with
  | create | commit | rollback => exact ⟨rfl, rfl, rfl⟩
  | _ => exact h.elim

/-- Everything is in place that a route needs. -/
theorem Needs.unmet?_eq_none_iff {needs : Needs} {s : Settings} {hasArchive : Bool}
    {caller : Caller} : needs.unmet? s hasArchive caller = none ↔
      (needs.archive = true → hasArchive = true) ∧
      (needs.endpoint = true → s.endpoint?.isSome = true) ∧
      (needs.identity = true → s.requireIdentity = true → caller.isKnown = true) ∧
      (needs.editor = true → s.requireIdentity = true → caller.isEditor s = true) := by
  have hstep : ∀ (missing : Bool) (f : Failure) (rest : Option Failure),
      (if missing then some f else rest) = none ↔ missing = false ∧ rest = none := by
    intro missing f rest
    cases missing <;> simp
  have hendpoint : s.endpoint?.isNone = !s.endpoint?.isSome := by cases s.endpoint? <;> rfl
  rw [Needs.unmet?, hstep, hstep, hstep, hstep, hendpoint]
  grind

/-- A caller who has been let in on a route may put the questions of the route. -/
theorem State.permits_of_met {s : State} {r : Request} {route : Route} {q : Question}
    (hlead : lead r.method r.target = .route route)
    (hmet : route.needs.unmet? s.settings s.hasArchive r.caller = none)
    (hq : route.Writes r.caller.id q) : s.Permits r q := by
  obtain ⟨harchive, hidentity, heditor⟩ := Route.needs_of_writes hq
  obtain ⟨hthere, -, hknown, hrole⟩ := Needs.unmet?_eq_none_iff.1 hmet
  exact ⟨⟨route, hlead, hq⟩, hthere harchive,
    fun hrequired => ⟨hknown hidentity hrequired, hrole heditor hrequired⟩⟩

@[simp] theorem State.settings_trace (s : State) (r : Request) :
    (s.trace r).2.settings = s.settings := by
  rw [State.trace]
  split <;> rfl

@[simp] theorem State.hasArchive_trace (s : State) (r : Request) :
    (s.trace r).2.hasArchive = s.hasArchive := by
  rw [State.trace]
  split <;> rfl

/-- A request that is let in on a route and sets a task there. -/
structure State.Sets (s : State) (r : Request) (route : Route) (task : Task) : Prop where
  lead : lead r.method r.target = .route route
  met : route.needs.unmet? s.settings s.hasArchive r.caller = none
  read : ∃ content, contentFor route r = .ok content ∧ Task.read route r.target content = .good task

/-- A request is answered at once, or by carrying out the task that it sets. -/
theorem State.receive_cases (s : State) (now : Float) (r : Request) :
    (∃ response, (s.receive now r).1 = .done response) ∨
      ∃ route task, s.Sets r route task ∧
        (s.receive now r).1 = answer s.settings r.caller (s.trace r).1 task := by
  rw [State.receive]
  dsimp only
  split
  · exact .inl ⟨_, rfl⟩
  split
  · rename_i route hlead
    rw [State.follow]
    split
    · exact .inl ⟨_, rfl⟩
    · exact .inl ⟨_, rfl⟩
    rename_i content hcontent
    split
    · exact .inl ⟨_, rfl⟩
    rename_i s' hadmitted
    obtain ⟨hmet, hsettings⟩ := State.unmet?_of_admission hadmitted
    rw [settings_trace] at hmet hsettings
    rw [hasArchive_trace] at hmet
    split
    · rename_i task hread
      exact .inr ⟨route, task, ⟨hlead, hmet, content, hcontent, hread⟩, by rw [hsettings]⟩
    · exact .inl ⟨_, rfl⟩
  all_goals exact .inl ⟨_, rfl⟩

/-- Whatever is replied, the answer to a request asks at most one question that writes, which is one
that the request may put. -/
theorem State.within_receive (s : State) (now : Float) (r : Request) :
    (s.receive now r).1.Within Errand.Reads (Errand.Puts (s.Permits r)) 1 := by
  obtain ⟨response, hdone⟩ | ⟨route, task, ⟨hlead, hmet, content, -, hread⟩, hanswer⟩ :=
    s.receive_cases now r
  · rw [hdone]
    exact within_done _
  rw [hanswer]
  have hperform := within_perform hread s.settings r.caller (s.trace r).1
  refine Within.imp (Within.bind (n := 0) hperform fun result => ?_) fun errand h => ?_
  · cases result <;> exact within_done _
  · cases errand with
    | archive q => exact State.permits_of_met hlead hmet h
    | collaborator _ => exact h.elim

/-- A request that is let in, and sets a task on its route, is answered by carrying the task out. -/
theorem State.receive_eq_answer {s s' : State} {now : Float} {r : Request} {route : Route}
    {content : Request.Content} {task : Task} (hlead : lead r.method r.target = .route route)
    (hcontent : contentFor route r = .ok content)
    (hadmitted : (s.trace r).2.admission now route.needs r.caller = (none, s'))
    (hread : Task.read route r.target content = .good task) :
    s.receive now r = (answer s'.settings r.caller (s.trace r).1 task, s') := by
  rw [State.receive, Request.isPreflight_of_lead hlead, hlead]
  dsimp only
  rw [if_neg Bool.false_ne_true, State.follow, hcontent]
  dsimp only
  rw [hadmitted]
  dsimp only
  rw [hread]

end Service

end Dashboards
