import Dashboards.Proofs.History.Contract
import Dashboards.Proofs.Patch.Endings
import Dashboards.Proofs.Simulation

/-!
# The preview is what is committed

A commit simulates its patch once more before it stores anything.  As long as nobody else writes in
between, it comes to the same simulation as a preview: it goes through exactly if the preview is
valid, it stores the document of the preview, and otherwise it reports what the preview found.
-/

namespace Dashboards

namespace History

variable {rules : EditRules} {id : String} {expected : Int} {ops : List Operation}
  {author note : Option String} {latest : Record}

/-! ## 1. Dry runs -/

namespace Conversation

theorem dryRun_of_ne {record : Record} (h : expected ≠ record.version) :
    dryRun rules record expected ops =
      .ok (rules.simulate record.document record.version expected ops) := by
  rw [dryRun, EditRules.simulate_of_ne h, decide_eq_true h]
  rfl

/-- A dry run is given up only at a bound, which is nothing that a caller is told. -/
theorem failure?_of_dryRun {record : Record} {f : Fault}
    (h : dryRun rules record expected ops = .error f) : f.failure? = none := by
  rw [dryRun] at h
  split at h
  · exact Except.error.inj h ▸ rfl
  · split at h
    · cases h
    · exact Except.error.inj h ▸ rfl

/-- A patch with an index of too many digits is given up in its dry run. -/
theorem dryRun_of_overlong {record : Record} {op : Operation} {digits : Nat}
    (h : (op.attempt (.obj record.document)).fault = some (.overlongIndex digits)) :
    ∃ excess, dryRun rules record record.version [op] = .error (.beyond excess) := by
  have hunfinished : rules.policy.checkInTurn 0 (.obj record.document) [op] =
      rules.policy.checkOperation op (.obj record.document) (some 0) ++
        [⟨.fault (.overlongIndex digits), some op.path, some 0⟩] := by
    rw [Policy.checkInTurn, Policy.unfinished, h]
    exact List.append_nil _
  have hsimulate : rules.simulate record.document record.version record.version [op] =
      .refused record.document record.version
        (rules.policy.checkInTurn 0 (.obj record.document) [op]) [] := by
    rw [EditRules.simulate, if_neg fun hne => hne rfl]
    split
    · rename_i hnone
      rw [hunfinished] at hnone
      exact absurd hnone (List.append_ne_nil_of_right_ne_nil _ (List.cons_ne_nil _ _))
    · rfl
  have hexcess : (rules.simulate record.document record.version record.version [op]).excess?.isSome := by
    rw [hsimulate, Simulation.excess?, Simulation.refused, hunfinished, List.findSome?_isSome_iff]
    exact ⟨_, List.mem_append_right _ (List.mem_singleton_self _), rfl⟩
  obtain ⟨excess, hexcess⟩ := Option.isSome_iff_exists.1 hexcess
  exact ⟨excess, by rw [dryRun, hexcess]⟩

/-- A commit reads the current record, has its patch approved and swaps the versions, whoever
answers. -/
theorem run_commit {τ : Type} (respond : (q : Question) → τ → Answer q × τ) (rules : EditRules)
    (id : String) (expected : Int) (ops : List Operation) (author note : Option String) (a : τ) :
    Dialogue.run respond (commit rules id expected ops author note).run a =
      match respond (.current id) a with
      | (.error f, a₁) => (.error f, a₁)
      | (.ok latest, a₁) =>
        match approve rules latest expected ops with
        | .error f => (.error f, a₁)
        | .ok (new, s) =>
          match respond (.commit id latest.version ⟨new, author, note⟩) a₁ with
          | (.ok rec, a₂) => (.ok (rec, s), a₂)
          | (.error f, a₂) => (.error f, a₂) := by
  have hcurrent : Dialogue.run respond (current id).run a = respond (.current id) a := rfl
  rw [commit, run_bind, hcurrent]
  rcases respond (.current id) a with ⟨f | latest, a₁⟩
  · rfl
  dsimp only
  have happrove : Dialogue.run respond
      (ExceptT.mk (pure (approve rules latest expected ops)) : Conversation (Value × Simulation)).run
        a₁ = (approve rules latest expected ops, a₁) := rfl
  rw [run_bind, happrove]
  rcases approve rules latest expected ops with f | ⟨new, s⟩
  · rfl
  dsimp only
  have hput : Dialogue.run respond (put id latest.version ⟨new, author, note⟩).run a₁ =
      respond (.commit id latest.version ⟨new, author, note⟩) a₁ := rfl
  rw [run_bind, hput]
  rcases respond (.commit id latest.version ⟨new, author, note⟩) a₁ with ⟨_ | _, _⟩ <;> rfl

end Conversation

/-- What a refused simulation is reported as: the conflict of the versions, if there is one, and else
the code of the first issue with all issues as details. -/
theorem refusal_of_not_valid {s : Simulation}
    (hs : s = rules.simulate latest.document latest.version expected ops) (h : s.valid = false) :
    if expected = latest.version then
      ∃ first rest, s.issues = first :: rest ∧
        Conversation.refusal expected latest s = .rejected (first :: rest)
    else Conversation.refusal expected latest s = .stale expected latest.version := by
  split
  · rename_i hexpected
    subst hs hexpected
    obtain ⟨hvalid, htimeless⟩ :=
      EditRules.simulate_cases rules latest.document latest.version ops
    rw [Conversation.refusal, EditRules.not_isStale htimeless]
    cases hissues : (rules.simulate latest.document latest.version latest.version ops).issues with
    | nil => exact absurd (hvalid.2 hissues) (by rw [h]; exact nofun)
    | cons first rest => exact ⟨first, rest, rfl, rfl⟩
  · rename_i hexpected
    rw [Conversation.refusal, hs, EditRules.simulate_of_ne hexpected]
    rfl

namespace Registry

variable {r : Registry} {records : List Record}

/-! ## 2. The two conversations -/

theorem converse_simulate (h : r.current id = .ok latest) (rules : EditRules) (expected : Int)
    (ops : List Operation) :
    r.converse (Conversation.simulate rules id expected ops) =
      (Conversation.dryRun rules latest expected ops, r) := by
  have hcurrent : r.converse (Conversation.current id) = (.ok latest, r) := by
    show (r.current id, r) = _
    rw [h]
  rw [Conversation.simulate, converse_bind, hcurrent]
  rfl

theorem converse_commit (h : r.current id = .ok latest) (rules : EditRules) (expected : Int)
    (ops : List Operation) (author note : Option String) :
    r.converse (Conversation.commit rules id expected ops author note) =
      match Conversation.approve rules latest expected ops with
      | .error f => (.error f, r)
      | .ok (new, s) =>
        match r.commit id latest.version ⟨new, author, note⟩ with
        | (.ok rec, r') => (.ok (rec, s), r')
        | (.error f, r') => (.error f, r') := by
  have hcurrent : respond (.current id) r = (.ok latest, r) := by
    show (r.current id, r) = _
    rw [h]
  rw [Registry.converse, Conversation.run_commit, hcurrent]
  dsimp only
  rcases Conversation.approve rules latest expected ops with f | ⟨new, s⟩
  · rfl
  dsimp only
  have hcommit : respond (.commit id latest.version ⟨new, author, note⟩) r =
      r.commit id latest.version ⟨new, author, note⟩ := rfl
  rw [hcommit]
  rcases r.commit id latest.version ⟨new, author, note⟩ with ⟨_ | _, _⟩ <;> rfl

/-! ## 3. Preview and commit -/

theorem kept_of_current (h : r.current id = .ok latest) :
    ∃ records, r.histories.get? id = some records ∧ records.getLast? = some latest := by
  rw [Registry.current, Registry.find] at h
  cases hkept : r.histories.get? id with
  | none =>
    rw [hkept] at h
    cases h
  | some records =>
    rw [hkept] at h
    dsimp only [bind, Except.bind] at h
    cases hlast : records.getLast? with
    | none =>
      rw [hlast] at h
      cases h
    | some rec =>
      rw [hlast] at h
      obtain rfl : rec = latest := Except.ok.inj h
      exact ⟨records, rfl, hlast⟩

/-- A commit is refused as its patch is, or it appends the document that was approved. -/
theorem commit_cases (hintact : r.Intact) (hkept : r.histories.get? id = some records)
    (hlast : records.getLast? = some latest) (rules : EditRules) (expected : Int)
    (ops : List Operation) (author note : Option String) :
    let result := r.converse (Conversation.commit rules id expected ops author note)
    (∃ f, Conversation.approve rules latest expected ops = .error f ∧ result = (.error f, r)) ∨
      ∃ s new rec r', Conversation.approve rules latest expected ops = .ok (.obj new, s) ∧
        result = (.ok (rec, s), r') ∧ rec.Holds (latest.version + 1) new author note ∧
        r'.histories = r.histories.set id (records ++ [rec]) := by
  intro result
  have hresult : result = _ :=
    converse_commit (current_of_kept hkept hlast) rules expected ops author note
  have hlatest : latest.version = records.length :=
    (hintact.numbered id records hkept).version_last hlast
  rcases happrove : Conversation.approve rules latest expected ops with f | ⟨approved, s⟩
  · rw [happrove] at hresult
    exact .inl ⟨f, rfl, hresult⟩
  · rw [happrove] at hresult
    obtain ⟨-, -, new, -, -, rfl⟩ := Conversation.approve_eq_ok_iff.1 happrove
    -- The version that was simulated against is still the current one.
    have hcommit := commit_eq hintact hkept latest.version new author note
    rw [if_pos hlatest] at hcommit
    obtain ⟨rec, r', hcommit, hholds, hhistories⟩ := hcommit
    dsimp only at hresult
    rw [hcommit] at hresult
    exact .inr ⟨s, new, rec, r', rfl, hresult, hlatest ▸ hholds, hhistories⟩

/-- How the outcome of a commit, made for version `expected` while `latest` is the current record, is
bound to the preview of its patch. -/
structure FollowsPreview (room : Option Nat) (r r' : Registry) (id : String) (latest : Record)
    (expected : Int) (author note : Option String) (preview : Except Fault Simulation)
    (outcome : Except Fault (Record × Simulation)) : Prop where
  /-- The commit succeeds exactly if the preview is valid and its document can be copied. -/
  succeeds : (∃ a, outcome = .ok a) ↔ ∃ s new, preview = .ok s ∧ s.valid = true ∧
    s.newDocument = some new ∧ (Value.obj new).fits room = true
  /-- It appends the version that the preview announces, with the document of the preview and only
  the number put into it. -/
  stored : ∀ rec s, outcome = .ok (rec, s) → preview = .ok s ∧
    rec.version = s.willBeVersion ∧ s.willBeVersion = latest.version + 1 ∧
    ∃ new records, s.newDocument = some new ∧ rec.document = new.stamped (latest.version + 1) ∧
      rec.author = author ∧ rec.note = note ∧ r.histories.get? id = some records ∧
      r'.histories = r.histories.set id (records ++ [rec])
  /-- Otherwise nothing is changed. -/
  unchanged : ∀ f, outcome = .error f → r' = r
  /-- A patch that was made for another version is reported as such. -/
  stale : expected ≠ latest.version → outcome = .error (.stale expected latest.version)
  /-- Any other refusal has the code of the first issue of the preview, and all its issues in order as
  details, unless the commit was given up at a bound, which is reported to nobody: the preview was
  given up at the same bound, or it is valid and its document cannot be copied. -/
  refused : ∀ f, outcome = .error f → expected = latest.version →
    (∃ s first rest failure, preview = .ok s ∧ s.issues = first :: rest ∧
      f.failure? = some failure ∧ failure.code = first.code ∧
      failure.details = some (.obj [("errors", .arr (s.issues.map (·.toValue)))])) ∨
    f.failure? = none ∧ (preview = .error f ∨ ∃ s new, preview = .ok s ∧ s.valid = true ∧
      s.newDocument = some new ∧ (Value.obj new).fits room = false)

/-- A patch that is refused after its dry run is refused for the issues of the dry run. -/
theorem refused_of_not_valid {s : Simulation} {f : Fault}
    (hs : s = rules.simulate latest.document latest.version expected ops) (hvalid : s.valid = false)
    (hf : Conversation.refusal expected latest s = f) :
    (expected ≠ latest.version → f = .stale expected latest.version) ∧
      (expected = latest.version → ∃ first rest failure, s.issues = first :: rest ∧
        f.failure? = some failure ∧ failure.code = first.code ∧
        failure.details = some (.obj [("errors", .arr (s.issues.map (·.toValue)))])) := by
  have hrefusal := refusal_of_not_valid hs hvalid
  subst hf
  constructor
  · intro hne
    rwa [if_neg hne] at hrefusal
  · intro heq
    rw [if_pos heq] at hrefusal
    obtain ⟨first, rest, hissues, hrefusal⟩ := hrefusal
    refine ⟨first, rest, Fault.rejection first rest, hissues, ?_, rfl, ?_⟩
    · rw [hrefusal]
      rfl
    · rw [hissues]
      rfl

namespace FollowsPreview

/-- A dry run that meets a bound ends the commit at the same bound. -/
theorem of_error {f : Fault} (hdry : Conversation.dryRun rules latest expected ops = .error f) :
    FollowsPreview rules.room r r id latest expected author note (.error f) (.error f) where
  succeeds := ⟨nofun, nofun⟩
  stored := nofun
  unchanged _ _ := rfl
  -- What was made for another version is refused before any bound is met.
  stale hne := absurd (hdry.symm.trans (Conversation.dryRun_of_ne hne)) nofun
  refused f' hf' _ := by
    obtain rfl := Except.error.inj hf'
    exact .inr ⟨Conversation.failure?_of_dryRun hdry, .inl rfl⟩

theorem of_not_valid {s : Simulation}
    (hdry : Conversation.dryRun rules latest expected ops = .ok s) (hvalid : s.valid = false) :
    FollowsPreview rules.room r r id latest expected author note (.ok s)
      (.error (Conversation.refusal expected latest s)) := by
  obtain ⟨hversion, hissues⟩ := refused_of_not_valid (Conversation.dryRun_eq_ok hdry) hvalid rfl
  refine ⟨⟨nofun, ?_⟩, nofun, fun _ _ => rfl, fun hne => congrArg _ (hversion hne),
    fun f hf heq => .inl ?_⟩
  · rintro ⟨s', -, hs', hvalid', -⟩
    obtain rfl : s = s' := Except.ok.inj hs'
    exact absurd (hvalid.symm.trans hvalid') nofun
  · obtain ⟨first, rest, failure, hfirst, hfailure⟩ := hissues heq
    exact ⟨s, first, rest, failure, rfl, hfirst, Except.error.inj hf ▸ hfailure⟩

theorem of_not_fits {s : Simulation} {new : Document}
    (hdry : Conversation.dryRun rules latest expected ops = .ok s) (hvalid : s.valid = true)
    (hnew : s.newDocument = some new) (hfits : (Value.obj new).fits rules.room = false) :
    FollowsPreview rules.room r r id latest expected author note (.ok s)
      (.error (.beyond .deepDocument)) := by
  have hs := Conversation.dryRun_eq_ok hdry
  refine ⟨⟨nofun, ?_⟩, nofun, fun _ _ => rfl, fun hne => ?_, fun f hf _ => .inr ⟨?_, .inr ?_⟩⟩
  · rintro ⟨s', new', hs', -, hnew', hfits'⟩
    obtain rfl : s = s' := Except.ok.inj hs'
    obtain rfl : new = new' := Option.some.inj (hnew.symm.trans hnew')
    exact absurd (hfits.symm.trans hfits') nofun
  · exact absurd (EditRules.simulate_valid (hs ▸ hvalid)).1 hne
  · exact Except.error.inj hf ▸ rfl
  · exact ⟨s, new, rfl, hvalid, hnew, hfits⟩

theorem of_stored {s : Simulation} {new : Document} {rec : Record} {r' : Registry}
    (hkept : r.histories.get? id = some records)
    (happrove : Conversation.approve rules latest expected ops = .ok (.obj new, s))
    (hholds : rec.Holds (latest.version + 1) new author note)
    (hhistories : r'.histories = r.histories.set id (records ++ [rec])) :
    FollowsPreview rules.room r r' id latest expected author note (.ok s) (.ok (rec, s)) := by
  obtain ⟨hdry, hvalid, doc, hdoc, hfits, hnew⟩ := Conversation.approve_eq_ok_iff.1 happrove
  obtain rfl : new = doc := Value.obj.inj hnew
  have hs := Conversation.dryRun_eq_ok hdry
  have hversion : s.willBeVersion = latest.version + 1 := by
    rw [Simulation.willBeVersion, hs, EditRules.currentVersion_simulate]
  refine ⟨⟨fun _ => ⟨s, new, rfl, hvalid, hdoc, hfits⟩, fun _ => ⟨_, rfl⟩⟩, fun rec' s' hok => ?_,
    nofun, fun hne => ?_, nofun⟩
  · obtain ⟨rfl, rfl⟩ := Prod.mk.inj (Except.ok.inj hok)
    exact ⟨rfl, hholds.version.trans hversion.symm, hversion, new, records, hdoc, hholds.document,
      hholds.author, hholds.note, hkept, hhistories⟩
  · exact absurd (EditRules.simulate_valid (hs ▸ hvalid)).1 hne

/-- Where the patch is not approved, the commit ends as its dry run says. -/
theorem of_not_approved {f : Fault}
    (happrove : Conversation.approve rules latest expected ops = .error f) :
    FollowsPreview rules.room r r id latest expected author note
      (Conversation.dryRun rules latest expected ops) (.error f) := by
  cases hdry : Conversation.dryRun rules latest expected ops with
  | error g =>
    rw [Conversation.approve, hdry] at happrove
    obtain rfl : g = f := Except.error.inj happrove
    exact of_error hdry
  | ok s =>
    obtain ⟨hvalid, hrefused⟩ | ⟨hvalid, new, hnew, hcopied⟩ := Conversation.approve_of_dryRun hdry
    · obtain rfl := Except.error.inj (hrefused.symm.trans happrove)
      exact of_not_valid hdry hvalid
    · rw [happrove] at hcopied
      split at hcopied
      · cases hcopied
      · rename_i hfits
        obtain rfl := Except.error.inj hcopied
        exact of_not_fits hdry hvalid hnew (Bool.eq_false_iff.2 hfits)

end FollowsPreview

/-- After any commands, and with no other write in between, a commit follows the preview of its
patch. -/
theorem commit_follows_preview (start : Moment) (before : List Command) (rules : EditRules)
    (id : String) (expected : Int) (ops : List Operation) (author note : Option String)
    {latest : Record} (h : ((Registry.empty start).after before).current id = .ok latest) :
    let r := (Registry.empty start).after before
    let preview := r.converse (Conversation.simulate rules id expected ops)
    let commit := r.converse (Conversation.commit rules id expected ops author note)
    preview.2 = r ∧
      FollowsPreview rules.room r commit.2 id latest expected author note preview.1 commit.1 := by
  intro r preview commit
  have hintact : r.Intact := (intact_empty start).after before
  obtain ⟨records, hkept, hlast⟩ := kept_of_current h
  have hpreview : preview = (Conversation.dryRun rules latest expected ops, r) :=
    converse_simulate h rules expected ops
  rw [hpreview]
  refine ⟨rfl, ?_⟩
  obtain ⟨f, happrove, hresult⟩ | ⟨s, new, rec, r', happrove, hresult, hholds, hhistories⟩ :=
    commit_cases hintact hkept hlast rules expected ops author note
  all_goals rw [show commit = _ from hresult]
  · exact .of_not_approved happrove
  · rw [(Conversation.approve_eq_ok_iff.1 happrove).1]
    exact .of_stored hkept happrove hholds hhistories

/-- A dashboard that was renamed once. -/
def renamedDashboard : List Command :=
  [.create (some "sales") [("title", .str "Sales")] none none,
    .commit "sales" 1 [("title", .str "Sales 2")] none none]

/-- The patch of a new title, made for version 2. -/
def retitling : Conversation (Record × Simulation) :=
  Conversation.commit ⟨.default, 5, none⟩ "sales" 2 [⟨.replace, "/title", .str "Sales 3", none⟩] none none

/-- It is stored as version 3, with the document that its preview shows. -/
theorem commit_follows_preview_retitling :
    let r := (Registry.empty ⟨0⟩).after renamedDashboard
    let preview := r.converse (Conversation.simulate ⟨.default, 5, none⟩ "sales" 2
      [⟨.replace, "/title", .str "Sales 3", none⟩])
    (∃ latest, r.current "sales" = .ok latest ∧
      FollowsPreview none r (r.converse retitling).2 "sales" latest 2 none none preview.1
        (r.converse retitling).1) ∧
      ∃ rec s, (r.converse retitling).1 = .ok (rec, s) ∧
        s.newDocument = some [("title", .str "Sales 3"), ("version", .ofInt 2)] ∧
        rec.document = [("title", .str "Sales 3"), ("version", .ofInt 3)] :=
  ⟨⟨_, rfl, (commit_follows_preview ⟨0⟩ renamedDashboard ⟨.default, 5, none⟩ "sales" 2
      [⟨.replace, "/title", .str "Sales 3", none⟩] none none rfl).2⟩, _, _, rfl, rfl, rfl⟩

/-- A dashboard without charts. -/
def chartless : List Command := [.create (some "sales") [("charts", .arr [])] none none]

/-- The addition of a chart at an index with too many digits. -/
def farChart : Operation :=
  ⟨.add, (Pointer.mk ["charts", toString (10 ^ Excess.digitLimit)]).text, .str "bar", none⟩

/-- Its commit fails without a failure that could be reported, and so does its preview. -/
theorem commit_of_farChart :
    let r := (Registry.empty ⟨0⟩).after chartless
    ∃ f, (r.converse (Conversation.simulate ⟨.default, 5, none⟩ "sales" 1 [farChart])).1 = .error f ∧
      (r.converse (Conversation.commit ⟨.default, 5, none⟩ "sales" 1 [farChart] none none)).1 =
        .error f ∧ f.failure? = none := by
  intro r
  obtain ⟨latest, hlatest, hversion, hdocument⟩ : ∃ latest, r.current "sales" = .ok latest ∧
      latest.version = 1 ∧ latest.document = [("charts", .arr []), ("version", .ofInt 1)] :=
    ⟨_, rfl, rfl, rfl⟩
  obtain ⟨digits, hfault⟩ : ∃ digits, (farChart.attempt (.obj latest.document)).fault =
      some (.overlongIndex digits) :=
    Patch.fault_of_overlong (hdocument ▸ rfl) (Nat.le_refl (10 ^ Excess.digitLimit))
  obtain ⟨excess, hdry⟩ : ∃ excess, Conversation.dryRun ⟨.default, 5, none⟩ latest latest.version
      [farChart] = .error (.beyond excess) := Conversation.dryRun_of_overlong hfault
  rw [hversion] at hdry
  refine ⟨.beyond excess, ?_, ?_, rfl⟩
  · rw [converse_simulate hlatest, hdry]
  · rw [converse_commit hlatest, Conversation.approve, hdry]
    rfl

end Registry

end History

end Dashboards
