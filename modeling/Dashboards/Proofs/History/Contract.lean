import Dashboards.Proofs.History.Commands
import Dashboards.Proofs.Json.Reader

/-!
# The contract of the version history

What every run of commands on the registry in memory keeps, and what every command answers and leaves
behind after any run.  A command either leaves all histories as they are, or it succeeds and appends
one record to the history of its dashboard.
-/

namespace Dashboards

theorem Document.get?_stamped (doc : Document) (v : Int) :
    Members.get? (doc.stamped v) "version" = some (.ofInt v) := Members.get?_set_self _ _ _

namespace History

/-! ## 1. What a command does -/

/-- A record of a version that holds a draft: its document is the one of the draft with the number
put into it. -/
structure Record.Holds (rec : Record) (number : Int) (doc : Document) (by_ why : Option String) :
    Prop where
  version : rec.version = number
  document : rec.document = doc.stamped number
  author : rec.author = by_
  note : rec.note = why

/-- The dashboard that a command is about. -/
def Command.target (r : Registry) : Command → String
  | .create id .. => r.chosen id
  | .find id | .current id | .version id _ | .newest id _ | .commit id .. | .rollback id .. => id

namespace Registry

variable {α : Type}

/-- A dashboard that does not exist is reported, and one that exists is served from its records. -/
def Serves (r : Registry) (id : String) (answer : Except Fault α) (serve : List Record → Prop) :
    Prop :=
  match r.histories.get? id with
  | none => answer = .error (.unknownDashboard id)
  | some records => serve records

/-- The records have one more behind them, which is the answer. -/
def Appends (r' : Registry) (id : String) (records : List Record) (doc : Document)
    (author note : Option String) (answer : Except Fault Record) : Prop :=
  ∃ rec : Record, answer = .ok rec ∧ rec.Holds (records.length + 1) doc author note ∧
    r'.histories.get? id = some (records ++ [rec])

end Registry

/-- What a command is answered, and what becomes of the history of its dashboard. -/
def Command.Fulfilled (r r' : Registry) : (c : Command) → Except Fault c.Result → Prop
  | .create id doc author note, answer =>
    match r.histories.get? (r.chosen id) with
    | some _ => answer = .error (.takenId (r.chosen id))
    | none => answer = .ok (r.chosen id) ∧ ∃ rec : Record, rec.Holds 1 doc author note ∧
        r'.histories.get? (r.chosen id) = some [rec]
  | .find id, answer => r' = r ∧ r.Serves id answer fun _ => answer = .ok ()
  | .current id, answer =>
    r' = r ∧ r.Serves id answer fun records =>
      ∃ rec ∈ records, rec.version = records.length ∧ answer = .ok rec
  | .version id number, answer =>
    r' = r ∧ r.Serves id answer fun records =>
      if 1 ≤ number ∧ number ≤ records.length then
        ∃ rec ∈ records, rec.version = number ∧ answer = .ok rec
      else answer = .error (.unknownVersion id number)
  | .newest id limit, answer =>
    r' = r ∧ r.Serves id answer fun records =>
      ∃ found, answer = .ok found ∧ (found.length : Int) = min (max limit 0) records.length ∧
        ∀ i < found.length, found[i]? = records[records.length - 1 - i]?
  | .commit id expected doc author note, answer =>
    r.Serves id answer fun records =>
      if expected = records.length then r'.Appends id records doc author note answer
      else answer = .error (.stale expected records.length)
  | .rollback id target author, answer =>
    r.Serves id answer fun records =>
      if 1 ≤ target ∧ target ≤ records.length then
        ∃ earlier ∈ records, earlier.version = target ∧
          r'.Appends id records earlier.document author (some (rollbackNote target)) answer
      else answer = .error (.unknownVersion id target)

/-- A command leaves all histories as they are, or it succeeds and the history of its dashboard has
one record more. -/
def Command.Effect (r r' : Registry) (c : Command) (answer : Except Fault c.Result) : Prop :=
  r'.histories = r.histories ∨
    ∃ records rec doc author note, (r.histories.get? (c.target r)).getD [] = records ∧
      (∃ a, answer = .ok a) ∧ rec.Holds (records.length + 1) doc author note ∧
      r'.histories = r.histories.set (c.target r) (records ++ [rec])

namespace Registry

/-- What holds of a registry whatever it was asked before. -/
structure Intact (r : Registry) : Prop where
  /-- No id stands for two dashboards. -/
  distinct : r.histories.keys.Nodup
  /-- A dashboard has a first version. -/
  nonempty : ∀ id records, r.histories.get? id = some records → records ≠ []
  /-- The versions are numbered without a gap. -/
  numbered : ∀ id records, r.histories.get? id = some records → Numbered records
  /-- Every document carries the number of its version. -/
  stamped : ∀ id records, r.histories.get? id = some records → ∀ rec ∈ records,
    Members.get? rec.document "version" = some (.ofInt rec.version)

variable {r r' : Registry} {id : String} {records : List Record}

/-! ## 2. Single questions -/

/-- The latest record carries the number of versions. -/
theorem Intact.latest (h : r.Intact) (hkept : r.histories.get? id = some records) :
    ∃ latest ∈ records, records.getLast? = some latest ∧ latest.version = records.length := by
  have hne := h.nonempty id records hkept
  have hlast : records.getLast? = some (records.getLast hne) := List.getLast?_eq_some_getLast hne
  exact ⟨_, List.getLast_mem hne, hlast, (h.numbered id records hkept).version_last hlast⟩

theorem create_of_taken (h : r.histories.get? id = some records) (first : Draft) :
    r.create id first = (.error (.takenId id), r) := by
  rw [Registry.create, Members.contains, h]
  rfl

theorem create_of_new (h : r.histories.get? id = none) (doc : Document)
    (author note : Option String) :
    ∃ rec r', r.create id ⟨.obj doc, author, note⟩ = (.ok (), r') ∧ rec.Holds 1 doc author note ∧
      r'.histories = r.histories.set id [rec] := by
  refine ⟨⟨1, doc.stamped 1, r.clock.text, author, note⟩,
    { r with clock := r.clock.next }.store id [_], ?_, ⟨rfl, rfl, rfl, rfl⟩, rfl⟩
  rw [Registry.create, Members.contains, h, Option.isSome_none, if_neg Bool.false_ne_true,
    Registry.record, stamp_obj, Record.make_obj (by decide)]

/-- The records are looked up by their numbers. -/
theorem version_eq (hkept : r.histories.get? id = some records) (hnum : Numbered records)
    (number : Int) :
    if 1 ≤ number ∧ number ≤ records.length then
      ∃ rec ∈ records, rec.version = number ∧ r.version id number = .ok rec
    else r.version id number = .error (.unknownVersion id number) := by
  rw [Registry.version, find_of_kept hkept]
  dsimp only [bind, Except.bind]
  split
  · rename_i hnumber
    have hlt : (number - 1).toNat < records.length := by omega
    have hget : records[(number - 1).toNat]? = some records[(number - 1).toNat] :=
      List.getElem?_eq_getElem hlt
    refine ⟨records[(number - 1).toNat], List.getElem_mem hlt, ?_, ?_⟩
    · have hversion := hnum _ _ hget
      omega
    · rw [if_pos hnumber.1, hget]
      rfl
  · rename_i hnumber
    have hnone : (if 1 ≤ number then records[(number - 1).toNat]? else none) = none := by
      split
      · exact List.getElem?_eq_none (by omega)
      · rfl
    rw [hnone]
    rfl

theorem newest_eq (hkept : r.histories.get? id = some records) (limit : Int) :
    ∃ found, r.newest id limit = .ok found ∧
      (found.length : Int) = min (max limit 0) records.length ∧
      ∀ i < found.length, found[i]? = records[records.length - 1 - i]? := by
  refine ⟨records.reverse.take limit.toNat, ?_, ?_, fun i hi => ?_⟩
  · rw [Registry.newest, find_of_kept hkept]
    rfl
  · rw [List.length_take, List.length_reverse]
    omega
  · rw [List.length_take, List.length_reverse] at hi
    rw [List.getElem?_take_of_lt (by omega), List.getElem?_reverse (by omega)]

theorem commit_eq (h : r.Intact) (hkept : r.histories.get? id = some records) (expected : Int)
    (doc : Document) (author note : Option String) :
    if expected = records.length then
      ∃ rec r', r.commit id expected ⟨.obj doc, author, note⟩ = (.ok rec, r') ∧
        rec.Holds (records.length + 1) doc author note ∧
        r'.histories = r.histories.set id (records ++ [rec])
    else r.commit id expected ⟨.obj doc, author, note⟩ =
      (.error (.stale expected records.length), r) := by
  obtain ⟨latest, -, hlast, hversion⟩ := h.latest hkept
  split
  · rename_i hexpected
    obtain ⟨rec, r', hcommit, hnumber, hdoc, hauthor, hnote, hhistories⟩ :=
      commit_of_latest hkept hlast (by omega) doc author note
    rw [hversion] at hcommit hnumber hdoc
    exact ⟨rec, r', hexpected ▸ hcommit, ⟨hnumber, hdoc, hauthor, hnote⟩, hhistories⟩
  · rename_i hexpected
    rw [commit_of_stale hkept hlast (by omega), hversion]

/-! ## 3. Commands -/

/-- A registry that is only read stays as it is, and answers from the records of the dashboard. -/
theorem serves_of_read {α : Type} {c : Conversation α} {answer : Except Fault α}
    (serve : List Record → Except Fault α → Prop) (hread : r.converse c = (answer, r))
    (hserve : ∀ records, r.histories.get? id = some records → serve records answer) :
    let result := r.converse (do Conversation.find id; c)
    result.2 = r ∧ r.Serves id result.1 fun records => serve records result.1 := by
  intro result
  rw [Registry.Serves]
  cases hkept : r.histories.get? id with
  | none =>
    have hresult : result = (.error (.unknownDashboard id), r) := converse_unopened hkept c
    rw [hresult]
    exact ⟨rfl, rfl⟩
  | some records =>
    have hresult : result = (answer, r) := (converse_opened hkept c).trans hread
    rw [hresult]
    exact ⟨rfl, hserve records hkept⟩

theorem execute_find (r : Registry) (id : String) :
    (Command.find id).Fulfilled r (r.execute (.find id)).2 (r.execute (.find id)).1 := by
  refine ⟨rfl, ?_⟩
  have hexec : r.execute (.find id) = ((r.find id).map fun _ => (), r) := rfl
  rw [hexec, Registry.Serves, Registry.find]
  cases r.histories.get? id <;> rfl

theorem execute_current (h : r.Intact) (id : String) :
    (Command.current id).Fulfilled r (r.execute (.current id)).2 (r.execute (.current id)).1 := by
  have hread : r.converse (Conversation.current id) = (r.current id, r) := rfl
  refine serves_of_read (fun records answer => ∃ rec ∈ records, rec.version = records.length ∧
    answer = .ok rec) hread fun records hkept => ?_
  obtain ⟨latest, hmem, hlast, hversion⟩ := h.latest hkept
  exact ⟨latest, hmem, hversion, current_of_kept hkept hlast⟩

theorem execute_version (h : r.Intact) (id : String) (number : Int) :
    (Command.version id number).Fulfilled r (r.execute (.version id number)).2
      (r.execute (.version id number)).1 := by
  have hread : r.converse (Conversation.version id number) = (r.version id number, r) := rfl
  exact serves_of_read (fun records answer => if 1 ≤ number ∧ number ≤ records.length then
      ∃ rec ∈ records, rec.version = number ∧ answer = .ok rec
    else answer = .error (.unknownVersion id number)) hread
    fun records hkept => version_eq hkept (h.numbered id records hkept) number

theorem execute_newest (r : Registry) (id : String) (limit : Int) :
    (Command.newest id limit).Fulfilled r (r.execute (.newest id limit)).2
      (r.execute (.newest id limit)).1 := by
  have hread : r.converse (Conversation.newest id limit) = (r.newest id limit, r) := rfl
  exact serves_of_read (fun records answer => ∃ found, answer = .ok found ∧
      (found.length : Int) = min (max limit 0) records.length ∧
      ∀ i < found.length, found[i]? = records[records.length - 1 - i]?)
    hread fun _ hkept => newest_eq hkept limit

/-- A record that was appended to the history of a command's dashboard is what the command did. -/
theorem effect_of_appended {c : Command} {answer : Except Fault c.Result} {rec : Record}
    {doc : Document} {author note : Option String}
    (hkept : r.histories.get? (c.target r) = some records)
    (hok : ∃ a, answer = .ok a) (hholds : rec.Holds (records.length + 1) doc author note)
    (hhistories : r'.histories = r.histories.set (c.target r) (records ++ [rec])) :
    c.Effect r r' answer := by
  refine .inr ⟨records, rec, doc, author, note, ?_, hok, hholds, hhistories⟩
  rw [hkept]
  rfl

theorem execute_create (given : Option String) (doc : Document) (author note : Option String) :
    let c := Command.create given doc author note
    c.Fulfilled r (r.execute c).2 (r.execute c).1 ∧ c.Effect r (r.execute c).2 (r.execute c).1 := by
  intro c
  obtain ⟨r₁, hsame, hexec⟩ := converse_create given ⟨.obj doc, author, note⟩ r
  have hexecute : r.execute c = _ := hexec
  rw [hexecute]
  show (match r.histories.get? (r.chosen given) with
    | some _ => _
    | none => _) ∧ _
  cases hkept : r.histories.get? (r.chosen given) with
  | some records =>
    rw [create_of_taken (hsame ▸ hkept)]
    exact ⟨rfl, .inl hsame⟩
  | none =>
    obtain ⟨rec, r', hcreate, hholds, hhistories⟩ := create_of_new (hsame ▸ hkept) doc author note
    rw [hsame] at hhistories
    rw [hcreate]
    have hrecords : r'.histories.get? (r.chosen given) = some [rec] := by
      rw [hhistories, Members.get?_set_self]
    have hnone : (r.histories.get? (r.chosen given)).getD [] = [] := by
      rw [hkept]
      rfl
    exact ⟨⟨rfl, rec, hholds, hrecords⟩,
      .inr ⟨[], rec, doc, author, note, hnone, ⟨_, rfl⟩, hholds, hhistories⟩⟩

theorem execute_commit (h : r.Intact) (id : String) (expected : Int) (doc : Document)
    (author note : Option String) :
    let c := Command.commit id expected doc author note
    c.Fulfilled r (r.execute c).2 (r.execute c).1 ∧ c.Effect r (r.execute c).2 (r.execute c).1 := by
  intro c
  show r.Serves id _ _ ∧ _
  rw [Registry.Serves]
  cases hkept : r.histories.get? id with
  | none =>
    have hexec : r.execute c = (.error (.unknownDashboard id), r) := converse_unopened hkept _
    rw [hexec]
    exact ⟨rfl, .inl rfl⟩
  | some records =>
    have hexec : r.execute c = r.commit id expected ⟨.obj doc, author, note⟩ :=
      converse_opened hkept _
    have hcommit := commit_eq h hkept expected doc author note
    rw [hexec]
    dsimp only
    split
    · rename_i hexpected
      rw [if_pos hexpected] at hcommit
      obtain ⟨rec, r', hcommit, hholds, hhistories⟩ := hcommit
      rw [hcommit]
      exact ⟨⟨rec, rfl, hholds, by rw [hhistories, Members.get?_set_self]⟩,
        effect_of_appended hkept ⟨rec, rfl⟩ hholds hhistories⟩
    · rename_i hexpected
      rw [if_neg hexpected] at hcommit
      rw [hcommit]
      exact ⟨rfl, .inl rfl⟩

theorem converse_rollback (r : Registry) (id : String) (target : Int) (author : Option String) :
    r.converse (Conversation.rollback id target author) =
      match r.version id target, r.current id with
      | .ok earlier, .ok latest =>
        r.commit id latest.version ⟨.obj earlier.document, author, some (rollbackNote target)⟩
      | .error f, _ | _, .error f => (.error f, r) := by
  have hversion : r.converse (Conversation.version id target) = (r.version id target, r) := rfl
  have hcurrent : r.converse (Conversation.current id) = (r.current id, r) := rfl
  rw [Conversation.rollback, converse_bind, hversion]
  cases r.version id target with
  | error f => rfl
  | ok earlier =>
    show r.converse (Conversation.current id >>= _) = _
    rw [converse_bind, hcurrent]
    cases r.current id with
    | error f => rfl
    | ok latest => rfl

theorem execute_rollback (h : r.Intact) (id : String) (target : Int) (author : Option String) :
    let c := Command.rollback id target author
    c.Fulfilled r (r.execute c).2 (r.execute c).1 ∧ c.Effect r (r.execute c).2 (r.execute c).1 := by
  intro c
  show r.Serves id _ _ ∧ _
  rw [Registry.Serves]
  cases hkept : r.histories.get? id with
  | none =>
    have hexec : r.execute c = (.error (.unknownDashboard id), r) := converse_unopened hkept _
    rw [hexec]
    exact ⟨rfl, .inl rfl⟩
  | some records =>
    have hexec : r.execute c = _ :=
      (converse_opened hkept _).trans (converse_rollback r id target author)
    obtain ⟨latest, -, hlast, hlatest⟩ := h.latest hkept
    have hversion := version_eq hkept (h.numbered id records hkept) target
    rw [hexec, current_of_kept hkept hlast]
    dsimp only
    split
    · rename_i htarget
      rw [if_pos htarget] at hversion
      obtain ⟨earlier, hmem, hnumber, hversion⟩ := hversion
      -- The version that is read in between is the current one, so the commit goes through.
      have hcommit := commit_eq h hkept latest.version earlier.document author
        (some (rollbackNote target))
      rw [if_pos hlatest] at hcommit
      obtain ⟨rec, r', hcommit, hholds, hhistories⟩ := hcommit
      rw [hversion]
      dsimp only
      rw [hcommit]
      exact ⟨⟨earlier, hmem, hnumber, rec, rfl, hholds, by rw [hhistories, Members.get?_set_self]⟩,
        effect_of_appended hkept ⟨rec, rfl⟩ hholds hhistories⟩
    · rename_i htarget
      rw [if_neg htarget] at hversion
      rw [hversion]
      exact ⟨rfl, .inl rfl⟩

/-- Every command is answered as the contract says, and does no more. -/
theorem execute_fulfilled (h : r.Intact) (c : Command) :
    c.Fulfilled r (r.execute c).2 (r.execute c).1 ∧ c.Effect r (r.execute c).2 (r.execute c).1 := by
  cases c with
  | create id doc author note => exact execute_create id doc author note
  | commit id expected doc author note => exact execute_commit h id expected doc author note
  | rollback id target author => exact execute_rollback h id target author
  | find id => exact ⟨execute_find r id, .inl (congrArg _ (execute_find r id).1)⟩
  | current id => exact ⟨execute_current h id, .inl (congrArg _ (execute_current h id).1)⟩
  | version id number =>
    exact ⟨execute_version h id number, .inl (congrArg _ (execute_version h id number).1)⟩
  | newest id limit =>
    exact ⟨execute_newest r id limit, .inl (congrArg _ (execute_newest r id limit).1)⟩

/-! ## 4. Runs of commands -/

theorem intact_empty (start : Moment) : (Registry.empty start).Intact := by
  constructor
  · exact List.nodup_nil
  all_goals
    intro id records hget
    cases hget

/-- What holds of the records of a registry holds still when a command has appended one. -/
theorem Intact.of_effect (h : r.Intact) {c : Command} {answer : Except Fault c.Result}
    (heffect : c.Effect r r' answer) : r'.Intact := by
  obtain hsame | ⟨records, rec, doc, author, note, hrecords, -, hholds, hhistories⟩ := heffect
  · exact ⟨hsame ▸ h.distinct, hsame ▸ h.nonempty, hsame ▸ h.numbered, hsame ▸ h.stamped⟩
  · -- Only the history of the command's dashboard is another one.
    have hkept : ∀ id records', r'.histories.get? id = some records' →
        r.histories.get? id = some records' ∨ records' = records ++ [rec] := by
      intro id records' hget
      rw [hhistories] at hget
      by_cases hid : id = c.target r
      · rw [hid, Members.get?_set_self] at hget
        exact .inr (Option.some.inj hget).symm
      · rw [Members.get?_set_of_ne _ _ hid] at hget
        exact .inl hget
    have hold : Numbered records ∧ ∀ rec ∈ records,
        Members.get? rec.document "version" = some (.ofInt rec.version) := by
      cases hget : r.histories.get? (c.target r) with
      | none =>
        rw [hget] at hrecords
        subst hrecords
        exact ⟨fun _ _ hget => (by cases hget), fun _ hmem => (by cases hmem)⟩
      | some records' =>
        rw [hget] at hrecords
        subst hrecords
        exact ⟨h.numbered _ _ hget, h.stamped _ _ hget⟩
    refine ⟨?_, fun id records' hget => ?_, fun id records' hget => ?_, fun id records' hget => ?_⟩
    · rw [hhistories]
      exact Members.nodup_keys_set h.distinct _ _
    · obtain hget | rfl := hkept id records' hget
      · exact h.nonempty id records' hget
      · exact List.append_ne_nil_of_right_ne_nil _ (List.cons_ne_nil rec [])
    · obtain hget | rfl := hkept id records' hget
      · exact h.numbered id records' hget
      · exact hold.1.append hholds.version
    · obtain hget | rfl := hkept id records' hget
      · exact h.stamped id records' hget
      · intro rec' hmem
        rcases List.mem_append.1 hmem with hmem | hmem
        · exact hold.2 rec' hmem
        · obtain rfl := List.mem_singleton.1 hmem
          rw [hholds.document, hholds.version, Document.get?_stamped]

/-- Whatever a command does, records stay where they are. -/
theorem grown_of_effect {c : Command} {answer : Except Fault c.Result}
    (heffect : c.Effect r r' answer) (hkept : r.histories.get? id = some records) :
    ∃ more, r'.histories.get? id = some (records ++ more) := by
  obtain hsame | ⟨records', rec, -, -, -, hrecords, -, -, hhistories⟩ := heffect
  · exact ⟨[], by rw [hsame, hkept, List.append_nil]⟩
  · rw [hhistories]
    by_cases hid : id = c.target r
    · subst hid
      rw [hkept] at hrecords
      obtain rfl : records = records' := hrecords
      exact ⟨[rec], Members.get?_set_self _ _ _⟩
    · exact ⟨[], by rw [Members.get?_set_of_ne _ _ hid, hkept, List.append_nil]⟩

theorem after_cons (c : Command) (commands : List Command) (r : Registry) :
    r.after (c :: commands) = (r.execute c).2.after commands := rfl

theorem Intact.after (h : r.Intact) (commands : List Command) : (r.after commands).Intact := by
  induction commands generalizing r with
  | nil => exact h
  | cons c commands ih =>
    rw [after_cons]
    exact ih (h.of_effect (execute_fulfilled h c).2)

theorem grown_after (h : r.Intact) (commands : List Command)
    (hkept : r.histories.get? id = some records) :
    ∃ more, (r.after commands).histories.get? id = some (records ++ more) := by
  induction commands generalizing r records with
  | nil => exact ⟨[], by rw [List.append_nil]; exact hkept⟩
  | cons c commands ih =>
    have heffect := (execute_fulfilled h c).2
    obtain ⟨some_, hnext⟩ := grown_of_effect heffect hkept
    obtain ⟨more, hlast⟩ := ih (h.of_effect heffect) hnext
    exact ⟨some_ ++ more, by rw [after_cons, hlast, List.append_assoc]⟩

/-- The contract of the version history.  After any commands, ids are distinct, every history is
numbered from 1 and every document carries its number; the next command is answered from the records
of its dashboard and does no more than to append to them; a command that fails leaves every history
as it is, a command on one dashboard leaves those of all others, and no later command takes a record
away. -/
theorem contract_of_commands (start : Moment) (before : List Command) (c : Command)
    (later : List Command) :
    let r := (Registry.empty start).after before
    let answer := (r.execute c).1
    let r' := (r.execute c).2
    r.Intact ∧ c.Fulfilled r r' answer ∧
      (∀ f, answer = .error f → r'.histories = r.histories) ∧
      (∀ id, id ≠ c.target r → r'.histories.get? id = r.histories.get? id) ∧
      ∀ id records, r.histories.get? id = some records →
        ∃ more, (r'.after later).histories.get? id = some (records ++ more) := by
  intro r answer r'
  have hintact : r.Intact := (intact_empty start).after before
  obtain ⟨hfulfilled, heffect⟩ := execute_fulfilled hintact c
  refine ⟨hintact, hfulfilled, fun f hf => ?_, fun id hid => ?_, fun id records hkept => ?_⟩
  · obtain hsame | ⟨-, -, -, -, -, -, ⟨a, ha⟩, -⟩ := heffect
    · exact hsame
    · exact absurd (ha.symm.trans hf) (by simp)
  · obtain hsame | ⟨records, rec, -, -, -, -, -, -, hhistories⟩ := heffect
    · rw [hsame]
    · rw [hhistories, Members.get?_set_of_ne _ _ hid]
  · exact grown_after hintact (c :: later) hkept

end Registry

end History

end Dashboards
