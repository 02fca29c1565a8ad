import Dashboards.Proofs.History.Entries

/-!
# Writers at one table

Any number of calls create dashboards and commit versions at the same time, each over a connection
of its own, and the database answers one statement of one call at a time.  What a call reads may be
out of date: the latest row is the newest one at some moment since the call started.  That the
versions of a dashboard are 1, 2, …, n all the same rests on the unique key alone, since a row is
never taken away and a version is inserted only after the one before it was seen.
-/

namespace Dashboards

namespace History

namespace Table

/-! ## 1. What the database promises -/

/-- What the database may reply to a statement of a call that started when there were `since`
entries, and which entry the statement adds.  The latest row may be that of an earlier moment. -/
inductive Replies (since : Nat) (entries : List Entry) :
    (c : Call) → Reply c → Option Entry → Prop
  | begun : Replies since entries .begin (.ok ()) none
  | unseen {id : String} {locked : Bool} {m : Nat} (hm : since ≤ m) (hle : m ≤ entries.length)
      (h : versions (entries.take m) id = []) :
      Replies since entries (.latest id locked) (.ok none) none
  | seen {e : Entry} {row : Row} {locked : Bool} {m : Nat} (hm : since ≤ m)
      (hle : m ≤ entries.length) (h : Newest (entries.take m) e) (hrow : row.StandsFor e) :
      Replies since entries (.latest e.id locked) (.ok (some row)) none
  | inserted {id : String} {v : Int} {text : String} {author note : Option String} {row : Row}
      (h : v ∉ versions entries id) (hrow : row.StandsFor ⟨id, v, text, author, note⟩) :
      Replies since entries (.insert id v text author note) (.ok (some row))
        (some ⟨id, v, text, author, note⟩)
  | refused {id : String} {v : Int} {text : String} {author note : Option String}
      (h : v ∈ versions entries id) :
      Replies since entries (.insert id v text author note) (.error .duplicateKey) none
  | greatest {id : String} {v : Int} (h : v ∈ versions entries id)
      (hmax : ∀ v' ∈ versions entries id, v' ≤ v) :
      Replies since entries (.greatest id) (.ok (some v)) none
  | nothing {id : String} (h : versions entries id = []) :
      Replies since entries (.greatest id) (.ok none) none

/-! ## 2. Calls in turns -/

/-- A call that may write. -/
inductive Write where
  | create (id : String) (first : Draft)
  | commit (id : String) (expected : Int) (next : Draft)

/-- The session of a call; that the call returns the record of a commit plays no part here. -/
def Write.session : Write → Session Unit
  | .create id first => Table.create id first
  | .commit id expected next => do
    let _ ← Table.commit id expected next
    pure ()

/-- The entry that a call is there to write. -/
def Write.entry : Write → Entry
  | .create id first => .of id 1 first
  | .commit id expected next => .of id (expected + 1) next

/-- A call: what it is, how many entries there were when it started, whether the database has
refused one of its statements, and what is left of its session. -/
structure Writer where
  write : Write
  since : Nat
  refused : Bool
  rest : Dialogue Reply (Except Fault Unit)

/-- A table and the calls that write to it.  With each entry stands the call that wrote it. -/
structure Writers where
  rows : List (Nat × Entry)
  calls : List Writer

namespace Writers

def entries (w : Writers) : List Entry := w.rows.map (·.2)

/-- What a call has written. -/
def wrote (w : Writers) (i : Nat) : List Entry := (w.rows.filter (·.1 = i)).map (·.2)

/-- A call starts; the database has not heard of it yet. -/
def join (write : Write) (w : Writers) : Writers :=
  { w with calls := w.calls ++ [⟨write, w.rows.length, false, write.session.run⟩] }

/-- A call goes on after a reply, and the entry that its statement has added is in the table. -/
def resume (w : Writers) (i : Nat) (added : Option Entry) (call : Writer) : Writers :=
  ⟨w.rows ++ (added.map fun e => (i, e)).toList, w.calls.set i call⟩

/-- The states of an empty table on which calls start, and have their statements answered, in any
order. -/
inductive Reachable : Writers → Prop
  | empty : Reachable ⟨[], []⟩
  | joined {w : Writers} (write : Write) (h : Reachable w) : Reachable (w.join write)
  | answered {w : Writers} {i : Nat} {write : Write} {since : Nat} {refused : Bool} {c : Call}
      {next : Reply c → Dialogue Reply (Except Fault Unit)} {reply : Reply c}
      {added : Option Entry} (h : Reachable w)
      (hi : w.calls[i]? = some ⟨write, since, refused, .ask c next⟩)
      (hr : Replies since w.entries c reply added) :
      Reachable (w.resume i added ⟨write, since, refused || !reply.isOk, next reply⟩)

end Writers

/-! ## 3. Sessions, statement by statement -/

/-- How a creation goes on after its only statement. -/
def creationOn (id : String) : Except Violation (Option Row) → Dialogue Reply (Except Fault Unit)
  | .ok _ => .done (.ok ())
  | .error .duplicateKey => .done (.error (.takenId id))

/-- How a commit ends that was refused, once it has read the greatest version. -/
def conflictOn (expected : Int) : Except Violation (Option Int) → Dialogue Reply (Except Fault Unit)
  | .ok greatest =>
    .done (.error (.stale expected ((greatest.filter (· ≠ 0)).getD (expected + 1))))
  | .error .duplicateKey => .done (.error .duplicateKey)

/-- How a commit goes on after its insertion. -/
def insertionOn (id : String) (expected : Int) :
    Except Violation (Option Row) → Dialogue Reply (Except Fault Unit)
  | .ok (some row) => .done (row.record.map fun _ => ())
  | .ok none => .done (.error .noRow)
  | .error .duplicateKey => .ask (.greatest id) (conflictOn expected)

/-- How a commit goes on once it has read the latest row. -/
def latestOn (id : String) (expected : Int) (next : Draft) :
    Except Violation (Option Row) → Dialogue Reply (Except Fault Unit)
  | .ok none => .done (.error (.unknownDashboard id))
  | .ok (some row) =>
    if row.version ≠ expected then .done (.error (.stale expected row.version))
    else .ask (insertion id (expected + 1) next) (insertionOn id expected)
  | .error .duplicateKey => .ask (.greatest id) (conflictOn expected)

/-- How a commit goes on once its transaction is open. -/
def openedOn (id : String) (expected : Int) (next : Draft) :
    Except Violation Unit → Dialogue Reply (Except Fault Unit)
  | .ok () => .ask (.latest id true) (latestOn id expected next)
  | .error .duplicateKey => .done (.error .duplicateKey)

/-- Two sessions that go on alike after each reply to their next statement are the same. -/
theorem ask_eq_ask {c : Call} {k k' : Reply c → Dialogue Reply (Except Fault Unit)}
    (hok : ∀ a, k (.ok a) = k' (.ok a))
    (hrefused : k (.error .duplicateKey) = k' (.error .duplicateKey)) :
    Dialogue.ask c k = .ask c k' := by
  congr 1
  funext reply
  rcases reply with ⟨⟨⟩⟩ | a
  · exact hrefused
  · exact hok a

theorem Write.run_create (id : String) (first : Draft) :
    (Write.create id first).session.run = .ask (insertion id 1 first) (creationOn id) :=
  ask_eq_ask (fun _ => rfl) rfl

theorem Write.run_commit (id : String) (expected : Int) (next : Draft) :
    (Write.commit id expected next).session.run = .ask .begin (openedOn id expected next) := by
  refine ask_eq_ask (fun _ => ?_) rfl
  refine ask_eq_ask (fun row? => ?_) (ask_eq_ask (fun _ => rfl) rfl)
  cases row? with
  | none => rfl
  | some row =>
    show Dialogue.bind (ExceptT.run (if row.version ≠ expected then _ else _)) _ =
      if row.version ≠ expected then _ else _
    by_cases hv : row.version ≠ expected
    · rw [if_pos hv, if_pos hv]
      rfl
    · rw [if_neg hv, if_neg hv]
      refine ask_eq_ask (fun row? => ?_) (ask_eq_ask (fun _ => rfl) rfl)
      cases row? with
      | none => rfl
      | some row =>
        show Dialogue.bind (Dialogue.done row.record) _ = .done (row.record.map fun _ => ())
        cases row.record <;> rfl

/-! ## 4. How far a call has come -/

variable {entries : List Entry} {id : String} {v : Int} {e : Entry}

/-- What is left of the session of a call, what the call has written, and what it knows of the table:
a commit inserts after the version that it has seen, and is refused only where the next one is there
as well. -/
inductive Phase (entries : List Entry) :
    Write → Bool → List Entry → Dialogue Reply (Except Fault Unit) → Prop
  | creating (id : String) (first : Draft) :
      Phase entries (.create id first) false []
        (.ask (insertion id 1 first) (creationOn id))
  | opening (id : String) (expected : Int) (next : Draft) :
      Phase entries (.commit id expected next) false [] (.ask .begin (openedOn id expected next))
  | looking (id : String) (expected : Int) (next : Draft) :
      Phase entries (.commit id expected next) false []
        (.ask (.latest id true) (latestOn id expected next))
  | inserting {id : String} {expected : Int} (next : Draft) (h : expected ∈ versions entries id) :
      Phase entries (.commit id expected next) false []
        (.ask (insertion id (expected + 1) next) (insertionOn id expected))
  | losing {id : String} {expected : Int} (next : Draft) (h : expected + 1 ∈ versions entries id) :
      Phase entries (.commit id expected next) true [] (.ask (.greatest id) (conflictOn expected))
  | lost (id : String) {expected actual : Int} (next : Draft) (h : expected < actual) :
      Phase entries (.commit id expected next) true [] (.done (.error (.stale expected actual)))
  | taken (id : String) (first : Draft) :
      Phase entries (.create id first) true [] (.done (.error (.takenId id)))
  | failed (write : Write) (f : Fault) : Phase entries write false [] (.done (.error f))
  | succeeded (write : Write) : Phase entries write false [write.entry] (.done (.ok ()))

theorem Phase.start (write : Write) : Phase entries write false [] write.session.run := by
  cases write with
  | create id first =>
    rw [Write.run_create]
    exact .creating id first
  | commit id expected next =>
    rw [Write.run_commit]
    exact .opening id expected next

variable {write : Write} {refused : Bool} {own : List Entry}

/-- What a call knows of the table stays true when entries are added. -/
theorem Phase.mono {rest : Dialogue Reply (Except Fault Unit)} {more : List Entry}
    (h : Phase entries write refused own rest) :
    Phase (entries ++ more) write refused own rest := by
  cases h with
  | creating id first => exact .creating id first
  | opening id expected next => exact .opening id expected next
  | looking id expected next => exact .looking id expected next
  | inserting next h => exact .inserting next (mem_versions_append h)
  | losing next h => exact .losing next (mem_versions_append h)
  | lost id next h => exact .lost id next h
  | taken id first => exact .taken id first
  | failed write f => exact .failed write f
  | succeeded write => exact .succeeded write

/-- A reply leaves the table numbered, and the call has written what was added and nothing else. -/
theorem Phase.answer {since : Nat} {c : Call} {next : Reply c → Dialogue Reply (Except Fault Unit)}
    {reply : Reply c} {added : Option Entry} (h : Phase entries write refused own (.ask c next))
    (hn : Numbered entries) (hr : Replies since entries c reply added) :
    Numbered (entries ++ added.toList) ∧
      Phase (entries ++ added.toList) write (refused || !reply.isOk) (own ++ added.toList)
        (next reply) := by
  cases h with
  | creating id first =>
    cases hr with
    | inserted hnew hrow =>
      exact ⟨hn.append hnew (.inl rfl), .succeeded (.create id first)⟩
    | refused htaken =>
      rw [Option.toList_none, List.append_nil]
      exact ⟨hn, .taken id first⟩
  | opening id expected next =>
    cases hr
    rw [Option.toList_none, List.append_nil]
    exact ⟨hn, .looking id expected next⟩
  | looking id expected next =>
    rw [Bool.false_or]
    cases hr with
    | unseen hm hle hnone =>
      rw [Option.toList_none, List.append_nil]
      exact ⟨hn, .failed _ _⟩
    | @seen e row _ m hm hle hnewest hrow =>
      rw [Option.toList_none, List.append_nil]
      refine ⟨hn, ?_⟩
      show Phase entries _ _ _ (if row.version ≠ expected then _ else _)
      split
      · exact .failed _ _
      · rename_i heq
        -- A row that was there at an earlier moment is still there.
        have hseen : e.version ∈ versions entries e.id :=
          mem_versions (List.mem_of_mem_take hnewest.1)
        rw [← hrow.version, Decidable.not_not.1 heq] at hseen
        exact .inserting next hseen
  | @inserting id expected next hseen =>
    cases hr with
    | @inserted _ _ _ _ _ row hnew hrow =>
      refine ⟨hn.append hnew (.inr ?_), ?_⟩
      · show expected + 1 - 1 ∈ _
        rwa [Int.add_sub_cancel]
      · obtain ⟨n, hversions⟩ := hn id
        have hpos : 1 ≤ expected := (mem_oneTo.1 (hversions ▸ hseen)).1
        have hentry : 1 ≤ expected + 1 := by omega
        obtain ⟨rec, hrec⟩ := hrow.record hentry
        show Phase _ _ _ _ (.done (row.record.map fun _ => ()))
        rw [hrec]
        exact .succeeded (.commit id expected next)
    | refused htaken =>
      rw [Option.toList_none, List.append_nil]
      exact ⟨hn, .losing next htaken⟩
  | @losing id expected next hthere =>
    cases hr with
    | @greatest _ v h hmax =>
      rw [Option.toList_none, List.append_nil]
      -- The version after the expected one is there, so the greatest one is positive and beyond it.
      obtain ⟨n, hversions⟩ := hn id
      have hpos : 1 ≤ expected + 1 := (mem_oneTo.1 (hversions ▸ hthere)).1
      have hle := hmax _ hthere
      have hkept : ((some v).filter (· ≠ 0)).getD (expected + 1) = v := by
        rw [Option.filter_some_pos (by simp; omega), Option.getD_some]
      refine ⟨hn, ?_⟩
      show Phase _ _ _ _
        (.done (.error (.stale expected (((some v).filter (· ≠ 0)).getD (expected + 1)))))
      rw [hkept]
      exact .lost id next (by omega)
    | nothing h =>
      rw [h] at hthere
      cases hthere

theorem Phase.own_of_ok (h : Phase entries write refused own (.done (.ok ()))) :
    own = [write.entry] := by
  cases h
  rfl

theorem Phase.own_of_ne {rest : Dialogue Reply (Except Fault Unit)}
    (h : Phase entries write refused own rest) (hne : rest ≠ .done (.ok ())) : own = [] := by
  cases h with
  | succeeded => exact absurd rfl hne
  | _ => rfl

theorem Phase.stale_of_refused {expected : Int} {next : Draft} {result : Except Fault Unit}
    (h : Phase entries (.commit id expected next) true own (.done result)) :
    ∃ actual, result = .error (.stale expected actual) ∧ expected < actual := by
  cases h with
  | lost id next h => exact ⟨_, rfl, h⟩

/-! ## 5. The invariant of the writers -/

namespace Writers

variable {w : Writers} {i j : Nat}

theorem entries_resume (w : Writers) (i : Nat) (added : Option Entry) (call : Writer) :
    (w.resume i added call).entries = w.entries ++ added.toList := by
  rw [entries, resume, List.map_append]
  cases added <;> rfl

theorem wrote_resume_self (w : Writers) (i : Nat) (added : Option Entry) (call : Writer) :
    (w.resume i added call).wrote i = w.wrote i ++ added.toList := by
  rw [wrote, resume, List.filter_append, List.map_append]
  cases added <;> simp [wrote]

theorem wrote_resume_of_ne (h : j ≠ i) (added : Option Entry) (call : Writer) :
    (w.resume i added call).wrote j = w.wrote j := by
  rw [wrote, resume, List.filter_append, List.map_append]
  cases added <;> simp [wrote, Ne.symm h]

/-- What holds at every moment. -/
structure Sound (w : Writers) : Prop where
  numbered : Numbered w.entries
  phases : ∀ i call, w.calls[i]? = some call →
    Phase w.entries call.write call.refused (w.wrote i) call.rest
  owned : ∀ row ∈ w.rows, row.1 < w.calls.length

/-- A call that has not come in is the writer of nothing. -/
theorem Sound.wrote_of_none (h : Sound w) (hi : w.calls[i]? = none) : w.wrote i = [] := by
  rw [wrote, List.map_eq_nil_iff, List.filter_eq_nil_iff]
  intro row hrow
  have hlt := h.owned row hrow
  have hle := List.getElem?_eq_none_iff.1 hi
  simpa using Nat.ne_of_lt (Nat.lt_of_lt_of_le hlt hle)

theorem Sound.joined (h : Sound w) (write : Write) : Sound (w.join write) := by
  refine ⟨h.numbered, fun i call hi => ?_, fun row hrow => ?_⟩
  · rcases Nat.lt_trichotomy i w.calls.length with hlt | heq | hgt
    · rw [join, List.getElem?_append_left hlt] at hi
      exact h.phases i call hi
    · subst heq
      have hnothing : (w.join write).wrote w.calls.length = [] :=
        h.wrote_of_none (List.getElem?_eq_none (Nat.le_refl _))
      rw [join, List.getElem?_concat_length] at hi
      cases hi
      rw [hnothing]
      exact .start write
    · rw [join, List.getElem?_eq_none (by simp; omega)] at hi
      cases hi
  · have hlt := h.owned row hrow
    rw [join, List.length_append]
    omega

theorem Sound.answered {write : Write} {since : Nat} {refused : Bool} {c : Call}
    {next : Reply c → Dialogue Reply (Except Fault Unit)} {reply : Reply c} {added : Option Entry}
    (h : Sound w) (hi : w.calls[i]? = some ⟨write, since, refused, .ask c next⟩)
    (hr : Replies since w.entries c reply added) :
    Sound (w.resume i added ⟨write, since, refused || !reply.isOk, next reply⟩) := by
  have hlt : i < w.calls.length := (List.getElem?_eq_some_iff.1 hi).1
  obtain ⟨hnumbered, hphase⟩ := (h.phases i _ hi).answer h.numbered hr
  constructor
  · rw [entries_resume]
    exact hnumbered
  · intro j call hj
    rw [entries_resume]
    by_cases hji : j = i
    · subst hji
      rw [resume, List.getElem?_set_self hlt] at hj
      cases hj
      rw [wrote_resume_self]
      exact hphase
    · rw [resume, List.getElem?_set_ne (Ne.symm hji)] at hj
      rw [wrote_resume_of_ne hji]
      exact (h.phases j call hj).mono
  · intro row hrow
    rw [resume, List.length_set]
    rcases List.mem_append.1 hrow with hold | hnew
    · exact h.owned row hold
    · obtain ⟨e, -, rfl⟩ := Option.map_eq_some_iff.1 (Option.mem_toList.1 hnew)
      exact hlt

theorem Sound.of_reachable (h : Reachable w) : Sound w := by
  induction h with
  | empty =>
    refine ⟨fun _ => ⟨0, rfl⟩, fun i call hi => ?_, fun row hrow => ?_⟩
    · cases hi
    · cases hrow
  | joined write _ ih => exact ih.joined write
  | answered _ hi hr ih => exact ih.answered hi hr

theorem mem_wrote {e : Entry} : e ∈ w.wrote i ↔ (i, e) ∈ w.rows := by
  simp [wrote]

/-- No two calls have written one version of a dashboard. -/
theorem Sound.eq_of_wrote (h : Sound w) {e e' : Entry} (hi : e ∈ w.wrote i) (hj : e' ∈ w.wrote j)
    (hid : e.id = e'.id) (hv : e.version = e'.version) : i = j := by
  have hversions : versions w.entries e.id =
      (w.rows.filter (·.2.id = e.id)).map (·.2.version) := by
    rw [versions, entries, List.filter_map, List.map_map]
    rfl
  obtain ⟨n, hn⟩ := h.numbered e.id
  have hnodup := nodup_oneTo n
  rw [← hn, hversions] at hnodup
  have hrow : (i, e) ∈ w.rows.filter (·.2.id = e.id) :=
    List.mem_filter.2 ⟨mem_wrote.1 hi, by simp⟩
  have hrow' : (j, e') ∈ w.rows.filter (·.2.id = e.id) :=
    List.mem_filter.2 ⟨mem_wrote.1 hj, by simp [hid]⟩
  exact congrArg Prod.fst (List.inj_on_of_nodup_map hnodup hrow hrow' hv)

/-! ## 6. Safety -/

def write? (w : Writers) (i : Nat) : Option Write := w.calls[i]?.map (·.write)

/-- What a call has come to, once it has ended. -/
def result? (w : Writers) (i : Nat) : Option (Except Fault Unit) :=
  w.calls[i]?.bind fun call =>
    match call.rest with
    | .done result => some result
    | .ask .. => none

/-- Whether the database has refused the insertion of a call. -/
def isRefused (w : Writers) (i : Nat) : Bool := (w.calls[i]?.map (·.refused)).getD false

/-- What the table and the unique key guarantee to those who write. -/
structure Safe (w : Writers) : Prop where
  /-- The versions of each dashboard are 1, 2, …, n. -/
  numbered : ∀ id, ∃ n, versions w.entries id = oneTo n
  /-- Of the calls that create one dashboard at most one succeeds. -/
  oneCreator : ∀ i j id first first', w.write? i = some (.create id first) →
    w.result? i = some (.ok ()) → w.write? j = some (.create id first') →
      w.result? j = some (.ok ()) → i = j
  /-- Of the commits that name one version of a dashboard at most one succeeds. -/
  oneWinner : ∀ i j id expected next next', w.write? i = some (.commit id expected next) →
    w.result? i = some (.ok ()) → w.write? j = some (.commit id expected next') →
      w.result? j = some (.ok ()) → i = j
  /-- A call that succeeds has written the one entry that it is there to write, for a commit that of
  the version after the one it names. -/
  written : ∀ i write, w.write? i = some write → w.result? i = some (.ok ()) →
    w.wrote i = [write.entry]
  /-- A call that fails, or has not come to its end, has written nothing. -/
  unwritten : ∀ i, w.result? i ≠ some (.ok ()) → w.wrote i = []
  /-- A commit whose insertion is refused fails, and reports a version beyond the one it names. -/
  conflict : ∀ i id expected next result, w.write? i = some (.commit id expected next) →
    w.isRefused i = true → w.result? i = some result →
      ∃ actual, result = .error (.stale expected actual) ∧ expected < actual

/-- A call that has come to its end has the phase of its result. -/
theorem Sound.phase_done (h : Sound w) {write : Write} {result : Except Fault Unit}
    (hwrite : w.write? i = some write) (hresult : w.result? i = some result) :
    Phase w.entries write (w.isRefused i) (w.wrote i) (.done result) := by
  obtain ⟨⟨write, since, refused, rest⟩, hi, rfl⟩ := Option.map_eq_some_iff.1 hwrite
  have hphase := h.phases i _ hi
  rw [result?, hi] at hresult
  rw [isRefused, hi]
  cases rest with
  | ask c next => cases hresult
  | done result' =>
    cases hresult
    exact hphase

/-- Calls create dashboards and commit versions at the same time, in any order of their statements
and whatever moment their reads are of; no version is lost, doubled or left out. -/
theorem safe_of_reachable (h : Reachable w) : Safe w := by
  have sound := Sound.of_reachable h
  have written : ∀ i write, w.write? i = some write → w.result? i = some (.ok ()) →
      w.wrote i = [write.entry] :=
    fun i write hwrite hresult => (sound.phase_done hwrite hresult).own_of_ok
  -- Two calls that are there to write one version cannot both have written it.
  have once : ∀ i j write write', w.write? i = some write → w.result? i = some (.ok ()) →
      w.write? j = some write' → w.result? j = some (.ok ()) → write.entry.id = write'.entry.id →
        write.entry.version = write'.entry.version → i = j := by
    intro i j write write' hi hri hj hrj hid hv
    refine sound.eq_of_wrote ?_ ?_ hid hv
    · rw [written i write hi hri]
      exact List.mem_singleton_self _
    · rw [written j write' hj hrj]
      exact List.mem_singleton_self _
  refine ⟨sound.numbered, ?_, ?_, written, ?_, ?_⟩
  · intro i j id first first' hi hri hj hrj
    exact once i j _ _ hi hri hj hrj rfl rfl
  · intro i j id expected next next' hi hri hj hrj
    exact once i j _ _ hi hri hj hrj rfl rfl
  · intro i hresult
    cases hi : w.calls[i]? with
    | none => exact sound.wrote_of_none hi
    | some call =>
      refine (sound.phases i call hi).own_of_ne fun hrest => hresult ?_
      rw [result?, hi, Option.bind_some, hrest]
  · intro i id expected next result hwrite hrefused hresult
    have hphase := sound.phase_done hwrite hresult
    rw [hrefused] at hphase
    exact hphase.stale_of_refused

/-- A draft of a dashboard, and the row in which a version of it is handed back. -/
def salesDraft : Draft := ⟨.obj [("title", .str "Sales")], none, none⟩

def salesRow (v : Int) : Row :=
  ⟨v, .obj [("title", .str "Sales"), ("version", .ofInt v)], "2024-03-01T09:00:00+00:00", none, none⟩

theorem standsFor_salesRow (v : Int) : (salesRow v).StandsFor (.of "sales" v salesDraft) :=
  ⟨rfl, rfl, rfl, _, .inl rfl⟩

/-- A dashboard, and two commits made for its first version, of which the second one reads a row that
is no longer the latest. -/
def raced : Writers where
  rows := [(0, .of "sales" 1 salesDraft), (1, .of "sales" 2 salesDraft)]
  calls :=
    [⟨.create "sales" salesDraft, 0, false, .done (.ok ())⟩,
     ⟨.commit "sales" 1 salesDraft, 1, false, .done (.ok ())⟩,
     ⟨.commit "sales" 1 salesDraft, 1, true, .done (.error (.stale 1 2))⟩]

/-- The unique key refuses the second commit, which reports the version of the first one. -/
theorem safe_raced : Reachable raced ∧ Safe raced := by
  -- A call that started with one entry may read that one, however many there are by now.
  have read (more : List Entry) : Replies 1 (.of "sales" 1 salesDraft :: more)
      (.latest "sales" true) (.ok (some (salesRow 1))) none := by
    have first : Newest ((.of "sales" 1 salesDraft :: more).take 1) (.of "sales" 1 salesDraft) :=
      show Newest [Entry.of "sales" 1 salesDraft] _ from ⟨List.mem_singleton_self _, by decide⟩
    exact .seen (m := 1) (Nat.le_refl 1) (by simp) first (standsFor_salesRow 1)
  have created : Reachable ⟨[(0, .of "sales" 1 salesDraft)],
      [⟨.create "sales" salesDraft, 0, false, .done (.ok ())⟩]⟩ :=
    (Reachable.empty.joined (.create "sales" salesDraft)).answered (i := 0) rfl
      (.inserted (by decide) (standsFor_salesRow 1))
  have opened : Reachable ⟨[(0, .of "sales" 1 salesDraft)],
      [⟨.create "sales" salesDraft, 0, false, .done (.ok ())⟩,
       ⟨.commit "sales" 1 salesDraft, 1, false,
         .ask (.latest "sales" true) (latestOn "sales" 1 salesDraft)⟩,
       ⟨.commit "sales" 1 salesDraft, 1, false,
         .ask (.latest "sales" true) (latestOn "sales" 1 salesDraft)⟩]⟩ := by
    have joined := (created.joined (.commit "sales" 1 salesDraft)).joined
      (.commit "sales" 1 salesDraft)
    rw [join, Write.run_commit, join, Write.run_commit] at joined
    exact (joined.answered (i := 1) rfl .begun).answered (i := 2) rfl .begun
  -- The first commit goes through before the second one reads.
  have committed : Reachable ⟨[(0, .of "sales" 1 salesDraft), (1, .of "sales" 2 salesDraft)],
      [⟨.create "sales" salesDraft, 0, false, .done (.ok ())⟩,
       ⟨.commit "sales" 1 salesDraft, 1, false, .done (.ok ())⟩,
       ⟨.commit "sales" 1 salesDraft, 1, false,
         .ask (.latest "sales" true) (latestOn "sales" 1 salesDraft)⟩]⟩ :=
    (opened.answered (i := 1) rfl (read [])).answered (i := 1) rfl
      (.inserted (by decide) (standsFor_salesRow 2))
  have raced : Reachable raced :=
    ((committed.answered (i := 2) rfl (read [.of "sales" 2 salesDraft])).answered (i := 2) rfl
      (.refused (by decide))).answered (i := 2) rfl (.greatest (v := 2) (by decide) (by decide))
  exact ⟨raced, safe_of_reachable raced⟩

end Writers

end Table

end History

end Dashboards
