import Mathlib.Data.List.Forall2
import Dashboards.Proofs.History.Entries

/-!
# What the statements mean

A database that nobody else writes to answers every call from the entries that were inserted so far.
This file says what the answers are, and what the sessions of the table make of them.
-/

namespace Dashboards

namespace History

namespace Table

/-! ## 1. The meaning of a call -/

/-- A row as the database hands it back for an entry: its document is the one that was inserted. -/
structure Row.HandsBack (row : Row) (e : Entry) : Prop where
  version : row.version = e.version
  author : row.author = e.author
  note : row.note = e.note
  document : ∀ doc, Json.read e.document = .ok (.obj doc) → row.Reads doc

/-- The reply to a call where these entries are in the table, and the entries after it. -/
inductive Answers (entries : List Entry) : (c : Call) → Reply c → List Entry → Prop
  | begun : Answers entries .begin (.ok ()) entries
  | made : Answers entries .createTable (.ok ()) entries
  | exists (id : String) :
      Answers entries (.exists id) (.ok (entries.any (·.id = id))) entries
  | latest {e : Entry} {row : Row} {locked : Bool} (h : Newest entries e) (hrow : row.HandsBack e) :
      Answers entries (.latest e.id locked) (.ok (some row)) entries
  | empty {id : String} {locked : Bool} (h : versions entries id = []) :
      Answers entries (.latest id locked) (.ok none) entries
  | version {e : Entry} {row : Row} (h : e ∈ entries) (hrow : row.HandsBack e) :
      Answers entries (.version e.id e.version) (.ok (some row)) entries
  | missing {id : String} {v : Int} (h : v ∉ versions entries id) :
      Answers entries (.version id v) (.ok none) entries
  | inserted {id : String} {v : Int} {text : String} {author note : Option String} {row : Row}
      (h : v ∉ versions entries id) (hrow : row.HandsBack ⟨id, v, text, author, note⟩) :
      Answers entries (.insert id v text author note) (.ok (some row))
        (entries ++ [⟨id, v, text, author, note⟩])
  | refused {id : String} {v : Int} {text : String} {author note : Option String}
      (h : v ∈ versions entries id) :
      Answers entries (.insert id v text author note) (.error .duplicateKey) entries
  | newest {id : String} {limit : Int} {sorted : List Entry} {rows : List Row}
      (hperm : sorted.Perm (entries.filter (·.id = id)))
      (hsorted : sorted.Pairwise fun e e' => e'.version ≤ e.version)
      (hrows : List.Forall₂ Row.HandsBack rows (sorted.take limit.toNat)) :
      Answers entries (.newest id limit) (.ok rows) entries
  | greatest {id : String} {v : Int} (h : v ∈ versions entries id)
      (hmax : ∀ v' ∈ versions entries id, v' ≤ v) :
      Answers entries (.greatest id) (.ok (some v)) entries
  | nothing {id : String} (h : versions entries id = []) :
      Answers entries (.greatest id) (.ok none) entries

namespace Answers

variable {entries after : List Entry} {id : String}

/-! What the replies to a call can be, call by call. -/

theorem of_begin {answer : Reply .begin} (h : Answers entries .begin answer after) :
    answer = .ok () ∧ after = entries := by
  cases h
  exact ⟨rfl, rfl⟩

theorem of_exists {answer : Reply (.exists id)} (h : Answers entries (.exists id) answer after) :
    answer = .ok (entries.any (·.id = id)) ∧ after = entries := by
  cases h
  exact ⟨rfl, rfl⟩

theorem of_latest {locked : Bool} {answer : Reply (.latest id locked)}
    (h : Answers entries (.latest id locked) answer after) : after = entries ∧
      ((versions entries id = [] ∧ answer = .ok none) ∨
        ∃ e row, Newest entries e ∧ e.id = id ∧ row.HandsBack e ∧ answer = .ok (some row)) := by
  cases h with
  | latest h hrow => exact ⟨rfl, .inr ⟨_, _, h, rfl, hrow, rfl⟩⟩
  | empty h => exact ⟨rfl, .inl ⟨h, rfl⟩⟩

theorem of_version {v : Int} {answer : Reply (.version id v)}
    (h : Answers entries (.version id v) answer after) : after = entries ∧
      ((v ∉ versions entries id ∧ answer = .ok none) ∨
        ∃ e ∈ entries, ∃ row : Row, e.id = id ∧ e.version = v ∧ row.HandsBack e ∧
          answer = .ok (some row)) := by
  cases h with
  | version h hrow => exact ⟨rfl, .inr ⟨_, h, _, rfl, rfl, hrow, rfl⟩⟩
  | missing h => exact ⟨rfl, .inl ⟨h, rfl⟩⟩

/-- An insertion is refused where the key is taken, and otherwise adds an entry. -/
theorem of_insert {v : Int} {text : String} {author note : Option String}
    {answer : Reply (.insert id v text author note)}
    (h : Answers entries (.insert id v text author note) answer after) :
    if v ∈ versions entries id then answer = .error .duplicateKey ∧ after = entries
    else ∃ row : Row, row.HandsBack ⟨id, v, text, author, note⟩ ∧ answer = .ok (some row) ∧
      after = entries ++ [⟨id, v, text, author, note⟩] := by
  cases h with
  | inserted h hrow =>
    rw [if_neg h]
    exact ⟨_, hrow, rfl, rfl⟩
  | refused h =>
    rw [if_pos h]
    exact ⟨rfl, rfl⟩

theorem of_newest {limit : Int} {answer : Reply (.newest id limit)}
    (h : Answers entries (.newest id limit) answer after) : after = entries ∧
      ∃ (sorted : List Entry) (rows : List Row), sorted.Perm (entries.filter (·.id = id)) ∧
        sorted.Pairwise (fun e e' => e'.version ≤ e.version) ∧
        List.Forall₂ Row.HandsBack rows (sorted.take limit.toNat) ∧ answer = .ok rows := by
  cases h with
  | newest hperm hsorted hrows => exact ⟨rfl, _, _, hperm, hsorted, hrows, rfl⟩

end Answers

variable {σ : Type}

/-- A database replies to every call as its statement means, where the entries in it are those that
`table` gives. -/
def Obeys (reply : (c : Call) → σ → Reply c × σ) (table : σ → List Entry) : Prop :=
  ∀ c s, Answers (table s) c (reply c s).1 (table (reply c s).2)

/-! ## 2. Sessions -/

variable {α : Type} {reply : (c : Call) → σ → Reply c × σ} {table : σ → List Entry}

/-- A session that begins with a call goes on with what the statement of the call means. -/
theorem Obeys.hold (h : Obeys reply table) (a : Archive σ) (c : Call)
    (taken : Session (Payload c)) (k : Payload c → Session α) :
    ∃ answer s, Answers (table a.database) c answer (table s) ∧
      a.hold reply (attempt c taken >>= k) =
        match answer with
        | .ok p => { a with database := s }.hold reply (k p)
        | .error .duplicateKey => { a with database := s }.hold reply (taken >>= k) := by
  refine ⟨_, _, h c a.database, ?_⟩
  have hrun : Dialogue.run reply (attempt c taken >>= k).run a.database =
      match (reply c a.database).1 with
      | .ok p => Dialogue.run reply (k p).run (reply c a.database).2
      | .error .duplicateKey => Dialogue.run reply (taken >>= k).run (reply c a.database).2 := by
    show Dialogue.run reply (Dialogue.ask c _) a.database = _
    rw [Dialogue.run_ask]
    rcases (reply c a.database).1 with ⟨⟩ | p <;> rfl
  rw [Archive.hold, hrun]
  rcases (reply c a.database).1 with ⟨⟩ | p <;> rfl

/-- The record of a row that was handed back, and a fault where none was. -/
def handed (absent : Fault) : Option Row → Session Record
  | some row => row.record
  | none => throw absent

theorem current_eq (id : String) :
    current id = attempt (.latest id false) (throw .duplicateKey) >>=
      handed (.unknownDashboard id) := by
  rw [current]
  congr 1
  funext row?
  cases row? <;> rfl

theorem version_eq (id : String) (number : Int) :
    version id number = attempt (.version id number) (throw .duplicateKey) >>=
      handed (.unknownVersion id number) := by
  rw [version]
  congr 1
  funext row?
  cases row? <;> rfl

/-- How a commit goes on once it has read the latest row. -/
def commitOnto (id : String) (expected : Int) (next : Draft) : Option Row → Session Record
  | none => throw (.unknownDashboard id)
  | some latest =>
    if latest.version ≠ expected then throw (.stale expected latest.version)
    else attempt (insertion id (expected + 1) next) (conflict id expected) >>= handed .noRow

theorem commit_eq (id : String) (expected : Int) (next : Draft) : commit id expected next =
    attempt .begin (throw .duplicateKey) >>= fun _ =>
      attempt (.latest id true) (conflict id expected) >>= commitOnto id expected next := by
  rw [commit]
  congr 1
  funext _
  congr 1
  funext row?
  cases row? with
  | none => rfl
  | some row =>
    show (if row.version ≠ expected then _ else _) = (if row.version ≠ expected then _ else _)
    congr 1
    congr 1
    funext row?
    cases row? <;> rfl

/-- A commit opens a transaction and reads the latest row, which changes nothing, and goes on with that
row, if there is one. -/
theorem Obeys.hold_commit (h : Obeys reply table) (a : Archive σ) (id : String) (expected : Int)
    (next : Draft) :
    ∃ s row?, table s = table a.database ∧
      a.hold reply (commit id expected next) =
        { a with database := s }.hold reply (commitOnto id expected next row?) ∧
      ((row? = none ∧ versions (table a.database) id = []) ∨
        ∃ e row, row? = some row ∧ Newest (table a.database) e ∧ e.id = id ∧ row.HandsBack e) := by
  rw [commit_eq]
  obtain ⟨_, s₁, hanswers, hhold⟩ := h.hold a .begin (throw .duplicateKey) fun _ =>
    attempt (.latest id true) (conflict id expected) >>= commitOnto id expected next
  obtain ⟨rfl, htable₁⟩ := hanswers.of_begin
  rw [hhold]
  obtain ⟨_, s₂, hanswers, hhold⟩ := h.hold { a with database := s₁ } (.latest id true)
    (conflict id expected) (commitOnto id expected next)
  obtain ⟨htable₂, ⟨hnone, rfl⟩ | ⟨e, row, he, hid, hrow, rfl⟩⟩ := hanswers.of_latest
  · exact ⟨s₂, none, htable₂.trans htable₁, hhold, .inl ⟨rfl, htable₁ ▸ hnone⟩⟩
  · exact ⟨s₂, some row, htable₂.trans htable₁, hhold, .inr ⟨e, row, rfl, htable₁ ▸ he, hid, hrow⟩⟩

/-- The records of some rows, where each row has one. -/
theorem mapM_record {rows : List Row} {records : List Record}
    (h : List.Forall₂ (fun row rec => row.record = .ok rec) rows records) :
    (rows.mapM fun row => (row.record : Session Record)) = pure records := by
  have hloop : ∀ done : List Record,
      List.mapM.loop (fun row : Row => (row.record : Session Record)) rows done =
        pure (done.reverse ++ records) := by
    induction h with
    | nil =>
      intro done
      rw [List.append_nil]
      rfl
    | @cons row rec rows records hrow _ ih =>
      intro done
      have hstep :
          List.mapM.loop (fun row : Row => (row.record : Session Record)) (row :: rows) done =
            ((row.record : Session Record) >>= fun rec =>
              List.mapM.loop (fun row : Row => (row.record : Session Record)) rows (rec :: done)) :=
        rfl
      rw [hstep, hrow]
      show List.mapM.loop (fun row : Row => (row.record : Session Record)) rows (rec :: done) = _
      rw [ih, List.reverse_cons, List.append_assoc]
      rfl
  exact hloop []

/-! ## 3. A table that is a list -/

/-- An entry as a row, with its document as a text and a fixed moment. -/
def Entry.row (e : Entry) : Row :=
  ⟨e.version, .str e.document, "2024-03-01T09:00:00+00:00", e.author, e.note⟩

/-- The entries of a dashboard, the newest first. -/
def newestFirst (entries : List Entry) (id : String) : List Entry :=
  (entries.filter (·.id = id)).mergeSort fun e e' => e'.version ≤ e.version

/-- A database that is the list of its entries. -/
def serve : (c : Call) → List Entry → Reply c × List Entry
  | .begin, entries => (.ok (), entries)
  | .createTable, entries => (.ok (), entries)
  | .exists id, entries => (.ok (entries.any (·.id = id)), entries)
  | .latest id _, entries => (.ok ((newestFirst entries id).head?.map Entry.row), entries)
  | .version id v, entries =>
    (.ok ((entries.find? fun e => e.id = id ∧ e.version = v).map Entry.row), entries)
  | .insert id v text author note, entries =>
    if v ∈ versions entries id then (.error .duplicateKey, entries)
    else
      let e : Entry := ⟨id, v, text, author, note⟩
      (.ok (some e.row), entries ++ [e])
  | .newest id limit, entries =>
    (.ok (((newestFirst entries id).take limit.toNat).map Entry.row), entries)
  | .greatest id, entries => (.ok ((newestFirst entries id).head?.map (·.version)), entries)

theorem handsBack_row (e : Entry) : e.row.HandsBack e :=
  ⟨rfl, rfl, rfl, fun _ hread => .inr ⟨_, rfl, hread⟩⟩

theorem newestFirst_perm (entries : List Entry) (id : String) :
    (newestFirst entries id).Perm (entries.filter (·.id = id)) := List.mergeSort_perm _ _

theorem newestFirst_pairwise (entries : List Entry) (id : String) :
    (newestFirst entries id).Pairwise fun e e' => e'.version ≤ e.version := by
  refine (List.pairwise_mergeSort (fun e e' e'' h h' => ?_) (fun e e' => ?_) _).imp of_decide_eq_true
  · exact decide_eq_true (Int.le_trans (of_decide_eq_true h') (of_decide_eq_true h))
  · simpa using Int.le_total _ _

/-- The first of the sorted entries has the greatest version, and there is none where there is no
version at all. -/
theorem head?_newestFirst (entries : List Entry) (id : String) :
    (∃ e, (newestFirst entries id).head? = some e ∧ e.id = id ∧ Newest entries e) ∨
      (newestFirst entries id).head? = none ∧ versions entries id = [] := by
  have hperm := newestFirst_perm entries id
  have hsorted := newestFirst_pairwise entries id
  cases hfirst : newestFirst entries id with
  | nil =>
    rw [hfirst] at hperm
    have hnil := hperm.nil_eq
    exact .inr ⟨rfl, by rw [versions, ← hnil]; rfl⟩
  | cons e rest =>
    rw [hfirst] at hperm hsorted
    have hmem : ∀ e' ∈ entries.filter (·.id = id), e'.version ≤ e.version := by
      intro e' he'
      rcases List.mem_cons.1 (hperm.symm.subset he') with rfl | he'
      · exact Int.le_refl _
      · exact (List.pairwise_cons.1 hsorted).1 e' he'
    obtain ⟨he, hid⟩ := List.mem_filter.1 (hperm.subset List.mem_cons_self)
    have hid := of_decide_eq_true hid
    refine .inl ⟨e, rfl, hid, he, fun v hv => ?_⟩
    obtain ⟨e', he', rfl⟩ := List.mem_map.1 hv
    exact hmem e' (hid ▸ he')

theorem obeys_serve : Obeys serve fun entries => entries := by
  intro c entries
  match c with
  | .begin => exact .begun
  | .createTable => exact .made
  | .exists id => exact .exists id
  | .latest id locked =>
    show Answers entries (.latest id locked) (.ok ((newestFirst entries id).head?.map Entry.row))
      entries
    obtain ⟨e, hfirst, rfl, hnewest⟩ | ⟨hfirst, hnone⟩ := head?_newestFirst entries id
    · rw [hfirst]
      exact .latest hnewest (handsBack_row e)
    · rw [hfirst]
      exact .empty hnone
  | .version id v =>
    show Answers entries (.version id v)
      (.ok ((entries.find? fun e => e.id = id ∧ e.version = v).map Entry.row)) entries
    cases hfound : entries.find? fun e => e.id = id ∧ e.version = v with
    | none =>
      refine .missing fun hv => ?_
      obtain ⟨e, he, hversion⟩ := List.mem_map.1 hv
      obtain ⟨he, hid⟩ := List.mem_filter.1 he
      have hnot := List.find?_eq_none.1 hfound e he
      exact hnot (decide_eq_true ⟨of_decide_eq_true hid, hversion⟩)
    | some e =>
      have hkey : e.id = id ∧ e.version = v := by simpa using List.find?_some hfound
      obtain ⟨rfl, rfl⟩ := hkey
      exact .version (List.mem_of_find?_eq_some hfound) (handsBack_row e)
  | .insert id v text author note =>
    rw [serve]
    split
    · exact .refused ‹_›
    · exact .inserted ‹_› (handsBack_row _)
  | .newest id limit =>
    refine .newest (newestFirst_perm entries id) (newestFirst_pairwise entries id) ?_
    exact List.forall₂_map_left_iff.2 (List.forall₂_same.2 fun e _ => handsBack_row e)
  | .greatest id =>
    show Answers entries (.greatest id) (.ok ((newestFirst entries id).head?.map (·.version)))
      entries
    obtain ⟨e, hfirst, rfl, hnewest⟩ | ⟨hfirst, hnone⟩ := head?_newestFirst entries id
    · rw [hfirst]
      exact .greatest (mem_versions hnewest.1) hnewest.2
    · rw [hfirst]
      exact .nothing hnone

end Table

end History

end Dashboards
