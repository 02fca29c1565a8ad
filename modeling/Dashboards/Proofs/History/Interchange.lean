import Dashboards.Proofs.History.Contract
import Dashboards.Proofs.History.Database
import Dashboards.Proofs.Json.Line

/-!
# The registry and the table answer alike

A registry in memory and a table that nobody else writes to are carried through the same commands.
The entries of a dashboard then stand for its records one by one, and every command is answered alike
but for the moments at which versions were stored.
-/

namespace Dashboards

namespace History

/-! ## 1. Documents that can be stored -/

/-- A document that a JSON text stands for, with finite numbers only. -/
structure Storable (doc : Document) : Prop where
  said : ∃ text, Json.read text = .ok (.obj doc)
  finite : (Value.obj doc).Orderly (·.isFinite = true)

theorem orderly_stamped {fine : Number → Prop} {doc : Document} (h : (Value.obj doc).Orderly fine)
    {v : Int} (hv : fine (.int v)) : (Value.obj (doc.stamped v)).Orderly fine := by
  obtain ⟨hkeys, hmembers⟩ := Value.orderly_obj_iff.1 h
  refine Value.orderly_obj_iff.2 ⟨Members.nodup_keys_set hkeys _ _, fun m hm => ?_⟩
  rcases Members.mem_set hm with rfl | hm
  · exact hv
  · exact hmembers m hm

/-- A document keeps what makes it storable when it is stamped, and is read back from its text. -/
theorem Storable.stamped {doc : Document} (h : Storable doc) {v : Int}
    (hv : v.natAbs < 10 ^ Excess.digitLimit) :
    Storable (doc.stamped v) ∧
      Json.read (Json.line (.spaced true) (.obj (doc.stamped v))) = .ok (.obj (doc.stamped v)) := by
  obtain ⟨text, hread⟩ := h.said
  have hshort : (Number.int v).Short := (Nat.length_toDigits_le_iff (by decide) (by decide)).2 hv
  have hlegible : (Value.obj (doc.stamped v)).Legible Excess.textDepth := by
    cases Json.legible_of_read hread with
    | scalar h => cases h
    | obj hkeys hmembers =>
      have hversion (room : Nat) : (Value.ofInt v).Legible room := .scalar hshort
      have hset := Json.LegibleMembers.set ⟨hkeys, hmembers⟩ "version" (hversion _)
      exact .obj hset.1 hset.2
  have hfinite : (Value.obj (doc.stamped v)).Orderly (·.isFinite = true) :=
    orderly_stamped h.finite rfl
  have hline := Json.read_line hlegible hfinite
  exact ⟨⟨⟨_, hline⟩, hfinite⟩, hline⟩

/-- The documents that are handed over with a command. -/
def Command.documents : Command → List Document
  | .create _ doc _ _ | .commit _ _ doc _ _ => [doc]
  | _ => []

/-! ## 2. Answers without their moments -/

/-- A record without the moment at which it was stored. -/
def Record.undated (r : Record) : Record := { r with createdAt := "" }

/-- What a command comes to, without the moments in it. -/
def Command.undated : (c : Command) → c.Result → c.Result
  | .create .. => id
  | .find _ => id
  | .newest .. => List.map Record.undated
  | .current _ | .version .. | .commit .. | .rollback .. => Record.undated

namespace Table

variable {σ : Type} {reply : (c : Call) → σ → Reply c × σ} {table : σ → List Entry}

/-- Carries a conversation on with an archive. -/
def Archive.converse {α : Type} (reply : (c : Call) → σ → Reply c × σ) (c : Conversation α)
    (a : Archive σ) : Except Fault α × Archive σ := Dialogue.run (Table.respond reply) c.run a

/-- Carries out a command. -/
def Archive.execute (reply : (c : Call) → σ → Reply c × σ) (c : Command) (a : Archive σ) :
    Except Fault c.Result × Archive σ := a.converse reply c.conversation

/-- The archive after some commands, whether they succeeded or not. -/
def Archive.after (reply : (c : Call) → σ → Reply c × σ) (commands : List Command)
    (a : Archive σ) : Archive σ := commands.foldl (fun a c => (a.execute reply c).2) a

/-! ## 3. A table that mirrors a registry -/

end Table

/-- The records of a dashboard; none where it does not exist. -/
def Registry.recordsOf (r : Registry) (id : String) : List Record := (r.histories.get? id).getD []

/-- An entry that stands for a record. -/
structure Record.Kept (rec : Record) (e : Table.Entry) : Prop where
  version : e.version = rec.version
  author : e.author = rec.author
  note : e.note = rec.note
  storable : Storable rec.document
  document : Json.read e.document = .ok (.obj rec.document)

theorem Registry.minted_create (r : Registry) (id : String) (d : Draft) :
    (r.create id d).2.minted = r.minted := by
  rw [Registry.create]
  split
  · rfl
  · have hrecord : (r.record 1 d).2.minted = r.minted := rfl
    generalize r.record 1 d = made at hrecord ⊢
    rcases made with ⟨_ | rec, r'⟩ <;> exact hrecord

theorem Registry.minted_commit (r : Registry) (id : String) (expected : Int) (d : Draft) :
    (r.commit id expected d).2.minted = r.minted := by
  rw [Registry.commit]
  rcases r.find id with _ | records
  · rfl
  rcases r.current id with _ | latest
  · rfl
  dsimp only
  split
  · rfl
  · have hrecord : (r.record (latest.version + 1) d).2.minted = r.minted := rfl
    generalize r.record (latest.version + 1) d = made at hrecord ⊢
    rcases made with ⟨_ | rec, r'⟩ <;> exact hrecord

/-- The record that holds a draft is kept in the entry that the draft is inserted as. -/
theorem Record.Holds.kept {rec : Record} {id : String} {v : Int} {doc : Document}
    {author note : Option String} (h : rec.Holds v doc author note) (hdoc : Storable doc)
    (hv : v.natAbs < 10 ^ Excess.digitLimit) :
    rec.Kept (Table.Entry.of id v ⟨.obj doc, author, note⟩) := by
  obtain ⟨hstamped, hread⟩ := hdoc.stamped hv
  refine ⟨h.version.symm, h.author.symm, h.note.symm, ?_, ?_⟩
  · rw [h.document]
    exact hstamped
  · rw [h.document]
    exact hread

namespace Table

/-- The table of an archive has an entry for every record of a registry, and no more entries than
`n`. -/
structure Mirrors (table : σ → List Entry) (n : Nat) (r : Registry) (a : Archive σ) : Prop where
  minted : a.minted = r.minted
  nonempty : ∀ id records, r.histories.get? id = some records → records ≠ []
  numbered : ∀ id, History.Numbered (r.recordsOf id)
  kept : ∀ id, List.Forall₂ Record.Kept (r.recordsOf id)
    ((table a.database).filter (·.id = id))
  few : (table a.database).length ≤ n

variable {n : Nat} {r r' : Registry} {a a' : Archive σ} {id : String} {records : List Record}
  {rec : Record} {e : Entry} {row : Row}

namespace Mirrors

theorem mono {m : Nat} (h : Mirrors table n r a) (hle : n ≤ m) : Mirrors table m r a :=
  { h with few := Nat.le_trans h.few hle }

/-- Reading changes nothing. -/
theorem read (h : Mirrors table n r a) (ha : table a'.database = table a.database)
    (hminted : a'.minted = a.minted) : Mirrors table n r a' :=
  ⟨hminted.trans h.minted, h.nonempty, h.numbered, ha ▸ h.kept, ha ▸ h.few⟩

theorem versions_eq (h : Mirrors table n r a) (id : String) :
    versions (table a.database) id = (r.recordsOf id).map (·.version) := by
  have hkept := h.kept id
  rw [versions]
  generalize r.recordsOf id = records at hkept ⊢
  generalize (table a.database).filter (·.id = id) = entries at hkept ⊢
  induction hkept with
  | nil => rfl
  | cons hrec _ ih => rw [List.map_cons, List.map_cons, hrec.version, ih]

/-- Every entry stands for a record of its dashboard. -/
theorem exists_kept (h : Mirrors table n r a) (he : e ∈ table a.database) :
    ∃ rec ∈ r.recordsOf e.id, rec.Kept e := by
  have hmem : e ∈ (table a.database).filter (·.id = e.id) := List.mem_filter.2 ⟨he, by simp⟩
  have hkept := h.kept e.id
  generalize r.recordsOf e.id = records at hkept ⊢
  generalize (table a.database).filter (·.id = e.id) = entries at hkept hmem
  induction hkept with
  | nil => cases hmem
  | cons hrec _ ih =>
    rcases List.mem_cons.1 hmem with rfl | hmem
    · exact ⟨_, List.mem_cons_self, hrec⟩
    · obtain ⟨rec, hrecs, hrec⟩ := ih hmem
      exact ⟨rec, List.mem_cons_of_mem _ hrecs, hrec⟩

theorem recordsOf_of_kept (h : r.histories.get? id = some records) : r.recordsOf id = records := by
  rw [Registry.recordsOf, h]
  rfl

theorem recordsOf_of_none (h : r.histories.get? id = none) : r.recordsOf id = [] := by
  rw [Registry.recordsOf, h]
  rfl

/-- The version of an entry is that of a record, so it is positive. -/
theorem mem_versions_iff (h : Mirrors table n r a) {v : Int} :
    v ∈ versions (table a.database) id ↔ 1 ≤ v ∧ v ≤ (r.recordsOf id).length := by
  rw [h.versions_eq, List.mem_map]
  constructor
  · rintro ⟨rec, hrec, rfl⟩
    exact (h.numbered id).bounds hrec
  · rintro ⟨hpos, hle⟩
    have hlt : (v - 1).toNat < (r.recordsOf id).length := by omega
    have hv := h.numbered id _ _ (List.getElem?_eq_getElem hlt)
    exact ⟨_, List.getElem_mem hlt, by omega⟩

/-- The record that a row stands for. -/
theorem record_of_kept (hrec : rec.Kept e) (hrow : row.HandsBack e) (hv : 1 ≤ rec.version) :
    ∃ rec', row.record = .ok rec' ∧ rec'.undated = rec.undated := by
  have hversion : row.version = rec.version := hrow.version.trans hrec.version
  refine ⟨_, Row.record_of_reads (hrow.document _ hrec.document) (hversion ▸ hv), ?_⟩
  rw [Record.undated, Record.undated, hversion, hrow.author, hrow.note, hrec.author, hrec.note]

/-- A record and its entry are added at once. -/
theorem append (h : Mirrors table n r a) (hminted : a'.minted = r'.minted)
    (hhistories : r'.histories = r.histories.set id (r.recordsOf id ++ [rec]))
    (hversion : rec.version = (r.recordsOf id).length + 1) (hrec : rec.Kept e) (hid : e.id = id)
    (htable : table a'.database = table a.database ++ [e]) : Mirrors table (n + 1) r' a' := by
  have hself : r'.recordsOf id = r.recordsOf id ++ [rec] := by
    rw [Registry.recordsOf, hhistories, Members.get?_set_self]
    rfl
  have hother : ∀ id', id' ≠ id → r'.histories.get? id' = r.histories.get? id' := by
    intro id' hne
    rw [hhistories, Members.get?_set_of_ne _ _ hne]
  have hothers : ∀ id', id' ≠ id → r'.recordsOf id' = r.recordsOf id' := by
    intro id' hne
    rw [Registry.recordsOf, hother id' hne, Registry.recordsOf]
  refine ⟨hminted, fun id' records hget => ?_, fun id' => ?_, fun id' => ?_, ?_⟩
  · by_cases hne : id' = id
    · subst hne
      rw [← recordsOf_of_kept hget, hself]
      exact List.append_ne_nil_of_right_ne_nil _ (List.cons_ne_nil _ _)
    · exact h.nonempty id' records (hother id' hne ▸ hget)
  · by_cases hne : id' = id
    · subst hne
      rw [hself]
      exact (h.numbered id').append hversion
    · rw [hothers id' hne]
      exact h.numbered id'
  · rw [htable, List.filter_append]
    by_cases hne : id' = id
    · subst hne
      have hfilter : [e].filter (·.id = id') = [e] := by simp [hid]
      rw [hself, hfilter]
      exact List.rel_append (h.kept id') (.cons hrec .nil)
    · have hfilter : [e].filter (·.id = id') = [] := by simp [hid, Ne.symm hne]
      rw [hothers id' hne, hfilter, List.append_nil]
      exact h.kept id'
  · rw [htable, List.length_append]
    exact Nat.succ_le_succ h.few

end Mirrors

/-! ## 4. Questions -/

/-- Two conversations end alike, but for the moments in what they end with. -/
structure Alike {α : Type} (undated : α → α) (after : Registry → Archive σ → Prop)
    (x : Except Fault α × Registry) (y : Except Fault α × Archive σ) : Prop where
  answer : x.1.map undated = y.1.map undated
  after : after x.2 y.2

namespace Mirrors

theorem any_eq (h : Mirrors table n r a) (id : String) :
    (table a.database).any (·.id = id) = (r.histories.get? id).isSome := by
  rw [Bool.eq_iff_iff, List.any_eq_true]
  constructor
  · rintro ⟨e, he, hid⟩
    obtain ⟨rec, hrec, -⟩ := h.exists_kept he
    rw [of_decide_eq_true hid] at hrec
    cases hget : r.histories.get? id with
    | none =>
      rw [recordsOf_of_none hget] at hrec
      cases hrec
    | some records => rfl
  · intro hsome
    obtain ⟨records, hget⟩ := Option.isSome_iff_exists.1 hsome
    have hfirst : (1 : Int) ∈ versions (table a.database) id := by
      rw [h.mem_versions_iff, recordsOf_of_kept hget]
      have hpos : 0 < records.length := List.length_pos_iff.2 (h.nonempty id records hget)
      omega
    obtain ⟨e, he, -⟩ := List.mem_map.1 hfirst
    exact ⟨e, (List.mem_filter.1 he).1, (List.mem_filter.1 he).2⟩

/-- The newest entry of a dashboard is that of its latest record. -/
theorem latest (h : Mirrors table n r a) (hget : r.histories.get? id = some records) :
    versions (table a.database) id ≠ [] ∧ ∃ latest, records.getLast? = some latest ∧
      1 ≤ latest.version ∧ latest.version = records.length ∧
      ∀ e, Newest (table a.database) e → e.id = id → latest.Kept e := by
  have hrecords := recordsOf_of_kept hget
  have hne := h.nonempty id records hget
  have hnumbered : History.Numbered records := hrecords ▸ h.numbered id
  have hlast : records.getLast? = some (records.getLast hne) := List.getLast?_eq_some_getLast hne
  have hversion := hnumbered.version_last hlast
  have hpos : 0 < records.length := List.length_pos_iff.2 hne
  refine ⟨fun hnil => hne ?_, _, hlast, by omega, hversion, fun e he hid => ?_⟩
  · rw [h.versions_eq, hrecords] at hnil
    exact List.map_eq_nil_iff.1 hnil
  · subst hid
    obtain ⟨rec, hrec, hkept⟩ := h.exists_kept he.1
    have hle : (records.length : Int) ≤ e.version := by
      refine he.2 _ (h.mem_versions_iff.2 ?_)
      rw [hrecords]
      omega
    rw [hrecords] at hrec
    have hbounds := hnumbered.bounds hrec
    have hversion' := hkept.version
    have hsame : rec = records.getLast hne :=
      hnumbered.eq_of_version_eq hrec (List.getLast_mem hne) (by omega)
    exact hsame ▸ hkept

theorem length_le (h : Mirrors table n r a) (id : String) : (r.recordsOf id).length ≤ n := by
  rw [(h.kept id).length_eq]
  exact Nat.le_trans (List.length_filter_le _ _) h.few

/-- The entries of a dashboard, sorted with the newest first, stand for its records in reverse. -/
theorem kept_sorted (h : Mirrors table n r a) {sorted : List Entry}
    (hperm : sorted.Perm ((table a.database).filter (·.id = id)))
    (hsorted : sorted.Pairwise fun e e' => e'.version ≤ e.version) :
    List.Forall₂ Record.Kept (r.recordsOf id).reverse sorted := by
  have hgrow : (versions (table a.database) id).Pairwise (· < ·) := by
    rw [h.versions_eq]
    exact List.pairwise_map.2 (h.numbered id).pairwise
  have hentries : ((table a.database).filter (·.id = id)).Pairwise (·.version < ·.version) :=
    List.pairwise_map.1 hgrow
  have hreverse : sorted = ((table a.database).filter (·.id = id)).reverse := by
    refine List.Perm.eq_of_pairwise (fun e e' he he' hle hge => ?_) hsorted
      (List.pairwise_reverse.2 (hentries.imp Int.le_of_lt)) (hperm.trans (List.reverse_perm _).symm)
    -- No two entries of a dashboard have one version.
    exact List.inj_on_of_nodup_map (hgrow.imp Int.ne_of_lt) (hperm.subset he)
      (List.mem_reverse.1 he') (Int.le_antisymm hge hle)
  rw [hreverse, List.forall₂_reverse_iff]
  exact h.kept id

theorem storable (h : Mirrors table n r a) (hrec : rec ∈ r.recordsOf id) :
    Storable rec.document := by
  have hkept := h.kept id
  generalize r.recordsOf id = records at hkept hrec
  generalize (table a.database).filter (·.id = id) = entries at hkept
  induction hkept with
  | nil => cases hrec
  | cons hfirst _ ih =>
    rcases List.mem_cons.1 hrec with rfl | hrec
    · exact hfirst.storable
    · exact ih hrec

/-- The records that rows stand for, where each row is handed back for an entry of a record. -/
theorem exists_dated {rows : List Row} {entries : List Entry} {records : List Record}
    (hrows : List.Forall₂ Row.HandsBack rows entries)
    (hrecords : List.Forall₂ Record.Kept records entries)
    (hpos : ∀ rec ∈ records, 1 ≤ rec.version) :
    ∃ dated, List.Forall₂ (fun row rec => row.record = .ok rec) rows dated ∧
      dated.map Record.undated = records.map Record.undated := by
  induction hrows generalizing records with
  | nil =>
    cases hrecords
    exact ⟨[], .nil, rfl⟩
  | cons hrow _ ih =>
    cases hrecords with
    | cons hrec hrecords =>
      obtain ⟨hfirst, hpos⟩ := List.forall_mem_cons.1 hpos
      obtain ⟨dated, hdated, hsame⟩ := record_of_kept hrec hrow hfirst
      obtain ⟨more, hmore, hsames⟩ := ih hrecords hpos
      refine ⟨dated :: more, .cons hdated hmore, ?_⟩
      rw [List.map_cons, List.map_cons, hsame, hsames]

variable (h : Mirrors table n r a) (hobeys : Obeys reply table)

include h hobeys

theorem converse_find (id : String) : ∃ s, table s = table a.database ∧
    a.converse reply (Conversation.find id) =
      ((r.find id).map fun _ => (), { a with database := s }) := by
  obtain ⟨answer, s, hanswers, hhold⟩ := hobeys.hold a (.exists id) (throw .duplicateKey) fun b =>
    if b then pure () else throw (.unknownDashboard id)
  obtain ⟨rfl, htable⟩ := hanswers.of_exists
  refine ⟨s, htable, hhold.trans ?_⟩
  dsimp only
  rw [h.any_eq, Registry.find]
  cases r.histories.get? id <;> rfl

/-- A command on a dashboard that does not exist comes to its end, and any other goes on. -/
theorem opened {α : Type} {undated : α → α} {after : Registry → Archive σ → Prop}
    (c : Conversation α) (id : String) (hafter : ∀ a', Mirrors table n r a' → after r a')
    (hc : ∀ records a', r.histories.get? id = some records → Mirrors table n r a' →
      Alike undated after (r.converse c) (a'.converse reply c)) :
    Alike undated after (r.converse (do Conversation.find id; c))
      (a.converse reply (do Conversation.find id; c)) := by
  obtain ⟨s, htable, hfind⟩ := h.converse_find hobeys id
  have hread : Mirrors table n r { a with database := s } := h.read htable rfl
  rw [Archive.converse] at hfind
  rw [Archive.converse, Conversation.run_bind, hfind]
  cases hget : r.histories.get? id with
  | none =>
    rw [Registry.converse_unopened hget, Registry.find, hget]
    exact ⟨rfl, hafter _ hread⟩
  | some records =>
    rw [Registry.converse_opened hget, Registry.find_of_kept hget]
    exact hc records _ hget hread

theorem current (hget : r.histories.get? id = some records) :
    Alike Record.undated (Mirrors table n) (r.converse (Conversation.current id))
      (a.converse reply (Conversation.current id)) := by
  obtain ⟨answer, s, hanswers, hhold⟩ := hobeys.hold a (.latest id false) (throw .duplicateKey)
    (handed (.unknownDashboard id))
  obtain ⟨hne, latest, hlast, hpos, -, hnewest⟩ := h.latest hget
  obtain ⟨htable, ⟨hnone, rfl⟩ | ⟨e, row, he, hid, hrow, rfl⟩⟩ := hanswers.of_latest
  · exact absurd hnone hne
  · obtain ⟨rec, hrec, hsame⟩ := record_of_kept (hnewest e he hid) hrow hpos
    have hleft : r.converse (Conversation.current id) = (r.current id, r) := rfl
    have hright : a.converse reply (Conversation.current id) = a.hold reply (Table.current id) :=
      rfl
    rw [hleft, Registry.current_of_kept hget hlast, hright, Table.current_eq, hhold]
    dsimp only [handed]
    rw [hrec]
    exact ⟨congrArg Except.ok hsame.symm, h.read htable rfl⟩

theorem version (hget : r.histories.get? id = some records) (number : Int) :
    Alike Record.undated (Mirrors table n) (r.converse (Conversation.version id number))
      (a.converse reply (Conversation.version id number)) := by
  obtain ⟨answer, s, hanswers, hhold⟩ := hobeys.hold a (.version id number) (throw .duplicateKey)
    (handed (.unknownVersion id number))
  have hleft : r.converse (Conversation.version id number) = (r.version id number, r) := rfl
  have hright : a.converse reply (Conversation.version id number) =
      a.hold reply (Table.version id number) := rfl
  have hrecords := recordsOf_of_kept hget
  have hnumbered : History.Numbered records := hrecords ▸ h.numbered id
  have hversion := Registry.version_eq hget hnumbered number
  rw [hleft, hright, Table.version_eq, hhold]
  obtain ⟨htable, ⟨hmissing, rfl⟩ | ⟨e, he, row, hid, hv, hrow, rfl⟩⟩ := hanswers.of_version
  · rw [h.mem_versions_iff, hrecords] at hmissing
    rw [if_neg hmissing] at hversion
    rw [hversion]
    exact ⟨rfl, h.read htable rfl⟩
  · subst hid
    obtain ⟨rec, hrec, hkept⟩ := h.exists_kept he
    rw [hrecords] at hrec
    have hbounds := hnumbered.bounds hrec
    have hnumber : rec.version = number := hkept.version.symm.trans hv
    rw [if_pos (hnumber ▸ hbounds)] at hversion
    obtain ⟨rec', hrec', hnumber', hversion⟩ := hversion
    obtain rfl : rec' = rec := hnumbered.eq_of_version_eq hrec' hrec (hnumber'.trans hnumber.symm)
    obtain ⟨dated, hdated, hsame⟩ := record_of_kept hkept hrow hbounds.1
    rw [hversion]
    dsimp only [handed]
    rw [hdated]
    exact ⟨congrArg Except.ok hsame.symm, h.read htable rfl⟩

/-- The next version of a dashboard is inserted as the entry of the record that the registry appends. -/
theorem inserted {α : Type} {v : Int} {doc : Document} {author note : Option String}
    (hdoc : Storable doc) (hv : v = (r.recordsOf id).length + 1)
    (hfew : v.natAbs < 10 ^ Excess.digitLimit) (hholds : rec.Holds v doc author note)
    (hminted : r'.minted = r.minted)
    (hhistories : r'.histories = r.histories.set id (r.recordsOf id ++ [rec]))
    (taken : Session (Payload (insertion id v ⟨.obj doc, author, note⟩)))
    (k : Payload (insertion id v ⟨.obj doc, author, note⟩) → Session α) :
    ∃ row dated s, row.record = .ok dated ∧ dated.undated = rec.undated ∧
      a.hold reply (attempt (insertion id v ⟨.obj doc, author, note⟩) taken >>= k) =
        { a with database := s }.hold reply (k (some row)) ∧
      Mirrors table (n + 1) r' { a with database := s } := by
  have hkept := @Record.Holds.kept _ id _ _ _ _ hholds hdoc hfew
  have hnew : v ∉ versions (table a.database) id := by
    rw [h.mem_versions_iff]
    omega
  obtain ⟨_, s, hanswers, hhold⟩ := hobeys.hold a (insertion id v ⟨.obj doc, author, note⟩) taken k
  have hinsert := hanswers.of_insert
  rw [if_neg hnew] at hinsert
  obtain ⟨row, hrow, rfl, htable⟩ := hinsert
  have hnumber := hholds.version
  obtain ⟨dated, hdated, hsame⟩ := record_of_kept hkept hrow (by omega)
  exact ⟨row, dated, s, hdated, hsame, hhold,
    h.append (h.minted.trans hminted.symm) hhistories (hnumber.trans hv) hkept rfl htable⟩

theorem put (hget : r.histories.get? id = some records) (expected : Int) {doc : Document}
    (hdoc : Storable doc) (author note : Option String) (hn : n + 1 < 10 ^ Excess.digitLimit) :
    Alike Record.undated (Mirrors table (n + 1))
      (r.converse (Conversation.put id expected ⟨.obj doc, author, note⟩))
      (a.converse reply (Conversation.put id expected ⟨.obj doc, author, note⟩)) := by
  have hrecords := recordsOf_of_kept hget
  obtain ⟨hne, latest, hlast, hpos, hlength, hnewest⟩ := h.latest hget
  have hfew := h.length_le id
  rw [hrecords] at hfew
  have hleft : r.converse (Conversation.put id expected ⟨.obj doc, author, note⟩) =
      r.commit id expected ⟨.obj doc, author, note⟩ := rfl
  have hright : a.converse reply (Conversation.put id expected ⟨.obj doc, author, note⟩) =
      a.hold reply (Table.commit id expected ⟨.obj doc, author, note⟩) := rfl
  obtain ⟨s₂, row?, htable, hhold, hread⟩ :=
    hobeys.hold_commit a id expected ⟨.obj doc, author, note⟩
  rw [hleft, hright, hhold]
  obtain ⟨rfl, hnone⟩ | ⟨e, row, rfl, he, hid, hrow⟩ := hread
  · exact absurd hnone hne
  have hkept := hnewest e he hid
  have hversion : row.version = latest.version := hrow.version.trans hkept.version
  dsimp only [commitOnto]
  rw [hversion]
  have hread : Mirrors table n r { a with database := s₂ } := h.read htable rfl
  by_cases hexpected : latest.version = expected
  · subst hexpected
    rw [if_neg fun hne => hne rfl]
    obtain ⟨rec, r', hcommit, hnumber, hdocument, hauthor, hnote, hhistories⟩ :=
      Registry.commit_of_latest hget hlast (by omega) doc author note
    have hminted : r'.minted = r.minted := by
      have hminted := Registry.minted_commit r id latest.version ⟨.obj doc, author, note⟩
      rw [hcommit] at hminted
      exact hminted
    have hnext : latest.version + 1 = (r.recordsOf id).length + 1 := by rw [hrecords, hlength]
    obtain ⟨row', dated, s₃, hdated, hsame, hhold, hafter⟩ := hread.inserted hobeys hdoc hnext
      (by omega) ⟨hnumber, hdocument, hauthor, hnote⟩ hminted (hrecords.symm ▸ hhistories)
      (conflict id latest.version) (handed .noRow)
    rw [hcommit, hhold]
    dsimp only [handed]
    rw [hdated]
    exact ⟨congrArg Except.ok hsame.symm, hafter⟩
  · rw [if_pos hexpected, Registry.commit_of_stale hget hlast (Ne.symm hexpected)]
    exact ⟨rfl, hread.mono (Nat.le_succ n)⟩

/-- A new dashboard is created on both sides, and one that is there on neither. -/
theorem create (id : String) {doc : Document} (hdoc : Storable doc) (author note : Option String) :
    Alike (fun id : String => id) (Mirrors table (n + 1))
      (r.converse (do
        ExceptT.mk (Dialogue.question (Question.create id ⟨.obj doc, author, note⟩))
        pure id))
      (a.converse reply (do
        ExceptT.mk (Dialogue.question (Question.create id ⟨.obj doc, author, note⟩))
        pure id)) := by
  have hask : Dialogue.run (Table.respond reply)
      (ExceptT.mk (Dialogue.question (Question.create id ⟨.obj doc, author, note⟩)) :
        Conversation Unit).run a =
      a.hold reply (attempt (insertion id 1 ⟨.obj doc, author, note⟩) (throw (.takenId id)) >>=
        fun _ => pure ()) := rfl
  rw [Registry.converse_question_create, Archive.converse, Conversation.run_bind, hask]
  cases hget : r.histories.get? id with
  | some records =>
    obtain ⟨answer, s, hanswers, hhold⟩ := hobeys.hold a (insertion id 1 ⟨.obj doc, author, note⟩)
      (throw (.takenId id)) fun _ => pure ()
    have hinsert := hanswers.of_insert
    have htaken : (1 : Int) ∈ versions (table a.database) id := by
      have hpos : 0 < records.length := List.length_pos_iff.2 (h.nonempty id records hget)
      rw [h.mem_versions_iff, recordsOf_of_kept hget]
      omega
    rw [if_pos htaken] at hinsert
    obtain ⟨rfl, htable⟩ := hinsert
    have hread : Mirrors table n r { a with database := s } := h.read htable rfl
    rw [Registry.create_of_taken hget, hhold]
    exact ⟨rfl, hread.mono (Nat.le_succ n)⟩
  | none =>
    obtain ⟨rec, r', hcreate, hholds, hhistories⟩ := Registry.create_of_new hget doc author note
    have hminted : r'.minted = r.minted := by
      have hminted := Registry.minted_create r id ⟨.obj doc, author, note⟩
      rw [hcreate] at hminted
      exact hminted
    have hrecords := recordsOf_of_none hget
    have hfirst : (1 : Int) = (r.recordsOf id).length + 1 := by
      rw [hrecords]
      rfl
    obtain ⟨row, -, s, -, -, hhold, hafter⟩ := h.inserted hobeys hdoc hfirst
      (Nat.one_lt_pow (by decide) (by decide)) hholds hminted (hrecords.symm ▸ hhistories)
      (throw (.takenId id)) fun _ => pure ()
    rw [hcreate, hhold]
    exact ⟨rfl, hafter⟩

theorem newest (hget : r.histories.get? id = some records) (limit : Int) :
    Alike (List.map Record.undated) (Mirrors table n) (r.converse (Conversation.newest id limit))
      (a.converse reply (Conversation.newest id limit)) := by
  obtain ⟨answer, s, hanswers, hhold⟩ := hobeys.hold a (.newest id (max limit 0))
    (throw .duplicateKey) fun rows => rows.mapM fun row => (row.record : Session Record)
  have hright : a.converse reply (Conversation.newest id limit) = _ := hhold
  have hleft : r.converse (Conversation.newest id limit) =
      (.ok (records.reverse.take limit.toNat), r) := by
    show (r.newest id limit, r) = _
    rw [Registry.newest, Registry.find_of_kept hget]
    rfl
  obtain ⟨htable, sorted, rows, hperm, hsorted, hrows, rfl⟩ := hanswers.of_newest
  have hrecords := recordsOf_of_kept hget
  have hkept := List.forall₂_take limit.toNat (h.kept_sorted hperm hsorted)
  have hlimit : (max limit 0).toNat = limit.toNat := by omega
  rw [hlimit] at hrows
  rw [hrecords] at hkept
  obtain ⟨dated, hdated, hsame⟩ := exists_dated hrows hkept fun rec hrec => by
    have hmem : rec ∈ r.recordsOf id :=
      hrecords.symm ▸ List.mem_reverse.1 (List.mem_of_mem_take hrec)
    exact ((h.numbered id).bounds hmem).1
  rw [hleft, hright]
  dsimp only
  rw [mapM_record hdated]
  exact ⟨congrArg Except.ok hsame.symm, h.read htable rfl⟩

end Mirrors

/-! ## 5. Commands -/

/-- A conversation that goes on ends alike, if its first part does and if it goes on alike with what
the registry has answered. -/
theorem Alike.bind {α β : Type} {undated : α → α} {undated' : β → β}
    {after after' : Registry → Archive σ → Prop} {c : Conversation α} {f : α → Conversation β}
    (h : Alike undated after (r.converse c) (a.converse reply c))
    (hafter : ∀ r a, after r a → after' r a)
    (hf : ∀ x y r' a', r.converse c = (.ok x, r') → undated x = undated y → after r' a' →
      Alike undated' after' (r'.converse (f x)) (a'.converse reply (f y))) :
    Alike undated' after' (r.converse (c >>= f)) (a.converse reply (c >>= f)) := by
  obtain ⟨hanswer, hend⟩ := h
  rw [Archive.converse] at hanswer hend
  rw [Registry.converse_bind, Archive.converse, Conversation.run_bind]
  generalize r.converse c = x at hanswer hend hf ⊢
  generalize Dialogue.run (Table.respond reply) c.run a = y at hanswer hend ⊢
  rcases x with ⟨_ | x, r'⟩ <;> rcases y with ⟨_ | y, a'⟩
  · cases hanswer
    exact ⟨rfl, hafter _ _ hend⟩
  · cases hanswer
  · cases hanswer
  · exact hf x y r' a' rfl (Except.ok.inj hanswer) hend

namespace Mirrors

variable (h : Mirrors table n r a) (hobeys : Obeys reply table)

include h

theorem freshId : Alike (fun id : String => id) (Mirrors table n)
    (r.converse (ExceptT.lift (Dialogue.question Question.freshId)))
    (a.converse reply (ExceptT.lift (Dialogue.question Question.freshId))) :=
  ⟨congrArg (fun k => Except.ok (idText k)) h.minted.symm,
    congrArg (· + 1) h.minted, h.nonempty, h.numbered, h.kept, h.few⟩

include hobeys

theorem create_given (given : Option String) {doc : Document} (hdoc : Storable doc)
    (author note : Option String) :
    Alike (fun id : String => id) (Mirrors table (n + 1))
      (r.converse (Conversation.create given ⟨.obj doc, author, note⟩))
      (a.converse reply (Conversation.create given ⟨.obj doc, author, note⟩)) := by
  have hfresh : Alike (fun id : String => id) (Mirrors table (n + 1))
      (r.converse (ExceptT.lift (Dialogue.question Question.freshId) >>= fun id => do
        ExceptT.mk (Dialogue.question (Question.create id ⟨.obj doc, author, note⟩))
        pure id))
      (a.converse reply (ExceptT.lift (Dialogue.question Question.freshId) >>= fun id => do
        ExceptT.mk (Dialogue.question (Question.create id ⟨.obj doc, author, note⟩))
        pure id)) := by
    refine h.freshId.bind (fun r a hread => hread.mono (Nat.le_succ n)) ?_
    rintro x y r' a' - rfl hread
    exact hread.create hobeys x hdoc author note
  rcases given with _ | id
  · exact hfresh
  · by_cases hempty : id = ""
    · subst hempty
      exact hfresh
    · have hgiven : Conversation.create (some id) ⟨.obj doc, author, note⟩ = (do
          ExceptT.mk (Dialogue.question (Question.create id ⟨.obj doc, author, note⟩))
          pure id) := by
        rw [Conversation.create]
        · rfl
        · exact hempty
      rw [hgiven]
      exact h.create hobeys id hdoc author note

theorem rollback (hget : r.histories.get? id = some records) (target : Int)
    (author : Option String) (hn : n + 1 < 10 ^ Excess.digitLimit) :
    Alike Record.undated (Mirrors table (n + 1))
      (r.converse (Conversation.rollback id target author))
      (a.converse reply (Conversation.rollback id target author)) := by
  refine (h.version hobeys hget target).bind (fun r a hread => hread.mono (Nat.le_succ n)) ?_
  intro earlier earlier' r₁ a₁ hversion hsame h₁
  have hfound : r.version id target = .ok earlier := (Prod.mk.inj hversion).1
  obtain rfl : r = r₁ := (Prod.mk.inj hversion).2
  have hdocument : earlier.document = earlier'.document := (congrArg Record.document hsame :)
  have hmem : earlier ∈ r.recordsOf id :=
    recordsOf_of_kept hget ▸ List.mem_of_getElem? (Registry.version_of_kept hget hfound).2
  rw [← hdocument]
  refine (h₁.current hobeys hget).bind (fun r a hread => hread.mono (Nat.le_succ n)) ?_
  intro latest latest' r₂ a₂ hcurrent hsame' h₂
  obtain rfl : r = r₂ := (Prod.mk.inj hcurrent).2
  have hnumber : latest.version = latest'.version := (congrArg Record.version hsame' :)
  rw [← hnumber]
  exact h₂.put hobeys hget latest.version (h.storable hmem) author (some (rollbackNote target)) hn

/-- A command is answered alike by both, and leaves them alike. -/
theorem execute (c : Command) (hdocs : ∀ doc ∈ c.documents, Storable doc)
    (hn : n + 1 < 10 ^ Excess.digitLimit) :
    Alike c.undated (Mirrors table (n + 1)) (r.execute c) (a.execute reply c) := by
  have hafter : ∀ a', Mirrors table n r a' → Mirrors table (n + 1) r a' :=
    fun a' hread => hread.mono (Nat.le_succ n)
  have later {α : Type} {undated : α → α} {x : Except Fault α × Registry}
      {y : Except Fault α × Archive σ} (halike : Alike undated (Mirrors table n) x y) :
      Alike undated (Mirrors table (n + 1)) x y :=
    ⟨halike.answer, halike.after.mono (Nat.le_succ n)⟩
  cases c with
  | create given doc author note =>
    exact h.create_given hobeys given (hdocs doc List.mem_cons_self) author note
  | find id =>
    obtain ⟨s, htable, hfind⟩ := h.converse_find hobeys id
    have hread : Mirrors table n r { a with database := s } := h.read htable rfl
    have hexecute : a.execute reply (.find id) = _ := hfind
    rw [hexecute]
    exact ⟨rfl, hread.mono (Nat.le_succ n)⟩
  | current id =>
    exact h.opened hobeys _ id hafter fun _ _ hget hread => later (hread.current hobeys hget)
  | version id number =>
    exact h.opened hobeys _ id hafter fun _ _ hget hread => later (hread.version hobeys hget number)
  | newest id limit =>
    exact h.opened hobeys _ id hafter fun _ _ hget hread => later (hread.newest hobeys hget limit)
  | commit id expected doc author note =>
    exact h.opened hobeys _ id hafter fun _ _ hget hread =>
      hread.put hobeys hget expected (hdocs doc List.mem_cons_self) author note hn
  | rollback id target author =>
    exact h.opened hobeys _ id hafter fun _ _ hget hread =>
      hread.rollback hobeys hget target author hn

theorem after (commands : List Command) (hdocs : ∀ c ∈ commands, ∀ doc ∈ c.documents, Storable doc)
    (hn : n + commands.length < 10 ^ Excess.digitLimit) :
    Mirrors table (n + commands.length) (r.after commands) (a.after reply commands) := by
  induction commands generalizing n r a with
  | nil => exact h
  | cons c commands ih =>
    obtain ⟨hfirst, hdocs⟩ := List.forall_mem_cons.1 hdocs
    rw [List.length_cons] at hn
    have hstep := (h.execute hobeys c hfirst (by omega)).after
    have hrest := ih hstep hdocs (by omega)
    rw [List.length_cons, Nat.add_comm commands.length 1, ← Nat.add_assoc]
    exact hrest

end Mirrors

end Table

end History

end Dashboards
