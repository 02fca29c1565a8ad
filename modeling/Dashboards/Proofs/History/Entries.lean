import Mathlib.Data.List.Nodup
import Dashboards.History.Table
import Dashboards.Proofs.History.Registry

/-!
# Entries of the versions table

What has been inserted into the table, one entry for each version of each dashboard, and the rows in
which the database hands entries back.
-/

namespace Dashboards

namespace History

namespace Table

/-! ## 1. Entries and rows -/

/-- A version as it is inserted; the database adds the moment. -/
structure Entry where
  id : String
  version : Int
  document : String
  author : Option String
  note : Option String

/-- A draft as it is inserted as a version. -/
def Entry.of (id : String) (version : Int) (d : Draft) : Entry :=
  ⟨id, version, Json.line (.spaced true) (stamp d.document version), d.author, d.note⟩

/-- The versions of a dashboard, in the order in which they were inserted. -/
def versions (entries : List Entry) (id : String) : List Int :=
  (entries.filter (·.id = id)).map (·.version)

/-- The numbers 1, 2, …, `n`. -/
def oneTo (n : Nat) : List Int := (List.range n).map fun k : Nat => (k : Int) + 1

/-- The document of a row is an object, as a tree or as its text. -/
def Row.Reads (row : Row) (doc : Document) : Prop :=
  row.document = .obj doc ∨ ∃ text, row.document = .str text ∧ Json.read text = .ok (.obj doc)

/-- A row as the database hands it back for an entry. -/
structure Row.StandsFor (row : Row) (e : Entry) : Prop where
  version : row.version = e.version
  author : row.author = e.author
  note : row.note = e.note
  reads : ∃ doc, row.Reads doc

/-- An entry with the greatest version of its dashboard. -/
def Newest (entries : List Entry) (e : Entry) : Prop :=
  e ∈ entries ∧ ∀ v ∈ versions entries e.id, v ≤ e.version

theorem Row.record_of_reads {row : Row} {doc : Document} (h : row.Reads doc)
    (hv : 1 ≤ row.version) :
    row.record = .ok ⟨row.version, doc, row.createdAt, row.author, row.note⟩ := by
  rw [Row.record]
  rcases h with hdoc | ⟨text, hdoc, hread⟩
  · rw [hdoc]
    dsimp only [bind, Except.bind, pure, Except.pure]
    rw [Record.make_obj hv]
  · rw [hdoc]
    dsimp only
    rw [hread]
    dsimp only [bind, Except.bind, pure, Except.pure, Except.mapError]
    rw [Record.make_obj hv]

/-- The record of a row can be made where the row stands for a version that is positive. -/
theorem Row.StandsFor.record {row : Row} {e : Entry} (h : row.StandsFor e) (hv : 1 ≤ e.version) :
    ∃ rec, row.record = .ok rec := by
  obtain ⟨doc, hdoc⟩ := h.reads
  exact ⟨_, Row.record_of_reads hdoc (h.version ▸ hv)⟩

/-! ## 2. Numbered tables -/

theorem mem_oneTo {n : Nat} {v : Int} : v ∈ oneTo n ↔ 1 ≤ v ∧ v ≤ n := by
  rw [oneTo, List.mem_map]
  constructor
  · rintro ⟨k, hk, rfl⟩
    have hlt : k < n := List.mem_range.1 hk
    omega
  · rintro ⟨hpos, hle⟩
    exact ⟨(v - 1).toNat, List.mem_range.2 (by omega), by omega⟩

theorem oneTo_succ (n : Nat) : oneTo (n + 1) = oneTo n ++ [(n : Int) + 1] := by
  rw [oneTo, List.range_succ, List.map_append]
  rfl

theorem nodup_oneTo (n : Nat) : (oneTo n).Nodup := by
  rw [oneTo, List.Nodup, List.pairwise_map]
  exact List.nodup_range.imp fun hne heq => hne (by omega)

variable {entries : List Entry} {id : String} {v : Int} {e : Entry}

theorem versions_append (entries more : List Entry) (id : String) :
    versions (entries ++ more) id = versions entries id ++ versions more id := by
  rw [versions, List.filter_append, List.map_append]
  rfl

theorem mem_versions_append {more : List Entry} (h : v ∈ versions entries id) :
    v ∈ versions (entries ++ more) id := by
  rw [versions_append]
  exact List.mem_append_left _ h

theorem versions_singleton_self (e : Entry) : versions [e] e.id = [e.version] := by
  simp [versions]

theorem versions_singleton_of_ne (h : e.id ≠ id) : versions [e] id = [] := by
  simp [versions, h]

theorem mem_versions (h : e ∈ entries) : e.version ∈ versions entries e.id :=
  List.mem_map_of_mem (List.mem_filter.2 ⟨h, by simp⟩)

/-- The versions of each dashboard are 1, 2, …, n. -/
def Numbered (entries : List Entry) : Prop := ∀ id, ∃ n, versions entries id = oneTo n

/-- The unique key and the version before it leave one number for an insertion. -/
theorem Numbered.append (h : Numbered entries) (hnew : e.version ∉ versions entries e.id)
    (hprev : e.version = 1 ∨ e.version - 1 ∈ versions entries e.id) : Numbered (entries ++ [e]) := by
  intro id
  obtain ⟨n, hn⟩ := h id
  by_cases hid : e.id = id
  · subst hid
    refine ⟨n + 1, ?_⟩
    rw [hn, mem_oneTo] at hnew hprev
    have hv : e.version = n + 1 := by omega
    rw [versions_append, versions_singleton_self, hn, hv, oneTo_succ]
  · exact ⟨n, by rw [versions_append, versions_singleton_of_ne hid, hn, List.append_nil]⟩

end Table

end History

end Dashboards
