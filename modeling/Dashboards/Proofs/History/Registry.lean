import Dashboards.History.Registry

/-!
# What the registry does with one history

For a dashboard whose history is known, every answer of the registry is fixed by that history: the
latest record, the record of a version, and whether a commit goes through.  A commit that goes
through appends one record and touches nothing before it.
-/

namespace Dashboards

/-! ## 1. Making records -/

theorem Shape.entries_anything (ms : List (String × Value)) :
    Shape.entries Shape.anything ms = .good ms := by
  induction ms with
  | nil => rfl
  | cons m ms ih =>
    rw [Shape.entries, ih]
    rfl

theorem Shape.integerAtLeast_ofInt (least v : Int) : Shape.integerAtLeast least (.ofInt v) =
    if v < least then Shape.fail (.below least) else .good v := rfl

theorem Document.read_obj (ms : Members Value) : Document.read (.obj ms) = .good ms :=
  Shape.entries_anything ms

namespace History

theorem stamp_obj (doc : Document) (v : Int) : stamp (.obj doc) v = .obj (doc.stamped v) := rfl

theorem Record.make_obj {v : Int} (hv : 1 ≤ v) (doc : Document) (t : String)
    (author note : Option String) :
    Record.make v (.obj doc) t author note = .good ⟨v, doc, t, author, note⟩ := by
  rw [Record.make, Shape.integerAtLeast_ofInt, if_neg (Int.not_lt.2 hv), Document.read_obj]
  rfl

namespace Registry

/-! ## 2. Looking at a history -/

variable {r r' : Registry} {id : String} {records : List Record} {latest rec : Record}

theorem find_of_kept (h : r.histories.get? id = some records) : r.find id = .ok records := by
  rw [Registry.find, h]

theorem current_of_kept (h : r.histories.get? id = some records)
    (hl : records.getLast? = some latest) : r.current id = .ok latest := by
  rw [Registry.current, find_of_kept h]
  dsimp only [bind, Except.bind]
  rw [hl]
  rfl

theorem version_of_kept (h : r.histories.get? id = some records) {t : Int}
    (hrec : r.version id t = .ok rec) : 1 ≤ t ∧ records[(t - 1).toNat]? = some rec := by
  rw [Registry.version, find_of_kept h] at hrec
  dsimp only [bind, Except.bind] at hrec
  split at hrec
  · rename_i found hfound
    cases hrec
    split at hfound
    · exact ⟨‹_›, hfound⟩
    · cases hfound
  · cases hrec

/-! ## 3. Extending a history -/

theorem commit_of_stale (h : r.histories.get? id = some records)
    (hl : records.getLast? = some latest) {expected : Int} (hne : expected ≠ latest.version)
    (d : Draft) : r.commit id expected d = (.error (.stale expected latest.version), r) := by
  rw [Registry.commit, find_of_kept h, current_of_kept h hl]
  exact if_pos hne

/-- A commit against the latest version appends the record of the next one. -/
theorem commit_of_latest (h : r.histories.get? id = some records)
    (hl : records.getLast? = some latest) (hpos : 0 ≤ latest.version) (doc : Document)
    (author note : Option String) :
    ∃ rec r', r.commit id latest.version ⟨.obj doc, author, note⟩ = (.ok rec, r') ∧
      rec.version = latest.version + 1 ∧ rec.document = doc.stamped (latest.version + 1) ∧
      rec.author = author ∧ rec.note = note ∧
      r'.histories = r.histories.set id (records ++ [rec]) := by
  have hv : (1 : Int) ≤ latest.version + 1 := by omega
  refine ⟨⟨latest.version + 1, doc.stamped (latest.version + 1), r.clock.text, author, note⟩,
    { r with clock := r.clock.next }.store id (records ++ [_]), ?_, rfl, rfl, rfl, rfl, rfl⟩
  rw [Registry.commit, find_of_kept h, current_of_kept h hl]
  show (if latest.version ≠ latest.version then _ else _) = _
  rw [if_neg (fun hne => hne rfl), Registry.record, stamp_obj, Record.make_obj hv]

/-- A dashboard that was created has a history of one record, numbered 1. -/
theorem create_eq_ok {first : Draft} (h : r.create id first = (.ok (), r')) :
    ∃ (doc : Document) (rec : Record), first.document = .obj doc ∧ rec.version = 1 ∧
      rec.document = doc.stamped 1 ∧ r'.histories.get? id = some [rec] := by
  rw [Registry.create] at h
  split at h
  · cases h
  · rw [Registry.record] at h
    cases hdoc : first.document with
    | obj doc =>
      rw [hdoc, stamp_obj, Record.make_obj (Int.le_refl 1)] at h
      cases h
      exact ⟨doc, _, rfl, rfl, rfl, Members.get?_set_self _ _ _⟩
    | _ =>
      rw [hdoc] at h
      cases h

end Registry

end History

end Dashboards
