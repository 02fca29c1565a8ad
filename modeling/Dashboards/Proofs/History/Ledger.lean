import Mathlib.Logic.ExistsUnique
import Dashboards.Proofs.History.Traffic
import Dashboards.Proofs.Simulation

/-!
# Every version has one author

The traffic at a dashboard keeps a ledger: the versions are numbered without a gap, and every version
but the first belongs to the one edit that stored it, which accounts for its document.  The invariant
ties what a client has read to the history.  The history only grows at its end, so a record that was
read stays in it, and a swap goes through only while that record is the newest.
-/

namespace Dashboards

namespace History

/-! ## 1. Numbered histories -/

/-- The records carry the numbers 1, 2, 3, … in order. -/
def Numbered (records : List Record) : Prop :=
  ∀ (k : Nat) (rec : Record), records[k]? = some rec → rec.version = k + 1

namespace Numbered

variable {records : List Record} {rec rec' latest : Record}

theorem singleton (h : rec.version = 1) : Numbered [rec] := by
  intro k r hk
  cases k with
  | zero =>
    obtain rfl : rec = r := by simpa using hk
    simpa using h
  | succ k => simp at hk

theorem append (h : Numbered records) (hv : rec.version = records.length + 1) :
    Numbered (records ++ [rec]) := by
  intro k r hk
  rcases Nat.lt_trichotomy k records.length with hlt | heq | hgt
  · rw [List.getElem?_append_left hlt] at hk
    exact h k r hk
  · subst heq
    obtain rfl : rec = r := by simpa using hk
    exact hv
  · rw [List.getElem?_eq_none (by simp; omega)] at hk
    cases hk

theorem bounds (h : Numbered records) (hr : rec ∈ records) :
    1 ≤ rec.version ∧ rec.version ≤ records.length := by
  obtain ⟨k, hk⟩ := List.mem_iff_getElem?.1 hr
  have hlt : k < records.length := (List.getElem?_eq_some_iff.1 hk).1
  have hv := h k rec hk
  omega

/-- A record is known by its number. -/
theorem eq_of_version_eq (h : Numbered records) (hr : rec ∈ records) (hr' : rec' ∈ records)
    (hv : rec.version = rec'.version) : rec = rec' := by
  obtain ⟨k, hk⟩ := List.mem_iff_getElem?.1 hr
  obtain ⟨l, hl⟩ := List.mem_iff_getElem?.1 hr'
  have hkl : k = l := by
    have h1 := h k rec hk
    have h2 := h l rec' hl
    omega
  subst hkl
  exact Option.some.inj (hk.symm.trans hl)

/-- The numbers grow along the history. -/
theorem pairwise (h : Numbered records) : records.Pairwise (·.version < ·.version) := by
  rw [List.pairwise_iff_getElem]
  intro i j hi hj hlt
  have hvi := h i _ (List.getElem?_eq_getElem hi)
  have hvj := h j _ (List.getElem?_eq_getElem hj)
  omega

theorem version_last (h : Numbered records) (hl : records.getLast? = some latest) :
    latest.version = records.length := by
  rw [List.getLast?_eq_getElem?] at hl
  have hlt : records.length - 1 < records.length := (List.getElem?_eq_some_iff.1 hl).1
  have hv := h _ _ hl
  omega

end Numbered

/-! ## 2. What an edit may store -/

/-- The document that an edit may put on top of version `v`, before the next number goes into it: a
commit was made for that version and puts what its patch makes of the document, a rollback puts the
document of its target, which is not younger. -/
def Edit.Entitles (policy : Policy) (records : List Record) (v : Int) (doc : Document) :
    Edit → Prop
  | .commit expected ops _ _ =>
    expected = v ∧ ∃ before ∈ records, before.version = v ∧
      (Patch.apply (some policy) (.obj before.document) ops).applied = true ∧
      (Patch.apply (some policy) (.obj before.document) ops).document = .obj doc
  | .rollback target _ =>
    ∃ earlier ∈ records, earlier.version = target ∧ target ≤ v ∧ doc = earlier.document

/-- The edit accounts for a record: it was entitled to the document, apart from the number. -/
def Edit.AccountsFor (policy : Policy) (records : List Record) (rec : Record) (edit : Edit) : Prop :=
  ∃ doc, edit.Entitles policy records (rec.version - 1) doc ∧
    rec.document = doc.stamped rec.version

theorem Edit.Entitles.mono {policy : Policy} {records more : List Record} {v : Int} {doc : Document}
    {edit : Edit} (h : edit.Entitles policy records v doc) :
    edit.Entitles policy (records ++ more) v doc := by
  cases edit with
  | commit expected ops author note =>
    obtain ⟨hv, before, hmem, h⟩ := h
    exact ⟨hv, before, List.mem_append_left _ hmem, h⟩
  | rollback target author =>
    obtain ⟨earlier, hmem, h⟩ := h
    exact ⟨earlier, List.mem_append_left _ hmem, h⟩

theorem Edit.AccountsFor.mono {policy : Policy} {records more : List Record} {rec : Record}
    {edit : Edit} (h : edit.AccountsFor policy records rec) :
    edit.AccountsFor policy (records ++ more) rec := by
  obtain ⟨doc, hdoc, hrec⟩ := h
  exact ⟨doc, hdoc.mono, hrec⟩

/-! ## 3. How far an edit has come -/

/-- What is left of the conversation of an edit, and what it has learnt from the history so far. -/
inductive Phase (rules : EditRules) (id : String) (records : List Record) :
    Edit → Dialogue Answer (Except Fault Record) → Prop
  | commitStart (expected : Int) (ops : List Operation) (author note : Option String) :
      Phase rules id records (.commit expected ops author note)
        (.ask (.current id) (commitOn rules id expected ops author note))
  | rollbackStart (target : Int) (author : Option String) :
      Phase rules id records (.rollback target author)
        (.ask (.version id target) (rollbackFrom id target author))
  | rollbackFound (author : Option String) {earlier : Record} (hmem : earlier ∈ records) :
      Phase rules id records (.rollback earlier.version author)
        (.ask (.current id) (rollbackOn id earlier.version author earlier))
  | swapping {edit : Edit} {v : Int} {doc : Document} (author note : Option String)
      (hdoc : edit.Entitles rules.policy records v doc) :
      Phase rules id records edit (swap id v ⟨.obj doc, author, note⟩)
  | failed (edit : Edit) (f : Fault) : Phase rules id records edit (.done (.error f))
  | stored {edit : Edit} {rec : Record} (hmem : rec ∈ records) (hpos : 1 < rec.version)
      (hrec : edit.AccountsFor rules.policy records rec) :
      Phase rules id records edit (.done (.ok rec))

variable {rules : EditRules} {id : String} {records more : List Record} {edit : Edit}

theorem Phase.start (edit : Edit) : Phase rules id records edit (edit.conversation rules id).run := by
  cases edit with
  | commit expected ops author note =>
    rw [Edit.run_commit]
    exact .commitStart expected ops author note
  | rollback target author =>
    rw [Edit.run_rollback]
    exact .rollbackStart target author

/-- What was learnt stays true when the history grows. -/
theorem Phase.mono {rest : Dialogue Answer (Except Fault Record)}
    (h : Phase rules id records edit rest) : Phase rules id (records ++ more) edit rest := by
  cases h with
  | commitStart expected ops author note => exact .commitStart expected ops author note
  | rollbackStart target author => exact .rollbackStart target author
  | rollbackFound author hmem => exact .rollbackFound author (List.mem_append_left _ hmem)
  | swapping author note hdoc => exact .swapping author note hdoc.mono
  | failed edit f => exact .failed edit f
  | stored hmem hpos hrec => exact .stored (List.mem_append_left _ hmem) hpos hrec.mono

namespace Conversation

variable {expected : Int} {ops : List Operation} {record : Record} {s : Simulation}

/-- A dry run that is not given up comes to the simulation. -/
theorem dryRun_eq_ok (h : dryRun rules record expected ops = .ok s) :
    s = rules.simulate record.document record.version expected ops := by
  rw [dryRun] at h
  split at h
  · cases h
  · split at h
    · exact (Except.ok.inj h).symm
    · cases h

/-- A dry run that was not given up is refused, or its new document is copied. -/
theorem approve_of_dryRun (h : dryRun rules record expected ops = .ok s) :
    s.valid = false ∧ approve rules record expected ops = .error (refusal expected record s) ∨
      s.valid = true ∧ ∃ new, s.newDocument = some new ∧
        approve rules record expected ops =
          if (Value.obj new).fits rules.room then .ok (.obj new, s)
          else .error (.beyond .deepDocument) := by
  have happrove : approve rules record expected ops =
      if s.valid then (copied rules.room (.ofOption .obj s.newDocument)).map fun new => (new, s)
      else .error (refusal expected record s) := by
    rw [approve, h]
    dsimp only [bind, Except.bind]
    split
    · cases copied rules.room (.ofOption .obj s.newDocument) <;> rfl
    · rfl
  rw [happrove]
  cases hvalid : s.valid with
  | false => exact .inl ⟨rfl, rfl⟩
  | true =>
    obtain ⟨-, new, hnew, -⟩ := EditRules.simulate_valid (dryRun_eq_ok h ▸ hvalid)
    rw [← dryRun_eq_ok h] at hnew
    refine .inr ⟨rfl, new, hnew, ?_⟩
    rw [if_pos rfl, hnew, Value.ofOption, copied]
    split <;> rfl

/-- What is approved is the document that a valid simulation of the patch left. -/
theorem approve_eq_ok_iff {new : Value} : approve rules record expected ops = .ok (new, s) ↔
    dryRun rules record expected ops = .ok s ∧ s.valid = true ∧
      ∃ doc, s.newDocument = some doc ∧ (Value.obj doc).fits rules.room = true ∧
        new = .obj doc := by
  cases hdry : dryRun rules record expected ops with
  | error f =>
    rw [approve, hdry]
    exact ⟨nofun, nofun⟩
  | ok s' =>
    obtain ⟨hvalid, happrove⟩ | ⟨hvalid, doc, hdoc, happrove⟩ := approve_of_dryRun hdry
    · rw [happrove]
      refine ⟨nofun, fun ⟨hs, hvalid', _⟩ => ?_⟩
      rw [← Except.ok.inj hs, hvalid] at hvalid'
      cases hvalid'
    · rw [happrove]
      constructor
      · intro h
        split at h
        · cases h
          exact ⟨rfl, hvalid, doc, hdoc, ‹_›, rfl⟩
        · cases h
      · rintro ⟨hs, -, doc', hdoc', hfits, rfl⟩
        obtain rfl := Except.ok.inj hs
        obtain rfl : doc = doc' := Option.some.inj (hdoc.symm.trans hdoc')
        rw [if_pos hfits]

end Conversation

/-- A commit that has read a record swaps only what a valid simulation of its patch left. -/
theorem Phase.commitRead {record : Record} (hmem : record ∈ records) (expected : Int)
    (ops : List Operation) (author note : Option String) :
    Phase rules id records (.commit expected ops author note)
      (commitOn rules id expected ops author note (.ok record)) := by
  rw [commitOn]
  split
  · exact .failed _ _
  · rename_i new s happrove
    obtain ⟨hrun, hvalid, doc, hdoc, -, rfl⟩ := Conversation.approve_eq_ok_iff.1 happrove
    obtain rfl := Conversation.dryRun_eq_ok hrun
    obtain ⟨hexpected, doc', hdoc', happlied, hleft⟩ := EditRules.simulate_valid hvalid
    obtain rfl : doc' = doc := Option.some.inj (hdoc'.symm.trans hdoc)
    exact .swapping author note ⟨hexpected, record, hmem, rfl, happlied, hleft⟩

/-- One answer either leaves the history as it is and the edit without success, or it is that of a
swap that appends one record and ends the edit with it. -/
theorem Phase.answer {q : Question} {next : Answer q → Dialogue Answer (Except Fault Record)}
    {r : Registry} (h : Phase rules id records edit (.ask q next))
    (hkept : r.histories.get? id = some records) (hnum : Numbered records) (hne : records ≠ []) :
    ((Registry.respond q r).2.histories.get? id = some records ∧
      Phase rules id records edit (next (Registry.respond q r).1) ∧
      success? (next (Registry.respond q r).1) = none) ∨
    ∃ rec : Record, (Registry.respond q r).2.histories.get? id = some (records ++ [rec]) ∧
      rec.version = records.length + 1 ∧ next (Registry.respond q r).1 = .done (.ok rec) ∧
      Phase rules id (records ++ [rec]) edit (.done (.ok rec)) := by
  obtain ⟨latest, hlatest⟩ : ∃ latest, records.getLast? = some latest :=
    ⟨records.getLast hne, List.getLast?_eq_some_getLast hne⟩
  have hmem : latest ∈ records := List.mem_of_getLast? hlatest
  have hcurrent := Registry.current_of_kept hkept hlatest
  cases h with
  | commitStart expected ops author note =>
    refine .inl ⟨hkept, ?_, success?_commitOn _ _ _ _ _⟩
    show Phase _ _ _ _ (commitOn _ _ _ _ _ _ (r.current id))
    rw [hcurrent]
    exact .commitRead hmem expected ops author note
  | rollbackStart target author =>
    cases hread : r.version id target with
    | error f =>
      have hrespond : Registry.respond (.version id target) r = (.error f, r) := by
        rw [← hread]
        rfl
      rw [hrespond]
      exact .inl ⟨hkept, .failed _ f, rfl⟩
    | ok earlier =>
      have hrespond : Registry.respond (.version id target) r = (.ok earlier, r) := by
        rw [← hread]
        rfl
      rw [hrespond]
      -- The records are numbered by their places, so the one that was found is the target.
      obtain ⟨hpos, hget⟩ := Registry.version_of_kept hkept hread
      obtain rfl : earlier.version = target := by
        have hv := hnum _ _ hget
        omega
      exact .inl ⟨hkept, .rollbackFound author (List.mem_of_getElem? hget), rfl⟩
  | @rollbackFound author earlier hearlier =>
    have hrespond : Registry.respond (.current id) r = (.ok latest, r) := by
      rw [← hcurrent]
      rfl
    rw [hrespond]
    -- The target is no younger than the record that the swap is made for.
    have hyounger : earlier.version ≤ latest.version := by
      rw [hnum.version_last hlatest]
      exact (hnum.bounds hearlier).2
    exact .inl ⟨hkept, .swapping author _ ⟨earlier, hearlier, rfl, hyounger, rfl⟩, rfl⟩
  | @swapping _ v doc author note hdoc =>
    -- The swap goes through only while the record that was read is the newest.
    by_cases hv : v = latest.version
    · subst hv
      have hlen := hnum.version_last hlatest
      obtain ⟨rec, r', hcommit, hversion, hrec, -, -, hhist⟩ :=
        Registry.commit_of_latest hkept hlatest (by omega) doc author note
      have hrespond : Registry.respond (.commit id latest.version ⟨.obj doc, author, note⟩) r =
          (.ok rec, r') := hcommit
      rw [hrespond]
      refine .inr ⟨rec, ?_, by omega, rfl, ?_⟩
      · rw [hhist, Members.get?_set_self]
      · refine .stored (List.mem_append_right _ (List.mem_singleton_self rec)) ?_ ⟨doc, ?_, ?_⟩
        · have hbounds := hnum.bounds hmem
          omega
        · rw [hversion, Int.add_sub_cancel]
          exact hdoc.mono
        · rw [hversion]
          exact hrec
    · have hrespond : Registry.respond (.commit id v ⟨.obj doc, author, note⟩) r =
          (.error (.stale v latest.version), r) := Registry.commit_of_stale hkept hlatest hv _
      rw [hrespond]
      exact .inl ⟨hkept, .failed _ _, rfl⟩

/-! ## 4. The invariant of the traffic -/

namespace Traffic

theorem records_of_kept {w : Traffic} (h : w.registry.histories.get? id = some records) :
    w.records id = records := by
  rw [Traffic.records, h]
  rfl

theorem stored?_eq_some {w : Traffic} {i : Nat} {rec : Record} (h : w.stored? i = some rec) :
    ∃ edit, w.clients[i]? = some ⟨edit, .done (.ok rec)⟩ := by
  obtain ⟨⟨edit, rest⟩, hi, hrest⟩ := Option.bind_eq_some_iff.1 h
  cases rest with
  | ask q next => cases hrest
  | done answer =>
    cases answer with
    | error f => cases hrest
    | ok rec' =>
      cases hrest
      exact ⟨edit, hi⟩

theorem stored?_set {w : Traffic} {i : Nat} {c : Client} (hi : w.clients[i]? = some c)
    (r : Registry) (c' : Client) (j : Nat) :
    stored? ⟨r, w.clients.set i c'⟩ j = if j = i then success? c'.rest else w.stored? j := by
  have hlt : i < w.clients.length := (List.getElem?_eq_some_iff.1 hi).1
  by_cases hj : j = i
  · subst hj
    rw [if_pos rfl, stored?, List.getElem?_set_self hlt]
    rfl
  · rw [if_neg hj, stored?, List.getElem?_set_ne (Ne.symm hj)]
    rfl

/-- What holds at every moment of the traffic at a dashboard. -/
structure Sound (rules : EditRules) (id : String) (w : Traffic) : Prop where
  kept : w.registry.histories.get? id = some (w.records id)
  nonempty : w.records id ≠ []
  numbered : Numbered (w.records id)
  phases : ∀ c ∈ w.clients, Phase rules id (w.records id) c.edit c.rest
  owned : ∀ rec ∈ w.records id, 1 < rec.version → ∃! i, w.stored? i = some rec

namespace Sound

variable {w : Traffic}

/-- A record that a client has stored is in the history, and the client's edit accounts for it. -/
theorem accounts (h : Sound rules id w) {i : Nat} {rec : Record} (hi : w.stored? i = some rec) :
    rec ∈ w.records id ∧ 1 < rec.version ∧
      ∀ edit, w.edit? i = some edit → edit.AccountsFor rules.policy (w.records id) rec := by
  obtain ⟨edit, hclient⟩ := stored?_eq_some hi
  have hphase := h.phases _ (List.mem_of_getElem? hclient)
  cases hphase with
  | stored hmem hpos hrec =>
    refine ⟨hmem, hpos, fun edit' hedit => ?_⟩
    rw [edit?, hclient] at hedit
    cases hedit
    exact hrec

theorem created {r₀ r : Registry} {first : Draft} (h : r₀.create id first = (.ok (), r)) :
    Sound rules id ⟨r, []⟩ := by
  obtain ⟨doc, rec, -, hversion, -, hkept⟩ := Registry.create_eq_ok h
  have hrecords : Traffic.records ⟨r, []⟩ id = [rec] := records_of_kept hkept
  constructor
  · rw [hrecords]
    exact hkept
  · rw [hrecords]
    exact List.cons_ne_nil rec []
  · rw [hrecords]
    exact .singleton hversion
  · intro c hc
    cases hc
  · intro rec' hmem hpos
    rw [hrecords] at hmem
    obtain rfl : rec' = rec := by simpa using hmem
    omega

theorem joined (h : Sound rules id w) (edit : Edit) : Sound rules id (w.join rules id edit) := by
  have hstored : ∀ i, (w.join rules id edit).stored? i = w.stored? i := by
    intro i
    have hstart : success? (edit.conversation rules id).run = none := by
      cases edit with
      | commit expected ops author note =>
        rw [Edit.run_commit]
        rfl
      | rollback target author =>
        rw [Edit.run_rollback]
        rfl
    unfold stored? join
    rcases Nat.lt_trichotomy i w.clients.length with hlt | heq | hgt
    · rw [List.getElem?_append_left hlt]
    · subst heq
      rw [List.getElem?_append_right (Nat.le_refl _), List.getElem?_eq_none (Nat.le_refl _)]
      simpa using hstart
    · rw [List.getElem?_eq_none (by simp; omega), List.getElem?_eq_none (by omega)]
  refine ⟨h.kept, h.nonempty, h.numbered, fun c hc => ?_, fun rec hmem hpos => ?_⟩
  · rcases List.mem_append.1 hc with hc | hc
    · exact h.phases c hc
    · obtain rfl := List.mem_singleton.1 hc
      exact .start edit
  · obtain ⟨i, hi, hunique⟩ := h.owned rec hmem hpos
    exact ⟨i, (hstored i).trans hi, fun j hj => hunique j ((hstored j).symm.trans hj)⟩

/-- The history stays as it is, and nobody comes to the end of an edit with success. -/
theorem quiet (h : Sound rules id w) {w' : Traffic}
    (hkept : w'.registry.histories.get? id = some (w.records id))
    (hphases : ∀ c ∈ w'.clients, Phase rules id (w.records id) c.edit c.rest)
    (hstored : ∀ i, w'.stored? i = w.stored? i) : Sound rules id w' := by
  have hrecords := records_of_kept hkept
  constructor
  · rw [hrecords]
    exact hkept
  · rw [hrecords]
    exact h.nonempty
  · rw [hrecords]
    exact h.numbered
  · rw [hrecords]
    exact hphases
  · intro rec hmem hpos
    rw [hrecords] at hmem
    obtain ⟨i, hi, hunique⟩ := h.owned rec hmem hpos
    exact ⟨i, (hstored i).trans hi, fun j hj => hunique j ((hstored j).symm.trans hj)⟩

/-- The next version is appended, and one client comes to the end of its edit with it. -/
theorem grown (h : Sound rules id w) {w' : Traffic} {i : Nat} {rec : Record}
    (hkept : w'.registry.histories.get? id = some (w.records id ++ [rec]))
    (hversion : rec.version = (w.records id).length + 1)
    (hphases : ∀ c ∈ w'.clients, Phase rules id (w.records id ++ [rec]) c.edit c.rest)
    (hnone : w.stored? i = none)
    (hstored : ∀ j, w'.stored? j = if j = i then some rec else w.stored? j) :
    Sound rules id w' := by
  have hrecords := records_of_kept hkept
  constructor
  · rw [hrecords]
    exact hkept
  · rw [hrecords]
    exact List.append_ne_nil_of_right_ne_nil _ (List.cons_ne_nil rec [])
  · rw [hrecords]
    exact h.numbered.append hversion
  · rw [hrecords]
    exact hphases
  · intro rec' hmem hpos
    rw [hrecords] at hmem
    rcases List.mem_append.1 hmem with hold | hnew
    · -- An older record keeps its client, which is not the one that ends now.
      obtain ⟨j, hj, hunique⟩ := h.owned rec' hold hpos
      have hbounds := h.numbered.bounds hold
      have hji : j ≠ i := by
        rintro rfl
        rw [hnone] at hj
        cases hj
      refine ⟨j, by simp only [hstored, if_neg hji, hj], fun k hk => ?_⟩
      simp only [hstored] at hk
      by_cases hki : k = i
      · rw [if_pos hki] at hk
        cases hk
        omega
      · rw [if_neg hki] at hk
        exact hunique k hk
    · -- The number of the new record is beyond all that others have stored.
      obtain rfl := List.mem_singleton.1 hnew
      refine ⟨i, by simp only [hstored, if_true], fun k hk => ?_⟩
      simp only [hstored] at hk
      by_cases hki : k = i
      · exact hki
      · rw [if_neg hki] at hk
        obtain ⟨hmem', -, -⟩ := h.accounts hk
        have hbounds := h.numbered.bounds hmem'
        omega

/-- An answer to a client either leaves the history alone and ends no edit with success, or it ends
that client's edit with the one record that it appends. -/
theorem advance (h : Sound rules id w) (i : Nat) :
    Sound rules id (w.advance i) ∧
      (((w.advance i).records id = w.records id ∧
          ∀ j, (w.advance i).stored? j = w.stored? j) ∨
        ∃ rec, w.stored? i = none ∧ (w.advance i).stored? i = some rec ∧
          (w.advance i).records id = w.records id ++ [rec]) := by
  rw [Traffic.advance]
  split
  · rename_i edit q next hi
    have hnone : w.stored? i = none := by
      rw [stored?, hi]
      rfl
    have hlt : i < w.clients.length := (List.getElem?_eq_some_iff.1 hi).1
    have hphase := h.phases _ (List.mem_of_getElem? hi)
    -- What the answer means to this client says what becomes of the whole traffic.
    obtain ⟨hkept, hnext, hfail⟩ | ⟨rec, hkept, hversion, hnext, hdone⟩ :=
      hphase.answer h.kept h.numbered h.nonempty
    · have hstored : ∀ j, stored? ⟨(Registry.respond q w.registry).2,
          w.clients.set i ⟨edit, next (Registry.respond q w.registry).1⟩⟩ j = w.stored? j := by
        intro j
        rw [stored?_set hi]
        by_cases hj : j = i
        · rw [if_pos hj, hfail, hj, hnone]
        · rw [if_neg hj]
      refine ⟨h.quiet hkept (fun c hc => ?_) hstored, .inl ⟨records_of_kept hkept, hstored⟩⟩
      rcases List.mem_or_eq_of_mem_set hc with hold | rfl
      · exact h.phases c hold
      · exact hnext
    · have hstored : ∀ j, stored? ⟨(Registry.respond q w.registry).2,
          w.clients.set i ⟨edit, next (Registry.respond q w.registry).1⟩⟩ j =
            if j = i then some rec else w.stored? j := by
        intro j
        rw [stored?_set hi, hnext]
        rfl
      refine ⟨h.grown hkept hversion (fun c hc => ?_) hnone hstored,
        .inr ⟨rec, hnone, by rw [hstored, if_pos rfl], records_of_kept hkept⟩⟩
      rcases List.mem_or_eq_of_mem_set hc with hold | rfl
      · exact (h.phases c hold).mono
      · rw [hnext]
        exact hdone
  · exact ⟨h, .inl ⟨rfl, fun _ => rfl⟩⟩

theorem of_reachable {first : Draft} (h : Reachable rules id first w) : Sound rules id w := by
  induction h with
  | created h => exact .created h
  | joined edit _ ih => exact ih.joined edit
  | advanced i _ ih => exact (ih.advance i).1

end Sound

/-! ## 5. No lost update -/

/-- What the traffic at a dashboard guarantees. -/
structure NoLostUpdate (policy : Policy) (id : String) (w : Traffic) : Prop where
  /-- The versions are numbered without a gap. -/
  numbered : Numbered (w.records id)
  /-- Every version but the first was stored by exactly one edit. -/
  owned : ∀ rec ∈ w.records id, 1 < rec.version → ∃! i, w.stored? i = some rec
  /-- Every edit that succeeded stored exactly one version. -/
  owns : ∀ i rec, w.stored? i = some rec → rec ∈ w.records id ∧ 1 < rec.version ∧
    ∀ rec' ∈ w.records id, rec'.version = rec.version → rec' = rec
  /-- A commit that succeeded was made for the version before its own, and stored what its patch
  makes of that version's document, with only the number replaced. -/
  committed : ∀ i expected ops author note rec,
    w.edit? i = some (.commit expected ops author note) → w.stored? i = some rec →
      rec.version = expected + 1 ∧
        ∃ before ∈ w.records id, before.version = expected ∧ ∃ doc : Document,
          (Patch.apply (some policy) (.obj before.document) ops).applied = true ∧
          (Patch.apply (some policy) (.obj before.document) ops).document = .obj doc ∧
          rec.document = doc.stamped rec.version
  /-- A rollback that succeeded stored the document of its target, which is an earlier version, with
  only the number replaced. -/
  rolledBack : ∀ i target author rec,
    w.edit? i = some (.rollback target author) → w.stored? i = some rec →
      target < rec.version ∧ ∃ earlier ∈ w.records id, earlier.version = target ∧
        rec.document = earlier.document.stamped rec.version
  /-- A version is added by the step that ends an edit with success, and by no other step; so an
  edit that fails adds nothing. -/
  steps : ∀ i,
    ((w.advance i).records id = w.records id ∧ ∀ j, (w.advance i).stored? j = w.stored? j) ∨
      ∃ rec, w.stored? i = none ∧ (w.advance i).stored? i = some rec ∧
        (w.advance i).records id = w.records id ++ [rec]
  /-- Of the commits made for one version at most one succeeds. -/
  oneWinner : ∀ i j expected ops ops' author author' note note' rec rec',
    w.edit? i = some (.commit expected ops author note) → w.stored? i = some rec →
      w.edit? j = some (.commit expected ops' author' note') → w.stored? j = some rec' → i = j

/-- No update is lost, whatever clients commit and roll back and in whatever order their questions
are answered. -/
theorem noLostUpdate_of_reachable {first : Draft} {w : Traffic} (h : Reachable rules id first w) :
    NoLostUpdate rules.policy id w := by
  have sound := Sound.of_reachable h
  have committed : ∀ i expected ops author note rec,
      w.edit? i = some (.commit expected ops author note) → w.stored? i = some rec →
        rec.version = expected + 1 ∧
          ∃ before ∈ w.records id, before.version = expected ∧ ∃ doc : Document,
            (Patch.apply (some rules.policy) (.obj before.document) ops).applied = true ∧
            (Patch.apply (some rules.policy) (.obj before.document) ops).document = .obj doc ∧
            rec.document = doc.stamped rec.version := by
    intro i expected ops author note rec hedit hrec
    obtain ⟨-, -, haccounts⟩ := sound.accounts hrec
    obtain ⟨doc, ⟨hv, before, hmem, hbefore, happlied, hdoc⟩, hstamp⟩ := haccounts _ hedit
    exact ⟨by omega, before, hmem, by omega, doc, happlied, hdoc, hstamp⟩
  -- The gaps are the fields `owns`, `rolledBack` and `oneWinner`, in this order.
  refine ⟨sound.numbered, sound.owned, ?_, committed, ?_, fun i => (sound.advance i).2, ?_⟩
  · intro i rec hrec
    obtain ⟨hmem, hpos, -⟩ := sound.accounts hrec
    exact ⟨hmem, hpos, fun rec' hmem' hv => sound.numbered.eq_of_version_eq hmem' hmem hv⟩
  · intro i target author rec hedit hrec
    obtain ⟨-, -, haccounts⟩ := sound.accounts hrec
    obtain ⟨doc, ⟨earlier, hmem, htarget, hyounger, rfl⟩, hstamp⟩ := haccounts _ hedit
    exact ⟨by omega, earlier, hmem, htarget, hstamp⟩
  · intro i j expected ops ops' author author' note note' rec rec' hi hrec hj hrec'
    -- Both records carry the number after the expected one, so they are one record.
    obtain ⟨hmem, hpos, -⟩ := sound.accounts hrec
    obtain ⟨hmem', -, -⟩ := sound.accounts hrec'
    have hv := (committed i _ _ _ _ _ hi hrec).1
    have hv' := (committed j _ _ _ _ _ hj hrec').1
    obtain rfl := sound.numbered.eq_of_version_eq hmem hmem' (hv.trans hv'.symm)
    exact (sound.owned rec hmem hpos).unique hrec hrec'

/-- Two commits made for version 1 and a rollback to it, taken in turns on a new dashboard. -/
def threeEdits : Traffic :=
  let retitle (title : String) : Edit :=
    .commit 1 [⟨.replace, "/title", .str title, none⟩] none none
  let start : Traffic :=
    ⟨((Registry.empty ⟨0⟩).create "sales" ⟨.obj [("title", .str "Sales")], none, none⟩).2, []⟩
  let rules : EditRules := ⟨.default, 5, none⟩
  let joined := ((start.join rules "sales" (retitle "A")).join rules "sales" (retitle "B")).join
    rules "sales" (.rollback 1 none)
  [0, 1, 2, 1, 0, 2, 2].foldl (fun w i => w.advance i) joined

/-- The second commit wins the race and the first one stores nothing; the rollback comes after. -/
theorem noLostUpdate_threeEdits :
    Reachable ⟨.default, 5, none⟩ "sales" ⟨.obj [("title", .str "Sales")], none, none⟩ threeEdits ∧
      threeEdits.stored? 0 = none ∧ (threeEdits.stored? 1).map (·.version) = some 2 ∧
      (threeEdits.stored? 2).map (·.version) = some 3 ∧
      NoLostUpdate .default "sales" threeEdits := by
  have reachable : Reachable ⟨.default, 5, none⟩ "sales"
      ⟨.obj [("title", .str "Sales")], none, none⟩ threeEdits := by
    have start := @Reachable.created ⟨.default, 5, none⟩ "sales"
      ⟨.obj [("title", .str "Sales")], none, none⟩ (Registry.empty ⟨0⟩) _ rfl
    have joined := ((start.joined
      (.commit 1 [⟨.replace, "/title", .str "A", none⟩] none none)).joined
      (.commit 1 [⟨.replace, "/title", .str "B", none⟩] none none)).joined (.rollback 1 none)
    exact ((((((joined.advanced 0).advanced 1).advanced 2).advanced 1).advanced 0).advanced
      2).advanced 2
  exact ⟨reachable, rfl, rfl, rfl, noLostUpdate_of_reachable reachable⟩

end Traffic

end History

end Dashboards
