import Dashboards.Proofs.History.Ledger
import Dashboards.Proofs.Patch.Chain
import Dashboards.Proofs.Policy.Documents

/-!
# Guardrails over a whole history

What the comparison of two documents keeps over one commit is kept over the whole history of a
dashboard.  A commit keeps it because the comparison found nothing, and a rollback because it was kept
up to its target; neither is disturbed by the number that goes into a document when it is stored.
-/

namespace Dashboards

/-! ## 1. The number of a version -/

section Stamped

variable {doc : Document} {v : Int} {k : String} {ks : List String}

theorem Document.at?_stamped (h : k ≠ "version") :
    (Value.obj (doc.stamped v)).at? (k :: ks) = (Value.obj doc).at? (k :: ks) := by
  show (Members.get? (Members.set doc _ _) k).bind _ = (Members.get? doc k).bind _
  rw [Members.get?_set_of_ne _ _ h]

theorem Document.overlongAt?_stamped (h : k ≠ "version") :
    (Value.obj (doc.stamped v)).overlongAt? (k :: ks) = (Value.obj doc).overlongAt? (k :: ks) := by
  show (Members.get? (Members.set doc _ _) k).bind _ = (Members.get? doc k).bind _
  rw [Members.get?_set_of_ne _ _ h]

theorem Collection.at?_stamped (c : Collection) :
    (Value.obj (doc.stamped v)).at? c.keys = (Value.obj doc).at? c.keys := by
  cases c <;> exact Document.at?_stamped (by decide)

theorem Collection.lengthIn_stamped (c : Collection) :
    c.lengthIn (.obj (doc.stamped v)) = c.lengthIn (.obj doc) := by
  unfold Collection.lengthIn Collection.itemsIn
  rw [c.at?_stamped]

theorem tabNames_stamped : tabNames (.obj (doc.stamped v)) = tabNames (.obj doc) := by
  unfold tabNames
  rw [Collection.at?_stamped, Collection.at?_stamped]

/-- Storing a document under a new number undoes nothing of what was kept. -/
theorem Policy.Keeps.stamped {policy : Policy} {a : Value} (h : policy.Keeps a (.obj doc)) :
    policy.Keeps a (.obj (doc.stamped v)) := by
  refine ⟨fun c => ?_, fun name hname hprotected => ?_, fun p hp hroot hversion => ?_⟩
  · rw [c.lengthIn_stamped]
    exact h.lengths c
  · rw [tabNames_stamped]
    exact h.tabs name hname hprotected
  · obtain ⟨hindex, hsame⟩ := h.sections p hp hroot hversion
    obtain ⟨keys⟩ := p
    cases keys with
    | nil => cases hroot
    | cons k ks =>
      have hk : k ≠ "version" := by
        rintro rfl
        simp [Pointer.startsWith] at hversion
      unfold Value.sameAt Value.resolve? at hsame ⊢
      rw [Document.overlongAt?_stamped hk, Document.at?_stamped hk]
      exact ⟨hindex, hsame⟩

end Stamped

namespace History

variable {rules : EditRules} {id : String} {first : Draft} {doc : Document}

/-! ## 2. Any traffic -/

namespace Traffic

/-- The first record is never replaced. -/
theorem first_of_reachable {w : Traffic} (h : Reachable rules id first w)
    (hdoc : first.document = .obj doc) :
    ∃ rec, (w.records id)[0]? = some rec ∧ rec.document = doc.stamped 1 := by
  induction h with
  | created h =>
    obtain ⟨doc', rec, hdoc', -, hrec, hkept⟩ := Registry.create_eq_ok h
    obtain rfl : doc = doc' := Value.obj.inj (hdoc.symm.trans hdoc')
    exact ⟨rec, by rw [records_of_kept hkept]; rfl, hrec⟩
  | joined edit _ ih => exact ih
  | advanced i h ih =>
    obtain ⟨rec, hget, hrec⟩ := ih
    refine ⟨rec, ?_, hrec⟩
    obtain ⟨hsame, -⟩ | ⟨new, -, -, hgrown⟩ := ((Sound.of_reachable h).advance i).2
    · rw [hsame]
      exact hget
    · rw [hgrown, List.getElem?_append_left (List.getElem?_eq_some_iff.1 hget).1]
      exact hget

/-- An edit that accounts for a record keeps what was kept up to every older one. -/
theorem keeps_of_accountsFor {policy : Policy} {records : List Record} {rec : Record} {edit : Edit}
    {a : Value} (h : edit.AccountsFor policy records rec)
    (holder : ∀ old ∈ records, old.version < rec.version → policy.Keeps a (.obj old.document)) :
    policy.Keeps a (.obj rec.document) := by
  obtain ⟨new, hnew, hrec⟩ := h
  rw [hrec]
  refine Policy.Keeps.stamped ?_
  cases edit with
  | commit expected ops author note =>
    obtain ⟨-, before, hmem, hbefore, happlied, hdocument⟩ := hnew
    have hcheck := (Patch.applyUnder_iff.1 ⟨happlied, hdocument⟩).2
    exact (holder before hmem (by omega)).trans (.of_checkDocuments hcheck)
  | rollback target author =>
    obtain ⟨earlier, hmem, htarget, hyounger, rfl⟩ := hnew
    exact holder earlier hmem (by omega)

/-- In every state of the traffic, every version keeps what the policy guards in the document that
the dashboard was created with. -/
theorem keeps_of_reachable {w : Traffic} (h : Reachable rules id first w)
    (hdoc : first.document = .obj doc)
    (hfinite : (Value.obj doc).Orderly fun n => n.isFinite = true) :
    ∀ rec ∈ w.records id, rules.policy.Keeps (.obj doc) (.obj rec.document) := by
  have sound := Sound.of_reachable h
  -- The induction is on the number of the version; all that an edit builds on is older.
  suffices hall : ∀ (n : Nat) (rec : Record), rec ∈ w.records id → rec.version = n →
      rules.policy.Keeps (.obj doc) (.obj rec.document) by
    intro rec hmem
    have hbounds := sound.numbered.bounds hmem
    exact hall rec.version.toNat rec hmem (by omega)
  intro n
  induction n using Nat.strongRecOn with
  | _ n ih =>
    intro rec hmem hversion
    have hbounds := sound.numbered.bounds hmem
    -- A later version has an author; the first one is the document that was given, with its number.
    by_cases hpos : 1 < rec.version
    · obtain ⟨i, hi, -⟩ := sound.owned rec hmem hpos
      obtain ⟨edit, hclient⟩ := stored?_eq_some hi
      have hedit : w.edit? i = some edit := by
        rw [edit?, hclient]
        rfl
      refine keeps_of_accountsFor ((sound.accounts hi).2.2 edit hedit) fun old hold hlt => ?_
      have hbounds' := sound.numbered.bounds hold
      exact ih old.version.toNat (by omega) old hold (by omega)
    · obtain ⟨rec', hget, hdocument⟩ := first_of_reachable h hdoc
      have hversion' := sound.numbered 0 rec' hget
      obtain rfl : rec = rec' := sound.numbered.eq_of_version_eq hmem (List.mem_of_getElem? hget)
        (by omega)
      rw [hdocument]
      refine Policy.Keeps.stamped (.refl (hfinite.mono fun m hm => ?_))
      exact .inl (Number.same_refl (Number.isNaN_of_isFinite hm))

end Traffic

/-! ## 3. One edit after the other -/

namespace Registry

/-- Carries out edits of a dashboard one after the other, whether they succeed or not. -/
def perform (rules : EditRules) (id : String) (edits : List Edit) (r : Registry) : Registry :=
  edits.foldl (fun r edit => (r.converse (edit.conversation rules id)).2) r

end Registry

namespace Traffic

/-- A client whose questions are answered in a row is done with its conversation. -/
theorem Reachable.finish {w : Traffic} (h : Reachable rules id first w) {i : Nat} {edit : Edit}
    {rest : Dialogue Answer (Except Fault Record)} (hi : w.clients[i]? = some ⟨edit, rest⟩) :
    ∃ w', Reachable rules id first w' ∧
      w'.registry = (Dialogue.run Registry.respond rest w.registry).2 := by
  induction rest generalizing w with
  | done a => exact ⟨w, h, rfl⟩
  | ask q next ih =>
    have hlt : i < w.clients.length := (List.getElem?_eq_some_iff.1 hi).1
    have hadvance : w.advance i = ⟨(Registry.respond q w.registry).2,
        w.clients.set i ⟨edit, next (Registry.respond q w.registry).1⟩⟩ := by
      rw [Traffic.advance, hi]
    have hnext : (w.advance i).clients[i]? =
        some ⟨edit, next (Registry.respond q w.registry).1⟩ := by
      rw [hadvance]
      exact List.getElem?_set_self hlt
    obtain ⟨w', hreach, hregistry⟩ := ih _ (h.advanced i) hnext
    rw [hadvance] at hregistry
    exact ⟨w', hreach, hregistry⟩

/-- Edits that are carried out one after the other are a special case of traffic. -/
theorem Reachable.perform {w : Traffic} (h : Reachable rules id first w) (edits : List Edit) :
    ∃ w', Reachable rules id first w' ∧ w'.registry = w.registry.perform rules id edits := by
  induction edits generalizing w with
  | nil => exact ⟨w, h, rfl⟩
  | cons edit edits ih =>
    have hlast : (w.join rules id edit).clients[w.clients.length]? =
        some ⟨edit, (edit.conversation rules id).run⟩ := List.getElem?_concat_length
    obtain ⟨w₁, hreach, hregistry⟩ := (h.joined edit).finish hlast
    obtain ⟨w₂, hreach', hregistry'⟩ := ih hreach
    refine ⟨w₂, hreach', ?_⟩
    rw [hregistry', hregistry]
    rfl

end Traffic

namespace Registry

/-- However a dashboard is edited after it was created, every version of it keeps what the policy
guards in its first document.  The numbers of the first document are finite, and it has each key of
an object once, as every document that is read has. -/
theorem guardrails_of_perform {r₀ r : Registry} (hcreate : r₀.create id first = (.ok (), r))
    (hdoc : first.document = .obj doc)
    (hfinite : (Value.obj doc).Orderly fun n => n.isFinite = true) (edits : List Edit) (n : Int)
    (rec : Record) (hrec : (r.perform rules id edits).version id n = .ok rec) :
    rules.policy.Keeps (.obj doc) (.obj rec.document) := by
  have start : Traffic.Reachable rules id first ⟨r, []⟩ := .created hcreate
  obtain ⟨w, hreach, hregistry⟩ := start.perform edits
  have hkept := (Traffic.Sound.of_reachable hreach).kept
  rw [hregistry] at hkept
  obtain ⟨-, hget⟩ := version_of_kept hkept hrec
  exact Traffic.keeps_of_reachable hreach hdoc hfinite rec (List.mem_of_getElem? hget)

/-- A dashboard of one tenant with a protected tab. -/
def tenantDashboard : Document :=
  [("title", .str "Sales"), ("tenant_id", .ofInt 7), ("tabs", .ofStrings ["Details", "More"])]

/-- A new title, an attempt to remove the protected tab, and the way back to the first version. -/
def threeCalls : List Edit :=
  [.commit 1 [⟨.replace, "/title", .str "Sales 2", none⟩] none none,
    .commit 2 [⟨.remove, "/tabs/0", .null, none⟩] none none, .rollback 1 none]

theorem orderly_tenantDashboard :
    (Value.obj tenantDashboard).Orderly fun n => n.isFinite = true := by
  rw [Value.orderly_obj_iff]
  refine ⟨by decide, fun m hm => ?_⟩
  simp only [tenantDashboard, List.mem_cons, List.not_mem_nil, or_false] at hm
  rcases hm with rfl | rfl | rfl
  · trivial
  · rfl
  · rw [Value.ofStrings, Value.orderly_arr_iff]
    intro x hx
    obtain ⟨s, -, rfl⟩ := List.mem_map.1 hx
    trivial

/-- The second of the three calls is refused, so the rollback stores version 3. -/
theorem guardrails_threeCalls :
    ∃ r, (Registry.empty ⟨0⟩).create "sales" ⟨.obj tenantDashboard, none, none⟩ = (.ok (), r) ∧
      (Value.obj tenantDashboard).Orderly (fun n => n.isFinite = true) ∧
      (r.perform ⟨.default, 5, none⟩ "sales" threeCalls).version "sales" 3 =
        .ok ⟨3, tenantDashboard.stamped 3, "1970-01-01T00:00:02+00:00", none,
          some "Rollback to version 1"⟩ ∧
      Policy.default.Keeps (.obj tenantDashboard) (.obj (tenantDashboard.stamped 3)) := by
  have third : ((((Registry.empty ⟨0⟩).create "sales" ⟨.obj tenantDashboard, none, none⟩).2).perform
      ⟨.default, 5, none⟩ "sales" threeCalls).version "sales" 3 =
        .ok ⟨3, tenantDashboard.stamped 3, "1970-01-01T00:00:02+00:00", none,
          some "Rollback to version 1"⟩ := rfl
  exact ⟨_, rfl, orderly_tenantDashboard, third,
    @guardrails_of_perform ⟨.default, 5, none⟩ "sales" ⟨.obj tenantDashboard, none, none⟩ tenantDashboard
      (Registry.empty ⟨0⟩) _ rfl rfl orderly_tenantDashboard threeCalls 3 _ third⟩

end Registry

end History

end Dashboards
