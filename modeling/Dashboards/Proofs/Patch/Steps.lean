import Dashboards.Proofs.Patch.Chain
import Dashboards.Proofs.Policy.Redaction

/-!
# The steps of an accepted patch

An operation that the policy lets through and that can be carried out is one of seven steps.  Each of
them says what is written and removed where, and which guardrails found nothing before.  What all
steps keep, a patch keeps.
-/

namespace Dashboards

namespace Patch

/-! ## 1. Attempts that come to their end -/

variable {d e v : Value} {p q : Pointer} {op : Operation}

theorem withResult_eq_done {α : Type} {r : Except Fault α} {next : α → Attempt}
    (h : withResult d r next = .done e) : ∃ a, r = .ok a ∧ next a = .done e := by
  cases r with
  | error f => cases h
  | ok a => exact ⟨a, rfl, h⟩

theorem valueAt_eq_ok (h : valueAt p d = .ok (some v)) : d.at? p.keys = some v := by
  unfold valueAt at h
  split at h
  · cases h
  · exact Except.ok.inj h

/-- The source of a move or a copy is a place that the document has. -/
theorem sourceValue_eq_ok_iff :
    sourceValue op d = .ok (q, v) ↔
      ∃ text, op.source = some text ∧ pointer text = .ok q ∧ valueAt q d = .ok (some v) := by
  constructor
  · intro h
    cases hsource : op.source with
    | none =>
      unfold sourceValue at h
      rw [hsource] at h
      cases h
    | some text =>
      rw [Operation.sourceValue_of_source hsource] at h
      cases hpointer : pointer text with
      | error f => rw [hpointer] at h; cases h
      | ok p =>
        rw [hpointer] at h
        dsimp only at h
        cases hvalue : valueAt p d with
        | error f => rw [hvalue] at h; cases h
        | ok found =>
          cases found with
          | none => rw [hvalue] at h; cases h
          | some w =>
            rw [hvalue] at h
            cases h
            exact ⟨text, rfl, hpointer, hvalue⟩
  · rintro ⟨text, hsource, hpointer, hvalue⟩
    rw [Operation.sourceValue_of_source hsource, hpointer]
    dsimp only
    rw [hvalue]

theorem sourceValue_eq_ok (h : sourceValue op d = .ok (q, v)) :
    ∃ text, op.source = some text ∧ pointer text = .ok q ∧ d.at? q.keys = some v := by
  obtain ⟨text, hsource, hpointer, hvalue⟩ := sourceValue_eq_ok_iff.1 h
  exact ⟨text, hsource, hpointer, valueAt_eq_ok hvalue⟩

theorem remove_eq_done (h : remove p d = .done e) : p.keys ≠ [] ∧ e = eraseAt d p.keys := by
  unfold remove at h
  split at h
  · cases h
  · rename_i hroot
    split at h
    · cases h
    · exact ⟨fun hnil => hroot (List.isEmpty_iff.2 hnil), (congrArg Attempt.document h).symm⟩

/-- A move to another place is a removal and an addition. -/
theorem move_eq_done (h : move p q v d = .done e) :
    (p = q ∧ e = d) ∨ ¬ p.keys <+: q.keys ∧ add q v (eraseAt d p.keys) = .done e := by
  unfold move at h
  split at h
  · exact .inl ⟨‹_›, (congrArg Attempt.document h).symm⟩
  · split at h
    · cases h
    · rename_i hinto
      right
      refine ⟨fun hpre => hinto (List.isPrefixOf_iff_prefix.2 hpre), ?_⟩
      unfold Attempt.andThen at h
      split at h
      · rename_i hfault
        have hremoved : remove p d = .done (remove p d).document := by
          rw [Attempt.done, ← hfault]
        rw [← (remove_eq_done hremoved).2]
        exact h
      · rename_i f hfault
        rw [h] at hfault
        cases hfault

theorem test_eq_done (h : test p v d = .done e) : e = d := by
  obtain ⟨found, -, h⟩ := withResult_eq_done h
  cases found with
  | none => cases h
  | some w =>
    dsimp only at h
    split at h
    · exact (congrArg Attempt.document h).symm
    · cases h

theorem ne_nil_of_not_prefix {s t : List String} (h : ¬ s <+: t) : s ≠ [] := by
  rintro rfl
  exact h List.nil_prefix

/-! ## 2. Steps -/

/-- What an operation does to a document where it can be carried out and the policy has nothing
against it.  In the names of the arguments, `t` is the place that is written and `s` the one that
something is taken from. -/
inductive Step (policy : Policy) (d : Value) : Operation → Value → Prop
  | add {path : String} {v : Value} {source : Option String} {t : List String} {e : Value}
      (target : Policy.keys? path = some t)
      (room : policy.addGuardrail path d v = none)
      (kept : policy.overwriteGuardrail path d v true = none)
      (done : Patch.add ⟨t⟩ v d = .done e) : Step policy d ⟨.add, path, v, source⟩ e
  | replace {path : String} {v : Value} {source : Option String} {t : List String} {e : Value}
      (target : Policy.keys? path = some t)
      (kept : policy.overwriteGuardrail path d v false = none)
      (done : Patch.replace ⟨t⟩ v d = .done e) : Step policy d ⟨.replace, path, v, source⟩ e
  | remove {path : String} {v : Value} {source : Option String} {t : List String}
      (target : Policy.keys? path = some t)
      (kept : policy.removeGuardrail path d = none)
      (below : t ≠ []) : Step policy d ⟨.remove, path, v, source⟩ (eraseAt d t)
  | stay {path : String} {v : Value} {source : Option String} :
      Step policy d ⟨.move, path, v, source⟩ d
  /-- A move is looked at by the guardrails only where it leaves the container it starts from. -/
  | move {path source : String} {v x : Value} {s t : List String} {e : Value}
      (origin : Policy.keys? source = some s)
      (target : Policy.keys? path = some t)
      (found : d.at? s = some x)
      (apart : ¬ s <+: t)
      (away : s.dropLast ≠ t.dropLast →
        policy.removeGuardrail source d = none ∧ policy.addGuardrail path d x = none)
      (done : Patch.add ⟨t⟩ x (eraseAt d s) = .done e) :
      Step policy d ⟨.move, path, v, some source⟩ e
  | copy {path source : String} {v x : Value} {s t : List String} {e : Value}
      (origin : Policy.keys? source = some s)
      (target : Policy.keys? path = some t)
      (found : d.at? s = some x)
      (room : policy.addGuardrail path d x = none)
      (done : Patch.add ⟨t⟩ x d = .done e) : Step policy d ⟨.copy, path, v, some source⟩ e
  | test {path : String} {v : Value} {source : Option String} :
      Step policy d ⟨.test, path, v, source⟩ d

variable {policy : Policy} {ops : List Operation}

theorem keys?_of_pointer {text : String} (h : pointer text = .ok q) :
    Policy.keys? text = some q.keys := by
  rw [Policy.keys?, Operation.parse_of_pointer h]
  rfl

theorem guardrailObjections_of_checkOperation (h : policy.checkOperation op d none = []) :
    policy.guardrailObjections op d = [] := by
  have hpaths := Policy.pathObjections_of_checkOperation h
  unfold Policy.checkOperation at h
  rw [hpaths, List.map_eq_nil_iff] at h
  exact h

theorem eq_none_of_toList {o : Option Objection} {path : String}
    (h : (o.map (·, path)).toList = []) : o = none := by
  cases o with
  | none => rfl
  | some o => cases h

/-- Every operation of an accepted patch is a step. -/
theorem step_of_checked (hcheck : policy.checkOperation op d none = []) (happly : op.apply d = .ok e) :
    Step policy d op e := by
  have hguard := guardrailObjections_of_checkOperation hcheck
  have hattempt := Operation.apply_eq_ok_iff.1 happly
  obtain ⟨verb, path, value, source⟩ := op
  unfold Operation.attempt at hattempt
  obtain ⟨target, htarget, hrun⟩ := withResult_eq_done hattempt
  have hkeys := keys?_of_pointer htarget
  unfold Policy.guardrailObjections at hguard
  cases verb with
  | add =>
    obtain ⟨hroom, hkept⟩ := List.append_eq_nil_iff.1 hguard
    exact .add hkeys (eq_none_of_toList hroom) (eq_none_of_toList hkept) hrun
  | replace =>
    obtain ⟨-, hkept⟩ := List.append_eq_nil_iff.1 hguard
    exact .replace hkeys (eq_none_of_toList hkept) hrun
  | remove =>
    obtain ⟨hbelow, rfl⟩ := remove_eq_done hrun
    exact .remove hkeys (eq_none_of_toList hguard) hbelow
  | move =>
    obtain ⟨⟨origin, x⟩, hfrom, hmove⟩ := withResult_eq_done hrun
    obtain ⟨text, rfl, horigin, hfound⟩ := sourceValue_eq_ok hfrom
    have hskeys := keys?_of_pointer horigin
    rcases move_eq_done hmove with ⟨-, rfl⟩ | ⟨hapart, hdone⟩
    · exact .stay
    · -- The guardrails were asked about both ends, unless both have one container.
      refine .move hskeys hkeys hfound hapart (fun haway => ?_) hdone
      dsimp only [Option.getD_some] at hguard
      rw [hskeys, hkeys] at hguard
      simp only [Option.map_some, Option.some.injEq, if_neg haway, Option.bind_some, hfound,
        Option.getD_some, List.append_eq_nil_iff] at hguard
      exact ⟨eq_none_of_toList hguard.1.1, eq_none_of_toList hguard.2⟩
  | copy =>
    obtain ⟨⟨origin, x⟩, hfrom, hadd⟩ := withResult_eq_done hrun
    obtain ⟨text, rfl, horigin, hfound⟩ := sourceValue_eq_ok hfrom
    have hskeys := keys?_of_pointer horigin
    dsimp only [Option.getD_some] at hguard
    rw [hskeys] at hguard
    simp only [Option.bind_some, hfound, Option.getD_some, List.append_eq_nil_iff] at hguard
    exact .copy hskeys hkeys hfound (eq_none_of_toList hguard.2) hadd
  | test =>
    obtain rfl := test_eq_done hrun
    exact .test

/-! ## 3. Whole patches -/

/-- What every step of a chain keeps, the chain keeps. -/
theorem Chain.keeps (kept : Value → Prop) (hchain : Chain policy d ops e)
    (hstep : ∀ op ∈ ops, ∀ a b, Step policy a op b → kept a → kept b) (hd : kept d) : kept e := by
  induction hchain with
  | nil d => exact hd
  | cons checked applied rest ih =>
    refine ih (fun op hop => hstep op (List.mem_cons_of_mem _ hop)) ?_
    exact hstep _ List.mem_cons_self _ _ (step_of_checked checked applied) hd

end Patch

end Dashboards
