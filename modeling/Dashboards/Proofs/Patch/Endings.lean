import Dashboards.Proofs.Patch.Inverses
import Dashboards.Proofs.Pointer.Text
import Dashboards.Proofs.Policy.Readable

/-!
# How a patch can end

A patch has three ways to end.  All its operations are carried out and the result is theirs.  Or it
stops at the first of them that cannot be carried out, or it is refused for what the policy has found:
then the document is the given one, whatever has been done to the copy.  Which way it was, can be read
off the outcomes of the operations.  There is no fourth way, except that indices with too many digits
are not read, and the patch is given up.
-/

namespace Dashboards

namespace Patch

variable {policy : Policy} {d e v w : Value} {op : Operation} {ops : List Operation} {f : Fault}
  {i n : Nat} {p : Pointer} {key : String} {keys : List String}

/-! ## 1. The operations from left to right -/

/-- The document after all operations, or the fault of the first that cannot be carried out. -/
def fold (d : Value) (ops : List Operation) : Except Fault Value :=
  ops.foldlM (fun e op => op.apply e) d

theorem fold_cons (d : Value) (op : Operation) (ops : List Operation) :
    fold d (op :: ops) = (op.apply d).bind (fold · ops) := rfl

theorem fold_of_applyAll (h : applyAll n d ops = .ok e) : fold d ops = .ok e := by
  induction ops generalizing d n with
  | nil =>
    cases h
    rfl
  | cons op ops ih =>
    rw [applyAll] at h
    rw [fold_cons]
    cases happly : op.apply d with
    | error g => rw [happly] at h; cases h
    | ok w =>
      rw [happly] at h
      exact ih h

/-- The operation at a position cannot be carried out on what the ones before it have made. -/
structure FailsAt (d : Value) (ops : List Operation) (i : Nat) (op : Operation) (f : Fault) :
    Prop where
  operation : ops[i]? = some op
  fault : ∃ e, fold d (ops.take i) = .ok e ∧ op.apply e = .error f

theorem FailsAt.lt (h : FailsAt d ops i op f) : i < ops.length :=
  (List.getElem?_eq_some_iff.1 h.operation).1

theorem FailsAt.cons {first : Operation} (hfirst : first.apply d = .ok w)
    (h : FailsAt w ops i op f) : FailsAt d (first :: ops) (i + 1) op f := by
  obtain ⟨e, hfold, hfault⟩ := h.fault
  refine ⟨h.operation, e, ?_, hfault⟩
  rw [List.take_succ_cons, fold_cons, hfirst]
  exact hfold

theorem failsAt_of_applyAll {s : Stop} (h : applyAll n d ops = .error s) :
    ∃ i op, FailsAt d ops i op s.fault ∧ s.position = n + i ∧ s.path = op.path := by
  induction ops generalizing d n with
  | nil => cases h
  | cons op ops ih =>
    rw [applyAll] at h
    cases happly : op.apply d with
    | error g =>
      rw [happly] at h
      cases h
      exact ⟨0, op, ⟨rfl, d, rfl, happly⟩, rfl, rfl⟩
    | ok w =>
      rw [happly] at h
      obtain ⟨i, op', hfails, hposition, hpath⟩ := ih h
      exact ⟨i + 1, op', hfails.cons happly, by omega, hpath⟩

/-! ## 2. Endings -/

/-- Every operation was carried out. -/
structure Completed (d : Value) (ops : List Operation) (r : Result) : Prop where
  applied : r.applied = true
  issues : r.issues = []
  statuses : r.outcomes.map (·.status) = List.replicate ops.length .applied
  document : fold d ops = .ok r.document

/-- The patch stopped at an operation that could not be carried out, and says so in its only issue. -/
structure Stopped (d : Value) (ops : List Operation) (r : Result) (i : Nat) (op : Operation)
    (f : Fault) : Prop where
  fails : FailsAt d ops i op f
  fault : f.excess? = none
  applied : r.applied = false
  document : r.document = d
  issues : r.issues = [⟨.fault f, some op.path, some i⟩]
  statuses : r.outcomes.map (·.status) =
    List.replicate i .applied ++ .failed f :: List.replicate (ops.length - (i + 1)) .skipped

/-- The policy refused the patch, for at least one reason. -/
structure Refused (policy : Option Policy) (d : Value) (ops : List Operation) (r : Result) :
    Prop where
  policy : policy.isSome = true
  applied : r.applied = false
  document : r.document = d
  issues : r.issues ≠ []
  readable : ∀ issue ∈ r.issues, issue.excess? = none
  statuses : r.outcomes.map (·.status) = List.replicate ops.length .skipped

/-- The ways in which a patch can end. -/
inductive Ending where
  | completed
  | stopped (position : Nat) (op : Operation) (fault : Fault)
  | refused

/-- What a result says of a patch that ended in one of the ways. -/
def Ending.Describes (policy : Option Policy) (d : Value) (ops : List Operation) (r : Result) :
    Ending → Prop
  | completed => Completed d ops r
  | stopped i op f => Stopped d ops r i op f
  | refused => Refused policy d ops r

variable {rules : Option Policy} {r : Result}

/-- No result describes two endings. -/
theorem Ending.eq_of_describes {a b : Ending} (ha : a.Describes rules d ops r)
    (hb : b.Describes rules d ops r) : a = b := by
  -- A patch that stopped has one outcome that is neither applied nor skipped.
  have skip : ∀ {i op f}, Stopped d ops r i op f → ¬ Refused rules d ops r := by
    intro i op f hs hr
    have hmem : Status.failed f ∈ r.outcomes.map (·.status) := by simp [hs.statuses]
    rw [hr.statuses] at hmem
    cases List.eq_of_mem_replicate hmem
  cases a with
  | completed =>
    cases b with
    | completed => rfl
    | stopped i op f => cases ha.applied.symm.trans hb.applied
    | refused => cases ha.applied.symm.trans hb.applied
  | stopped i op f =>
    cases b with
    | completed => cases ha.applied.symm.trans hb.applied
    | stopped j op' g =>
      -- The issue carries the position and the fault, and the position has the operation.
      have hissues := ha.issues.symm.trans hb.issues
      simp only [List.cons.injEq, Issue.mk.injEq, Objection.fault.injEq, Option.some.injEq,
        and_true] at hissues
      obtain ⟨rfl, -, rfl⟩ := hissues
      cases ha.fails.operation.symm.trans hb.fails.operation
      rfl
    | refused => exact absurd hb (skip ha)
  | refused =>
    cases b with
    | completed => cases ha.applied.symm.trans hb.applied
    | stopped i op f => exact absurd ha (skip hb)
    | refused => rfl

theorem excess?_eq_none_iff : r.excess? = none ↔ ∀ issue ∈ r.issues, issue.excess? = none :=
  List.findSome?_eq_none_iff

/-- A patch that came to an end was not given up. -/
theorem Ending.Describes.excess? {a : Ending} (h : a.Describes rules d ops r) : r.excess? = none := by
  rw [excess?_eq_none_iff]
  cases a with
  | completed =>
    rw [Completed.issues h]
    exact nofun
  | stopped i op f =>
    rw [Stopped.issues h]
    intro issue hissue
    rw [List.mem_singleton.1 hissue]
    exact Stopped.fault h
  | refused => exact Refused.readable h

/-! ## 3. Results -/

theorem statuses_outcomes (ops : List Operation) (status : Nat → Status) :
    (outcomes ops status).map (·.status) = (List.range ops.length).map status := by
  rw [outcomes, List.map_map, List.range_eq_range', ← List.zipIdx_map_snd 0 ops, List.map_map]
  rfl

/-- An outcome names its operation by position, verb and path. -/
def Outcome.tally (o : Outcome) : Nat × Verb × String := (o.position, o.verb, o.path)

theorem tally_outcomes (ops : List Operation) (status : Nat → Status) :
    (outcomes ops status).map Outcome.tally = ops.zipIdx.map fun (op, i) => (i, op.verb, op.path) := by
  rw [outcomes, List.map_map]
  rfl

theorem statuses_const (ops : List Operation) (status : Status) :
    (outcomes ops fun _ => status).map (·.status) = List.replicate ops.length status := by
  rw [statuses_outcomes]
  simp

/-- The values of a function that changes at one place, in a row. -/
theorem map_range_eq_append {α : Type} (a b c : α) (h : i < n) :
    ((List.range n).map fun j => if j < i then a else if j = i then b else c) =
      List.replicate i a ++ b :: List.replicate (n - (i + 1)) c := by
  apply List.ext_getElem
  · simp
    omega
  · intro j hj _
    simp only [List.getElem_map, List.getElem_range, List.getElem_append, List.length_replicate,
      List.getElem_replicate, List.getElem_cons]
    split_ifs <;> first | rfl | omega

theorem describes_stopped (h : FailsAt d ops i op f) (hf : f.excess? = none) :
    (Ending.stopped i op f).Describes rules d ops (stopped d ops ⟨i, op.path, f⟩) where
  fails := h
  fault := hf
  applied := rfl
  document := rfl
  issues := rfl
  statuses := by
    rw [stopped, statuses_outcomes]
    exact map_range_eq_append _ _ _ h.lt

theorem describes_rejected {issues : List Issue} (hne : issues ≠ [])
    (h : (rejected d ops issues).excess? = none) :
    Ending.refused.Describes (some policy) d ops (rejected d ops issues) where
  policy := rfl
  applied := rfl
  document := rfl
  issues := hne
  readable := excess?_eq_none_iff.1 h
  statuses := statuses_const ops .skipped

/-- Without a policy a patch is carried out or stops. -/
theorem exists_ending_of_applyFreely (h : (applyFreely d ops).excess? = none) :
    ∃ a : Ending, a.Describes rules d ops (applyFreely d ops) := by
  unfold applyFreely at h ⊢
  cases hall : applyAll 0 d ops with
  | ok e => exact ⟨.completed, rfl, rfl, statuses_const ops .applied, fold_of_applyAll hall⟩
  | error s =>
    rw [hall] at h
    obtain ⟨i, op, hfails, hposition, hpath⟩ := failsAt_of_applyAll hall
    -- The positions are counted from the first operation, so the stop is at the failing one.
    have hs : s = ⟨i, op.path, s.fault⟩ := by
      cases s
      simp_all
    have hfault : s.fault.excess? = none := excess?_eq_none_iff.1 h _ (List.mem_singleton_self _)
    refine ⟨.stopped i op s.fault, ?_⟩
    rw [hs]
    exact describes_stopped hfails hfault

/-- Under a policy the result is the same, or the patch is refused for what was found before it or
behind it. -/
theorem apply_eq (rules : Option Policy) (d : Value) (ops : List Operation) :
    apply rules d ops = applyFreely d ops ∨
      ∃ policy issues, rules = some policy ∧ issues ≠ [] ∧
        (issues = policy.checkInTurn 0 d ops ∨
          issues = policy.checkDocuments d (applyFreely d ops).document) ∧
        apply rules d ops = rejected d ops issues := by
  cases rules with
  | none => exact .inl rfl
  | some policy =>
    rw [apply, applyUnder]
    cases hcheck : policy.checkInTurn 0 d ops with
    | cons issue issues =>
      exact .inr ⟨policy, _, rfl, List.cons_ne_nil _ _, .inl hcheck.symm, rfl⟩
    | nil =>
      dsimp only
      -- The documents are compared only where the patch went through.
      by_cases happlied : (applyFreely d ops).applied = true
      · rw [if_pos happlied]
        cases hdocs : policy.checkDocuments d (applyFreely d ops).document with
        | cons issue issues =>
          exact .inr ⟨policy, _, rfl, List.cons_ne_nil _ _, .inr hdocs.symm, rfl⟩
        | nil => exact .inl rfl
      · rw [if_neg happlied]
        exact .inl rfl

theorem exists_ending_of_apply (h : (apply rules d ops).excess? = none) :
    ∃ a : Ending, a.Describes rules d ops (apply rules d ops) := by
  obtain heq | ⟨policy, issues, rfl, hne, -, heq⟩ := apply_eq rules d ops
  · rw [heq] at h ⊢
    exact exists_ending_of_applyFreely h
  · rw [heq] at h ⊢
    exact ⟨.refused, describes_rejected hne h⟩

/-! ## 4. Reports -/

theorem tally_apply (rules : Option Policy) (d : Value) (ops : List Operation) :
    (apply rules d ops).outcomes.map Outcome.tally =
      ops.zipIdx.map fun (op, i) => (i, op.verb, op.path) := by
  obtain heq | ⟨-, issues, -, -, -, heq⟩ := apply_eq rules d ops
  · rw [heq, applyFreely]
    split
    · exact tally_outcomes ops fun _ => .applied
    · rw [stopped, tally_outcomes]
  · rw [heq, rejected, tally_outcomes]

/-- No pointer of the operations or of the blocked sections has an index with too many digits. -/
structure ReadablePatch (rules : Option Policy) (ops : List Operation) : Prop where
  names : ∀ op ∈ ops, ∀ q, op.Names q → ReadableKeys q.keys
  blocked : ∀ policy ∈ rules, ∀ p ∈ policy.blocked, ReadableKeys p.keys

theorem excess?_applyFreely (hnames : ∀ op ∈ ops, ∀ q, op.Names q → ReadableKeys q.keys) :
    (applyFreely d ops).excess? = none := by
  unfold applyFreely
  cases hall : applyAll 0 d ops with
  | ok e => rfl
  | error s =>
    obtain ⟨i, op, hfails, -, -⟩ := failsAt_of_applyAll hall
    obtain ⟨e, -, hfault⟩ := hfails.fault
    have hop : op ∈ ops := List.mem_of_getElem? hfails.operation
    rw [excess?_eq_none_iff]
    intro issue hissue
    rw [List.mem_singleton.1 hissue]
    exact excess?_of_attempt (hnames op hop) (Operation.apply_eq_error_iff.1 hfault)

theorem excess?_apply (h : ReadablePatch rules ops) : (apply rules d ops).excess? = none := by
  obtain heq | ⟨policy, issues, hrules, -, hissues, heq⟩ := apply_eq rules d ops
  · rw [heq]
    exact excess?_applyFreely h.names
  · rw [heq, excess?_eq_none_iff]
    obtain rfl | rfl := hissues
    · exact fun _ => Policy.excess?_of_mem_checkInTurn h.names
    · exact fun _ => Policy.excess?_of_mem_checkDocuments (h.blocked policy hrules)

/-- A patch reports one outcome for each of its operations, in their order.  It has one of the
endings and no other, unless it is given up at an index with too many digits, and where there is no
such index, it is not given up. -/
theorem report_of_apply (rules : Option Policy) (d : Value) (ops : List Operation) :
    (apply rules d ops).outcomes.map Outcome.tally =
        ops.zipIdx.map (fun (op, i) => (i, op.verb, op.path)) ∧
      ((∃! a : Ending, a.Describes rules d ops (apply rules d ops)) ↔
        (apply rules d ops).excess? = none) ∧
      (ReadablePatch rules ops → (apply rules d ops).excess? = none) := by
  refine ⟨tally_apply rules d ops, ⟨fun ⟨a, ha, _⟩ => ha.excess?, fun h => ?_⟩, excess?_apply⟩
  obtain ⟨a, ha⟩ := exists_ending_of_apply h
  exact ⟨a, ha, fun b hb => Ending.eq_of_describes hb ha⟩

/-- The second of three operations wants to replace a chart that is not there. -/
theorem report_of_apply_stopping :
    let ops : List Operation := [⟨.replace, "/title", .str "Leads", none⟩,
      ⟨.replace, "/charts/7", .str "bar", none⟩, ⟨.remove, "/title", .null, none⟩]
    ReadablePatch none ops ∧
      ∃ i op f, Stopped (charted []) ops (apply none (charted []) ops) i op f := by
  intro ops
  have htitle : Pointer.parse "/title" = .ok ⟨["title"]⟩ := by decide +kernel
  have hchart : Pointer.parse "/charts/7" = .ok ⟨["charts", "7"]⟩ := by decide +kernel
  have hread : ReadablePatch none ops := by
    refine ⟨fun op hop q hnames => ?_, nofun⟩
    obtain ⟨text, htext, hq⟩ := hnames
    simp only [ops, List.mem_cons, List.not_mem_nil, or_false] at hop
    obtain rfl | rfl | rfl := hop
    · obtain rfl := List.mem_singleton.1 htext
      cases htitle.symm.trans hq
      decide
    · obtain rfl := List.mem_singleton.1 htext
      cases hchart.symm.trans hq
      decide
    · obtain rfl := List.mem_singleton.1 htext
      cases htitle.symm.trans hq
      decide
  have hreport := report_of_apply none (charted []) ops
  obtain ⟨a, ha, -⟩ := hreport.2.1.2 (hreport.2.2 hread)
  refine ⟨hread, ?_⟩
  cases a with
  | completed =>
    have happlied : (apply none (charted []) ops).applied = false := by decide +kernel
    exact absurd ha.applied (by simp [happlied])
  | stopped i op f => exact ⟨i, op, f, ha⟩
  | refused => cases ha.policy

/-- An addition at an index with too many digits fails without a fault of its own. -/
theorem fault_of_overlong {ms : Members Value} (hms : ms.get? "charts" = some (.arr []))
    (h : 10 ^ Excess.digitLimit ≤ n) :
    ∃ digits, (Operation.attempt ⟨.add, (Pointer.mk ["charts", toString n]).text, v, none⟩
      (.obj ms)).fault = some (.overlongIndex digits) := by
  obtain ⟨digits, hdigits⟩ := Option.isSome_iff_exists.1 (isSome_overlongIndex?_toString h)
  have hkey : toString n ≠ appendKey := by
    intro hkey
    rw [hkey] at hdigits
    cases hdigits
  have hpointer : pointer (Pointer.mk ["charts", toString n]).text =
      .ok ⟨["charts", toString n]⟩ := by
    rw [pointer, Pointer.parse_text (by simp)]
    rfl
  have hinsert : ∀ p, insertInto p v (toString n) (.arr []) = .error (.overlongIndex digits) := by
    intro p
    rw [insertInto, if_neg hkey, indexIn, hdigits]
  refine ⟨digits, ?_⟩
  rw [Operation.attempt, hpointer]
  show (descend (insertInto _ v) _ (.obj ms) ["charts", toString n]).fault = _
  rw [descend, hms]
  show (descend (insertInto _ v) _ (.arr []) [toString n]).fault = _
  rw [descend, hinsert]

/-- A patch of one operation is given up where the operation is. -/
theorem excess?_apply_singleton (h : op.apply d = .error f) :
    (apply none d [op]).excess? = f.excess? := by
  rw [apply, applyFreely, applyAll, h]
  show List.findSome? Issue.excess? [⟨.fault f, some op.path, some 0⟩] = f.excess?
  rw [List.findSome?_singleton]
  rfl

theorem not_describes_of_overlong (h : 10 ^ Excess.digitLimit ≤ n) (a : Ending) :
    let ops : List Operation := [⟨.add, (Pointer.mk ["charts", toString n]).text, v, none⟩]
    ¬ a.Describes none (charted []) ops (apply none (charted []) ops) := by
  intro ops ha
  obtain ⟨digits, hfault⟩ : ∃ digits, (Operation.attempt
      ⟨.add, (Pointer.mk ["charts", toString n]).text, v, none⟩ (charted [])).fault =
        some (.overlongIndex digits) := fault_of_overlong rfl h
  have hexcess := excess?_apply_singleton (Operation.apply_eq_error_iff.2 hfault)
  rw [ha.excess?] at hexcess
  cases hexcess

/-- A patch with an index of too many digits has no ending: it is given up. -/
theorem no_ending_of_overlong :
    let far := (Pointer.mk ["charts", toString (10 ^ Excess.digitLimit)]).text
    let ops : List Operation := [⟨.add, far, .str "bar", none⟩]
    ∀ a : Ending, ¬ a.Describes none (charted []) ops (apply none (charted []) ops) :=
  not_describes_of_overlong (Nat.le_refl _)

end Patch

end Dashboards
