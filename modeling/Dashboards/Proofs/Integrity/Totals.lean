import Dashboards.Proofs.Integrity.Range
import Dashboards.Proofs.Metrics.Finite

/-!
# Totals against the metrics of their own rows

The metrics of a period, checked against the rows they were calculated from.  A column that is
compared is one that was summed, and nothing was entered over its total: only the names of costs are
overwritten, and these are left out.  So a total is compared with itself, and it differs from itself
only if it is not finite.
-/

namespace Dashboards

namespace Integrity

open Number

/-! ## 1. Lists of names -/

theorem mem_distinct {x : String} {xs : List String} : x ∈ distinct xs ↔ x ∈ xs := by
  have hfold : ∀ (xs seen : List String),
      x ∈ xs.foldl (fun seen x => if seen.contains x then seen else seen ++ [x]) seen ↔
        x ∈ seen ∨ x ∈ xs := by
    intro xs
    induction xs with
    | nil => simp
    | cons y ys ih =>
      intro seen
      rw [List.foldl_cons, ih]
      split
      · -- A text that was seen before adds nothing.
        rename_i hseen
        have hy : y ∈ seen := List.contains_iff_mem.1 hseen
        constructor
        · exact fun h => h.imp_right (List.mem_cons_of_mem _)
        · rintro (hx | hx)
          · exact .inl hx
          · rcases List.mem_cons.1 hx with rfl | hx
            · exact .inl hy
            · exact .inr hx
      · simp [or_assoc]
  rw [distinct, hfold]
  simp

/-- The metrics of the given names as they were supplied. -/
def suppliedOf (metrics : Record) (columns : List String) : Record :=
  columns.map fun c => (c, (metrics.get? c).getD .null)

theorem keys_suppliedOf (metrics : Record) (columns : List String) :
    (suppliedOf metrics columns).keys = columns := by
  simp [suppliedOf, Members.keys, Function.comp_def]

theorem get?_suppliedOf {metrics : Record} {columns : List String} {name : String}
    (h : name ∈ columns) :
    (suppliedOf metrics columns).get? name = some ((metrics.get? name).getD .null) := by
  induction columns with
  | nil => cases h
  | cons first columns ih =>
    rw [suppliedOf, List.map_cons, Members.get?]
    split
    · rename_i heq
      rw [heq]
    · rename_i hne
      exact ih ((List.mem_cons.1 h).resolve_left fun heq => hne heq.symm)

/-- What is found where metrics differ. -/
def findingsOf : List Discrepancy → List Finding
  | [] => []
  | ds => [.differentTotals ds]

/-- The names that findings give. -/
def named (findings : List Finding) : List String := findings.flatMap fun f => f.fields?.getD []

theorem named_findingsOf (ds : List Discrepancy) : named (findingsOf ds) = ds.map (·.field) := by
  cases ds with
  | nil => rfl
  | cons d ds => simp [findingsOf, named, Finding.fields?]

/-! ## 2. A number against itself -/

variable {tolerance : Number} {x : Float}

theorem finiteNumber?_float (x : Float) :
    finiteNumber? (.num (.float x)) = .ok (if x.isFinite then some (.float x) else none) := by
  have hfinite : (float x).hasFiniteFloat = .ok x.isFinite := rfl
  rw [finiteNumber?, hfinite]
  cases x.isFinite <;> rfl

/-- A finite float does not differ from itself, whatever is tolerated. -/
theorem difference_self (htolerance : tolerance.lt (.int 0) = false) (h : x.isFinite = true) :
    difference tolerance (.float x) (.float x) = .ok none := by
  have hapart : (float x).sub (.float x) = .ok (.float 0.0) := by
    show Except.ok (float (x - x)) = _
    rw [Number.sub_self h]
  have hzero : magnitude (.float 0.0) = .float 0.0 := by decide
  -- Zero is divided by one, or by the magnitude of the float if that is larger.
  have hrelative : ∃ r, (float 0.0).div
      (larger (larger (float x).magnitude (float x).magnitude) (.int 1)) = .ok r ∧
        r.exact = .finite 0 := by
    have hsame : larger (float x).magnitude (float x).magnitude = .float x.abs := ite_self _
    rw [hsame]
    obtain hone | ⟨y, hy, hnonzero⟩ := larger_one (n := .float x.abs) (.inl ⟨_, rfl⟩)
    · rw [hone]
      exact ⟨_, float_div_one 0.0, by decide⟩
    · have habs : y = x.abs := by
        rw [larger] at hy
        split at hy
        · cases hy
        · exact (Number.float.inj hy).symm
      rw [same_zero] at hnonzero
      rw [hy]
      exact ⟨_, div_eq_ok (.inl ⟨0.0, rfl⟩) rfl rfl (hnonzero ▸ Bool.false_ne_true),
        exact_zero_div (habs ▸ isNaN_abs h) hnonzero⟩
  obtain ⟨r, hr, hexact⟩ := hrelative
  have hwithin : tolerance.lt r = false := by
    rw [Number.lt, hexact]
    exact htolerance
  rw [difference, hapart]
  show ((magnitude (.float 0.0)).div _ >>= _) = _
  rw [hzero, hr]
  show Except.ok (if tolerance.lt r = true then _ else _) = _
  rw [hwithin]
  rfl

/-- What is reported of a number that is not finite, on both sides. -/
def unmeasured (field : String) (n : Number) : Discrepancy :=
  ⟨field, .str (Value.num n).plain, .str (Value.num n).plain, none⟩

/-- A float is reported to differ from itself exactly if it is not finite. -/
theorem discrepancy?_self (htolerance : tolerance.lt (.int 0) = false) (field : String) (x : Float) :
    discrepancy? tolerance field (.num (.float x)) (.num (.float x)) =
      .ok (if x.isFinite then none else some (unmeasured field (.float x))) := by
  rw [discrepancy?, finiteNumber?_float]
  cases hfinite : x.isFinite with
  | false => rfl
  | true =>
    show ((difference tolerance (.float x) (.float x)).map _) = _
    rw [difference_self htolerance hfinite]
    rfl

/-! ## 3. The metrics of the rows -/

variable {rows : List Record} {ms : Members Number}

/-- A column that is compared was summed, and is not named as a cost. -/
theorem of_mem_comparedColumns {metrics : Record} {c : String}
    (h : c ∈ comparedColumns rows metrics) :
    c ∈ additiveColumns (rows.map Row.ofMembers) ∧ c ≠ "cpl" ∧ c ≠ "cac" := by
  obtain ⟨hnumeric, hcompared⟩ := List.mem_filter.1 h
  simp only [Bool.and_eq_true, Bool.not_eq_true'] at hcompared
  obtain ⟨⟨-, hrate⟩, hderived⟩ := hcompared
  refine ⟨List.mem_filter.2 ⟨hnumeric, by rw [hrate]; rfl⟩, ?_, ?_⟩
  · rintro rfl
    exact absurd hderived (by decide)
  · rintro rfl
    exact absurd hderived (by decide)

/-- The total of a column that is compared is the metric of its name, and a float. -/
theorem total_eq_metric (h : aggregate (rows.map Row.ofMembers) = .ok ms) {metrics : Record}
    {c : String} (hc : c ∈ comparedColumns rows metrics) :
    ∃ x, Number.total (columnCells (rows.map Row.ofMembers) c) = .ok (.float x) ∧
      ms.get? c = some (.float x) := by
  obtain ⟨hadditive, hname⟩ := of_mem_comparedColumns hc
  obtain ⟨n, htotal, hget⟩ := get?_column h hadditive hname
  obtain ⟨x, rfl⟩ := isFloat_of_total htotal
  exact ⟨x, htotal, hget⟩

/-- The totals are recomputed, and they are the metrics. -/
theorem sumColumns_compared (h : aggregate (rows.map Row.ofMembers) = .ok ms) (metrics : Record) :
    ∃ totals, sumColumns (rows.map Row.ofMembers) (comparedColumns rows metrics) = .ok totals ∧
      (∀ c ∈ comparedColumns rows metrics, ∃ x,
        totals.get? c = some (.float x) ∧ ms.get? c = some (.float x)) ∧
      ∀ c ∉ comparedColumns rows metrics, totals.get? c = none := by
  have hyields : ∀ c ∈ comparedColumns rows metrics,
      Yields (Number.total (columnCells (rows.map Row.ofMembers) c)) IsFloat := by
    intro c hc
    obtain ⟨x, htotal, -⟩ := total_eq_metric h hc
    exact ⟨_, htotal, x, rfl⟩
  obtain ⟨totals, htotals, -⟩ := yields_sumColumns hyields
  refine ⟨totals, htotals, fun c hc => ?_, fun c hc => ?_⟩
  · obtain ⟨x, htotal, hget⟩ := total_eq_metric h hc
    have hthere := (of_mem_additiveColumns (of_mem_comparedColumns hc).1).1
    refine ⟨x, ?_, hget⟩
    rw [get?_sumColumns htotals, if_pos ⟨hc, hthere⟩]
    show (Number.total _).toOption = _
    rw [htotal]
    rfl
  · rw [get?_sumColumns htotals, if_neg fun hmem => hc hmem.1]

/-- What is reported of a metric that is compared with itself. -/
def selfReport (ms : Members Number) (field : String) : Option Discrepancy :=
  (ms.get? field).bind fun n => if n.isFinite then none else some (unmeasured field n)

theorem mem_selfReports {fields : List String} {c : String} :
    c ∈ (fields.filterMap (selfReport ms)).map (·.field) ↔
      c ∈ fields ∧ ∃ n, ms.get? c = some n ∧ n.isFinite = false := by
  constructor
  · intro hc
    obtain ⟨d, hd, rfl⟩ := List.mem_map.1 hc
    obtain ⟨field, hfield, hreport⟩ := List.mem_filterMap.1 hd
    obtain ⟨n, hget, hn⟩ := Option.bind_eq_some_iff.1 hreport
    split at hn
    · cases hn
    · rename_i hfinite
      cases hn
      exact ⟨hfield, n, hget, Bool.eq_false_of_not_eq_true hfinite⟩
  · rintro ⟨hfield, n, hget, hfinite⟩
    refine List.mem_map.2 ⟨unmeasured c n, List.mem_filterMap.2 ⟨c, hfield, ?_⟩, rfl⟩
    rw [selfReport, hget, Option.bind_some, hfinite]
    rfl

/-- Metrics that are compared with themselves. -/
theorem compareMetrics_self (htolerance : tolerance.lt (.int 0) = false) {columns : List String}
    {totals : Members Number}
    (hcompared : ∀ c ∈ columns, ∃ x, totals.get? c = some (.float x) ∧ ms.get? c = some (.float x))
    (hothers : ∀ c ∉ columns, totals.get? c = none) :
    ∃ fields : List String, (∀ c, c ∈ fields ↔ c ∈ columns) ∧
      compareMetrics tolerance (totals.mapValues .num) (suppliedOf (ms.mapValues .num) columns) =
        .ok (fields.filterMap (selfReport ms)) := by
  have hkeys (c : String) (hc : c ∈ totals.keys) : c ∈ columns := by
    by_contra hnot
    have hthere := Members.contains_of_mem_keys hc
    rw [Members.contains, hothers c hnot] at hthere
    cases hthere
  have htotals : (totals.mapValues Value.num).keys = totals.keys := by
    simp [Members.keys, Members.mapValues, Function.comp_def]
  have hfields (c : String) : c ∈ distinct ((totals.mapValues Value.num).keys ++
      (suppliedOf (ms.mapValues .num) columns).keys) ↔ c ∈ columns := by
    rw [mem_distinct, htotals, keys_suppliedOf, List.mem_append]
    exact ⟨fun h => h.elim (hkeys c) id, .inr⟩
  refine ⟨_, hfields, filterMapM_eq_ok fun field hfield => ?_⟩
  have hcolumn := (hfields field).1 hfield
  obtain ⟨x, htotal, hget⟩ := hcompared field hcolumn
  have hreport : selfReport ms field =
      if x.isFinite then none else some (unmeasured field (.float x)) := by
    rw [selfReport, hget, Option.bind_some, isFinite_float]
  rw [get?_suppliedOf hcolumn, Members.get?_mapValues, Members.get?_mapValues, htotal, hget, hreport]
  exact discrepancy?_self htolerance field x

/-- The metrics of rows never contradict the rows.  Every column that is compared has a total, which
is the metric of that name; and whatever is tolerated, the columns that are reported are those whose
total is not finite. -/
theorem checkTotals_aggregate (h : aggregate (rows.map Row.ofMembers) = .ok ms)
    (htolerance : tolerance.lt (.int 0) = false) :
    (∃ totals,
      sumColumns (rows.map Row.ofMembers) (comparedColumns rows (ms.mapValues .num)) = .ok totals ∧
      ∀ c ∈ comparedColumns rows (ms.mapValues .num), ∃ n,
        totals.get? c = some n ∧ ms.get? c = some n) ∧
    ∃ findings, checkTotals rows (ms.mapValues .num) tolerance = .ok findings ∧
      ∀ c, c ∈ named findings ↔ c ∈ comparedColumns rows (ms.mapValues .num) ∧
        ∃ n, ms.get? c = some n ∧ n.isFinite = false := by
  obtain ⟨totals, htotals, hcompared, hothers⟩ := sumColumns_compared h (ms.mapValues .num)
  obtain ⟨fields, hfields, hcompare⟩ := compareMetrics_self htolerance hcompared hothers
  constructor
  · refine ⟨totals, htotals, fun c hc => ?_⟩
    obtain ⟨x, htotal, hget⟩ := hcompared c hc
    exact ⟨_, htotal, hget⟩
  · have hcheck : checkTotals rows (ms.mapValues .num) tolerance =
        .ok (findingsOf (fields.filterMap (selfReport ms))) := by
      rw [checkTotals, htotals]
      show (compareMetrics _ _ (suppliedOf _ _) >>= _) = _
      rw [hcompare]
      cases fields.filterMap (selfReport ms) <;> rfl
    refine ⟨_, hcheck, fun c => ?_⟩
    rw [named_findingsOf, mem_selfReports, hfields]

/-- Two days, on one of which the leads are no number. -/
def unclearDays : List Record :=
  [[("date", .str "2024-06-01"), ("spend", .num (.int 50)), ("leads", .num (.int 4))],
    [("date", .str "2024-06-02"), ("spend", .num (.int 30)), ("leads", .num (.float (0.0 / 0.0)))]]

/-- Their metrics. -/
def unclearMetrics : Members Number :=
  [("spend", .float 80.0), ("leads", .float (0.0 / 0.0)), ("cpl", .float (80.0 / (0.0 / 0.0)))]

/-- Of the two totals, that of the leads is reported, even if nothing is tolerated. -/
theorem checkTotals_aggregate_unclearDays :
    ∃ findings, checkTotals unclearDays (unclearMetrics.mapValues .num) (.int 0) = .ok findings ∧
      "leads" ∈ named findings ∧ "spend" ∉ named findings := by
  have hms : aggregate (unclearDays.map Row.ofMembers) = .ok unclearMetrics := by decide
  obtain ⟨-, findings, hcheck, hnamed⟩ :=
    @checkTotals_aggregate (.int 0) unclearDays unclearMetrics hms (by decide)
  refine ⟨findings, hcheck, (hnamed _).2 ⟨by decide, _, rfl, by decide⟩, ?_⟩
  intro hspend
  obtain ⟨-, n, hget, hfinite⟩ := (hnamed _).1 hspend
  cases hget
  exact absurd hfinite (by decide)

end Integrity

end Dashboards
