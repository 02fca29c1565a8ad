import Dashboards.Proofs.Metrics.Finite

/-!
# Ratios of totals

Which ratios are among the metrics of a period, and what they are, for rows of numbers as documents
hold them.  A rate is the ratio of two totals and is there exactly if both of them are and the
divisor is not zero.  A cost is that, too; but where there is no such ratio, a column that goes by
the name of the cost is summed like any other.
-/

namespace Dashboards

variable {rows : List (Row Number)} {ms : Members Number}

/-! ## 1. Ratios of floats -/

/-- A ratio of two totals that are there, the divisor not a zero, brought to scale. -/
def RatioOf (scale : Float → Float) (dividend divisor : Option Number) (n : Number) : Prop :=
  ∃ x y, dividend = some (.float x) ∧ divisor = some (.float y) ∧ (y == 0.0) = false ∧
    n = .float (scale (x / y))

/-- A quotient times a factor, if there is one. -/
def scaled : Option Int → Float → Float
  | some k, x => x * Float.ofInt k
  | none, x => x

variable {factor : Option Int}

/-- The ratio of two floats. -/
theorem ratio_float (hfactor : ∀ k ∈ factor, (Float.ofInt k).isInf = false) (x y : Float) :
    ratio (some (Number.float x)) (some (.float y)) (factor.map .int) =
      .ok (if y == 0.0 then none else some (.float (scaled factor (x / y)))) := by
  have hzero : Measure.isZero (Number.float y) = (y == 0.0) := Number.same_zero y
  rw [ratio, hzero]
  split
  · rfl
  · rename_i hne
    have hdiv : Measure.div (Number.float x) (Number.float y) = .ok (.float (x / y)) :=
      Number.div_eq_ok (.inl ⟨x, rfl⟩) rfl rfl hne
    rw [hdiv]
    cases factor with
    | none => rfl
    | some k =>
      show some <$> (do pure (Number.float ((x / y) * (← (Number.int k).toFloat)))) = _
      rw [Number.toFloat_int (hfactor k rfl)]
      rfl

/-- A ratio of totals that are floats is there exactly if both of them are and the divisor is not
zero. -/
theorem ratio_eq_some_iff {dividend divisor found : Option Number}
    (hdividend : ∀ n, dividend = some n → n.IsFloat) (hdivisor : ∀ n, divisor = some n → n.IsFloat)
    (hfactor : ∀ k ∈ factor, (Float.ofInt k).isInf = false)
    (h : ratio dividend divisor (factor.map .int) = .ok found) (n : Number) :
    found = some n ↔ RatioOf (scaled factor) dividend divisor n := by
  cases dividend with
  | none =>
    obtain rfl := Except.ok.inj h
    exact ⟨nofun, fun ⟨_, _, hx, _⟩ => nomatch hx⟩
  | some a =>
    cases divisor with
    | none =>
      obtain rfl := Except.ok.inj h
      exact ⟨nofun, fun ⟨_, _, _, hy, _⟩ => nomatch hy⟩
    | some b =>
      obtain ⟨x, rfl⟩ := hdividend a rfl
      obtain ⟨y, rfl⟩ := hdivisor b rfl
      rw [ratio_float hfactor] at h
      obtain rfl := Except.ok.inj h
      constructor
      · intro hn
        split at hn
        · cases hn
        · rename_i hne
          exact ⟨x, y, rfl, rfl, Bool.eq_false_of_not_eq_true hne, (Option.some.inj hn).symm⟩
      · rintro ⟨x', y', hx, hy, hne, rfl⟩
        cases hx
        cases hy
        rw [if_neg (hne ▸ Bool.false_ne_true)]

/-! ## 2. Totals -/

/-- The total of a metric is a float. -/
theorem isFloat_of_totalOf {metric : String} {n : Number} (h : totalOf rows metric = some n) :
    n.IsFloat := by
  obtain ⟨column, -, hcolumn⟩ := List.exists_of_findSome?_eq_some h
  split at hcolumn
  · cases htotal : Measure.total (columnCells rows column) with
    | error fault =>
      rw [htotal] at hcolumn
      cases hcolumn
    | ok total =>
      rw [htotal] at hcolumn
      obtain rfl := Option.some.inj hcolumn
      exact Number.isFloat_of_total htotal
  · cases hcolumn

/-- There are metrics exactly if every column that is summed has a total. -/
theorem exists_aggregate_iff (rows : List (Row Number)) : (∃ ms, aggregate rows = .ok ms) ↔
    ∀ column ∈ additiveColumns rows, ∃ n, Number.total (columnCells rows column) = .ok n := by
  constructor
  · rintro ⟨ms, h⟩ column hcolumn
    obtain ⟨totals, htotals, -⟩ := exists_of_bind_eq_ok h
    exact exists_total htotals hcolumn (of_mem_additiveColumns hcolumn).1
  · intro h
    have hsums : Yields (sumColumns rows (additiveColumns rows)) Floats :=
      yields_sumColumns fun column hcolumn =>
        have ⟨n, hn⟩ := h column hcolumn
        ⟨n, hn, Number.isFloat_of_total hn⟩
    obtain ⟨ms, hms, -⟩ := yields_aggregate hsums
    exact ⟨ms, hms⟩

/-! ## 3. Ratios among the metrics -/

/-- A rate is there exactly if it is a ratio of totals. -/
theorem get?_rate_iff (h : aggregate rows = .ok ms) {s : Stage} (hs : s ∈ funnelStages)
    (n : Number) : ms.get? s.rate = some n ↔
      RatioOf (· * 100.0) (totalOf rows s.target) (totalOf rows s.source) n := by
  have hhundred : scaled (some 100) = (· * 100.0) := by
    have hfloat : Float.ofInt 100 = 100.0 := by decide
    funext x
    rw [scaled, hfloat]
  have hfactor : ∀ k ∈ some (100 : Int), (Float.ofInt k).isInf = false := by
    rintro k ⟨⟩
    decide
  rw [← hhundred]
  exact ratio_eq_some_iff (fun _ => isFloat_of_totalOf) (fun _ => isFloat_of_totalOf) hfactor
    ((aggregate_spec h).2 s hs) n

/-- A cost is a ratio of totals or, where there is none, the total of a column of its name. -/
theorem get?_cost_iff (h : aggregate rows = .ok ms) {c : String × String} (hc : c ∈ costRatios)
    (n : Number) : ms.get? c.1 = some n ↔
      RatioOf id (totalOf rows "spend") (totalOf rows c.2) n ∨
        (∀ r, ¬ RatioOf id (totalOf rows "spend") (totalOf rows c.2) r) ∧
          columnTotal rows c.1 = some n := by
  obtain ⟨found, hfound, hget⟩ := get?_cost h hc
  have hplain : scaled none = id := rfl
  have hratio (n : Number) : found = some n ↔
      RatioOf id (totalOf rows "spend") (totalOf rows c.2) n := by
    rw [← hplain]
    exact ratio_eq_some_iff (fun _ => isFloat_of_totalOf) (fun _ => isFloat_of_totalOf)
      (fun k hk => by cases hk) hfound n
  simp only [← hratio, hget]
  cases found with
  | none => simp
  | some r => simp

/-- For every list of rows.  There are metrics unless a column that is summed has no total.  Among
them the totals stand under their canonical names.  Every rate of the funnel is the ratio of its two
totals in percent, and is there exactly if both totals are and the divisor is not zero; and every cost
is the ratio of the spend and the total of its divisor whenever both are there and the divisor is not
zero.  Without that ratio, nothing stands under the name of the cost unless a column of that name is
summed. -/
theorem ratios_of_aggregate (rows : List (Row Number)) :
    ((∃ ms, aggregate rows = .ok ms) ↔
      ∀ column ∈ additiveColumns rows, ∃ n, Number.total (columnCells rows column) = .ok n) ∧
    ∀ ms, aggregate rows = .ok ms →
      (∀ name ∈ canonicalTotals, ms.get? name = totalOf rows name) ∧
      (∀ s ∈ funnelStages, ∀ n, ms.get? s.rate = some n ↔
        RatioOf (· * 100.0) (totalOf rows s.target) (totalOf rows s.source) n) ∧
      ∀ c ∈ costRatios, ∀ n, ms.get? c.1 = some n ↔
        RatioOf id (totalOf rows "spend") (totalOf rows c.2) n ∨
          (∀ r, ¬ RatioOf id (totalOf rows "spend") (totalOf rows c.2) r) ∧
            columnTotal rows c.1 = some n := by
  refine ⟨exists_aggregate_iff rows, fun ms h => ⟨?totals, ?rates, ?costs⟩⟩
  case totals => exact fun name hname => ((aggregate_spec h).1 name hname).1
  case rates => exact fun s hs n => get?_rate_iff h hs n
  case costs => exact fun c hc n => get?_cost_iff h hc n

/-- Two days whose columns go by other names of the spend and the leads. -/
def aliasedDays : List (Row Number) :=
  [[("date", .other), ("cost_total", .number (.int 60)), ("leads_new", .number (.int 8))],
    [("date", .other), ("cost_total", .number (.int 30)), ("leads_new", .number (.int 4)),
      ("entries", .number (.int 3))]]

/-- Their metrics. -/
def aliasedMetrics : Members Number :=
  [("cost_total", .float 90.0), ("leads_new", .float 12.0), ("entries", .float 3.0),
    ("spend", .float 90.0), ("leads", .float 12.0), ("cpl", .float 7.5), ("entry_rate", .float 25.0)]

/-- What was spent on a lead is the ratio of the totals, and without sales there is no ratio that
could be the cost of one. -/
theorem ratios_of_aggregate_aliasedDays :
    aggregate aliasedDays = .ok aliasedMetrics ∧
      RatioOf id (totalOf aliasedDays "spend") (totalOf aliasedDays "leads") (.float 7.5) ∧
      RatioOf (· * 100.0) (totalOf aliasedDays "entries") (totalOf aliasedDays "leads")
        (.float 25.0) ∧
      ∀ n, ¬ RatioOf id (totalOf aliasedDays "spend") (totalOf aliasedDays "sales") n := by
  have hms : aggregate aliasedDays = .ok aliasedMetrics := by decide +kernel
  have hcolumn : columnTotal aliasedDays "cpl" = none := by decide
  obtain ⟨-, h⟩ := ratios_of_aggregate aliasedDays
  obtain ⟨-, hrates, hcosts⟩ := h aliasedMetrics hms
  refine ⟨hms, ?_, ?_, fun n hn => ?_⟩
  · have hcpl := (hcosts ("cpl", "leads") (by decide) (.float 7.5)).1 (by decide)
    refine hcpl.resolve_right fun hnone => ?_
    rw [hcolumn] at hnone
    cases hnone.2
  · exact (hrates ⟨"leads", "entries", "entry_rate"⟩ (by decide) (.float 25.0)).1
      (by decide)
  · have hcac := (hcosts ("cac", "sales") (by decide) n).2 (.inl hn)
    cases hcac

/-- Two days without leads, on which the cost of a lead is given. -/
def leadlessDays : List (Row Number) :=
  [[("date", .other), ("spend", .number (.int 50)), ("leads", .number (.int 0)),
      ("cpl", .number (.int 5))],
    [("date", .other), ("spend", .number (.int 30)), ("leads", .number (.int 0)),
      ("cpl", .number (.int 7))]]

/-- Without leads there is no cost of a lead; but the given costs are summed. -/
theorem aggregate_leadlessDays :
    aggregate leadlessDays =
        .ok [("spend", .float 80.0), ("leads", .float 0.0), ("cpl", .float 12.0)] ∧
      ∀ n, ¬ RatioOf id (totalOf leadlessDays "spend") (totalOf leadlessDays "leads") n := by
  refine ⟨by decide, ?_⟩
  rintro n ⟨x, y, -, hy, hne, -⟩
  have hleads : totalOf leadlessDays "leads" = some (.float 0.0) := by decide
  cases hleads.symm.trans hy
  exact absurd hne (by decide)

end Dashboards
