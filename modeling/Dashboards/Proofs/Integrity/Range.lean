import Dashboards.Integrity.Check
import Dashboards.Proofs.Metrics.Range

/-!
# Checks of data within the range of floats

An integer beyond the range of floats is the only thing that keeps data from being checked against
metrics that are floats.  What the checks report is shallow: the details of a finding show texts and
numbers only.
-/

namespace Dashboards

/-! ## 1. Differences -/

namespace Number

/-- A metric as totals are compared with it: a float, or the zero that stands for a missing one. -/
def IsMetric (n : Number) : Prop := n.IsFloat ∨ n = .int 0

variable {a b n : Number}

theorem fits_zero : (int 0).Fits := fits_int (by decide)

theorem IsMetric.fits (h : n.IsMetric) : n.Fits := by
  obtain hfloat | rfl := h
  · exact hfloat.fits
  · exact fits_zero

theorem IsMetric.magnitude (h : n.IsMetric) : n.magnitude.IsMetric := by
  obtain ⟨x, rfl⟩ | rfl := h
  · exact .inl ⟨x.abs, rfl⟩
  · exact .inr rfl

theorem IsMetric.sub (ha : a.IsMetric) (hb : b.IsMetric) : Yields (a.sub b) IsMetric := by
  obtain ⟨x, hx, -⟩ := ha.fits
  obtain ⟨y, hy, -⟩ := hb.fits
  have hfloats : (a.IsFloat ∨ b.IsFloat) → Yields (a.sub b) IsMetric := by
    intro hfloat
    have hsub : a.sub b = (do pure (.float ((← a.toFloat) - (← b.toFloat)))) := by
      obtain ⟨z, rfl⟩ | ⟨z, rfl⟩ := hfloat
      · rfl
      · cases a <;> rfl
    rw [hsub, hx, hy]
    exact ⟨_, rfl, .inl ⟨_, rfl⟩⟩
  obtain hfloat | rfl := ha
  · exact hfloats (.inl hfloat)
  · obtain hfloat | rfl := hb
    · exact hfloats (.inr hfloat)
    · exact ⟨.int 0, rfl, .inr rfl⟩

end Number

namespace Integrity

open Number

variable {a b n : Number}

theorem larger_isMetric (ha : a.IsMetric) (hb : b.IsMetric) : (larger a b).IsMetric := by
  rw [larger]
  split
  · exact hb
  · exact ha

/-- What differences are measured by is one, or a float that is not zero. -/
theorem larger_one (hn : n.IsMetric) :
    larger n (.int 1) = .int 1 ∨
      ∃ y, larger n (.int 1) = .float y ∧ (float y).same (.int 0) = false := by
  rw [larger]
  split
  · exact .inl rfl
  · rename_i hlarge
    obtain ⟨y, rfl⟩ | rfl := hn
    · refine .inr ⟨y, rfl, Bool.eq_false_of_not_eq_true fun hzero => hlarge ?_⟩
      rw [lt, (same_iff.1 hzero).1]
      decide
    · exact absurd (by decide) hlarge

theorem yields_difference {tolerance : Number} (ha : a.IsMetric) (hb : b.IsMetric) :
    Yields (difference tolerance a b) fun _ => True := by
  refine (ha.sub hb).bind fun apart hapart => ?_
  have hdiv : Yields (apart.magnitude.div (larger (larger a.magnitude b.magnitude) (.int 1)))
      fun _ => True := by
    obtain hone | ⟨y, hy, hnonzero⟩ := larger_one (larger_isMetric ha.magnitude hb.magnitude)
    · rw [hone]
      obtain ⟨x, hx⟩ | hx := hapart.magnitude
      · rw [hx]
        exact ⟨_, float_div_one x, trivial⟩
      · rw [hx]
        have hfits : ¬(Binary.nearest (0 : Int).natAbs (1 : Int).natAbs).isInf = true := by
          decide
        rw [div, quotient, if_neg (by decide), if_neg hfits]
        exact .pure trivial
    · rw [hy]
      exact (hapart.magnitude.fits.div hnonzero).imp fun _ _ => trivial
  exact hdiv.bind fun _ _ => .pure trivial

/-! ## 2. Values -/

/-- Rows without integers beyond the range of floats. -/
def RecordsFit (rows : List Record) : Prop :=
  ∀ row ∈ rows, ∀ m ∈ row, ∀ n, m.2 = .num n → n.Fits

variable {rows : List Record} {metrics : Members Number} {v : Value}

theorem RecordsFit.rowsFit (h : RecordsFit rows) : RowsFit (rows.map Row.ofMembers) := by
  intro row hrow m hm n hn
  obtain ⟨record, hrecord, rfl⟩ := List.mem_map.1 hrow
  obtain ⟨⟨key, v⟩, hmember, rfl⟩ := List.mem_map.1 hm
  cases v with
  | num k =>
    cases hn
    exact h record hrecord _ hmember _ rfl
  | _ => cases hn

/-- The finite number that a value is, is the number that it is. -/
theorem yields_finiteNumber? (h : ∀ n, v = .num n → n.Fits) :
    Yields (finiteNumber? v) fun found => ∀ n, found = some n → v = .num n := by
  cases v with
  | num n =>
    refine (h n rfl).hasFiniteFloat.bind fun finite _ => ?_
    cases finite with
    | true =>
      refine .pure fun k hk => ?_
      cases hk
      rfl
    | false => exact .pure nofun
  | _ => exact .pure nofun

/-- A value as totals are compared with it: if it is a number, then one that is a metric. -/
def IsMetricValue (v : Value) : Prop := v.isCollection = false ∧ ∀ n, v = .num n → n.IsMetric

theorem IsMetricValue.null : IsMetricValue .null := ⟨rfl, nofun⟩

theorem IsMetricValue.num (hn : n.IsMetric) : IsMetricValue (.num n) :=
  ⟨rfl, fun k hk => by cases hk; exact hn⟩

theorem IsMetricValue.fits (h : IsMetricValue v) {n : Number} (hn : v = .num n) : n.Fits :=
  (h.2 n hn).fits

/-- What stands under a name among metrics that are floats. -/
theorem isMetricValue_getD (h : Floats metrics) {default : Value} (hdefault : IsMetricValue default)
    (name : String) : IsMetricValue ((Members.get? (metrics.mapValues .num) name).getD default) := by
  rw [Members.get?_mapValues]
  cases hget : metrics.get? name with
  | none => exact hdefault
  | some n => exact .num (.inl (h.of_get? hget))

/-! ## 3. Checks -/

/-- A finding whose details show no collections. -/
def Finding.Shallow : Finding → Prop
  | .differentTotals ds => ∀ d ∈ ds, d.first.isCollection = false ∧ d.second.isCollection = false
  | _ => True

theorem yields_badCells (named : List String) (index : Nat) {row : Record}
    (h : ∀ m ∈ row, ∀ n, m.2 = .num n → n.Fits) :
    Yields (badCells named index row) fun _ => True := by
  refine Yields.foldlM trivial fun found field _ _ => ?_
  split
  · rename_i n hget
    refine (h _ (Members.mem_of_get? hget) n rfl).hasFiniteFloat.bind fun finite _ => ?_
    cases finite <;> exact .pure trivial
  · exact .pure trivial

theorem yields_checkFiniteness (h : RecordsFit rows) (named : List String) :
    Yields (checkFiniteness rows named) fun findings => ∀ f ∈ findings, f.Shallow := by
  have hcells : ∀ entry ∈ rows.zipIdx, Yields (badCells named entry.2 entry.1) fun _ => True :=
    fun entry hentry => yields_badCells named _ (h _ (List.fst_mem_of_mem_zipIdx hentry))
  refine (Yields.mapM hcells).bind fun cells _ => ?_
  split
  · exact .pure nofun
  · refine .pure fun f hf => ?_
    obtain rfl := List.mem_singleton.1 hf
    trivial

theorem yields_checkMetrics (h : Floats metrics) :
    Yields (checkMetrics (metrics.mapValues .num)) fun findings => ∀ f ∈ findings, f.Shallow := by
  refine Yields.bind (p := fun _ => True) ?_ fun names _ => ?_
  · refine (Yields.filterMapM (q := fun _ => True) fun m hm => ?_).imp fun _ _ => trivial
    obtain ⟨⟨name, n⟩, hmember, rfl⟩ := List.mem_map.1 hm
    have hvalue : IsMetricValue (.num n) := .num (.inl (h _ hmember))
    exact (yields_finiteNumber? fun n hn => hvalue.fits hn).bind fun _ _ => .pure fun _ _ => trivial
  split
  · exact .pure fun f hf => absurd hf List.not_mem_nil
  · refine .pure fun f hf => ?_
    obtain rfl := List.mem_singleton.1 hf
    trivial

theorem yields_fieldsWhere (h : Floats metrics) (bad : Number → Bool)
    (finding : String → Number → Finding) (hshallow : ∀ field n, (finding field n).Shallow)
    (fields : List String) :
    Yields (fieldsWhere (metrics.mapValues .num) bad finding fields)
      fun findings => ∀ f ∈ findings, f.Shallow := by
  refine Yields.filterMapM fun field _ => ?_
  have hvalue := isMetricValue_getD h .null field
  refine (yields_finiteNumber? fun n hn => hvalue.fits hn).bind fun found _ => ?_
  cases found with
  | none => exact .pure nofun
  | some n =>
    refine .pure fun f hf => ?_
    split at hf
    · cases hf
      exact hshallow field n
    · cases hf

theorem yields_discrepancy? {a b : Value} (ha : IsMetricValue a) (hb : IsMetricValue b)
    (tolerance : Number) (field : String) :
    Yields (discrepancy? tolerance field a b) fun found =>
      ∀ d, found = some d → d.first.isCollection = false ∧ d.second.isCollection = false := by
  have htexts : ∀ d, some (Discrepancy.mk field (.str a.plain) (.str b.plain) none) = some d →
      d.first.isCollection = false ∧ d.second.isCollection = false := by
    intro d hd
    cases hd
    exact ⟨rfl, rfl⟩
  refine (yields_finiteNumber? fun n hn => ha.fits hn).bind fun found hfound => ?_
  cases found with
  | none => exact .pure htexts
  | some m =>
    refine (yields_finiteNumber? fun n hn => hb.fits hn).bind fun other hother => ?_
    cases other with
    | none => exact .pure htexts
    | some n =>
      have hm := ha.2 m (hfound m rfl)
      have hn := hb.2 n (hother n rfl)
      refine (yields_difference hm hn).bind fun apart _ => .pure fun d hd => ?_
      obtain ⟨x, -, rfl⟩ := Option.map_eq_some_iff.1 hd
      exact ⟨rfl, rfl⟩

theorem yields_checkTotals (hrows : RecordsFit rows) (h : Floats metrics) (tolerance : Number) :
    Yields (checkTotals rows (metrics.mapValues .num) tolerance)
      fun findings => ∀ f ∈ findings, f.Shallow := by
  have hzero : IsMetricValue (.ofInt 0) := .num (.inr rfl)
  refine (hrows.rowsFit.sumColumns _).bind fun totals htotals => ?_
  -- A metric that is compared is a total, a metric as it was given, or the zero for a missing one.
  refine (Yields.filterMapM fun key _ =>
    yields_discrepancy? (isMetricValue_getD htotals hzero key) ?_ tolerance key).bind fun ds hds => ?_
  · cases hget : Members.get? ((comparedColumns rows (metrics.mapValues .num)).map fun c =>
        (c, ((metrics.mapValues Value.num).get? c).getD .null)) key with
    | none => exact hzero
    | some v =>
      obtain ⟨c, -, hentry⟩ := List.mem_map.1 (Members.mem_of_get? hget)
      obtain ⟨-, rfl⟩ := Prod.mk.inj hentry
      exact isMetricValue_getD h .null c
  · split
    · exact .pure nofun
    · refine .pure fun f hf => ?_
      obtain rfl := List.mem_singleton.1 hf
      exact hds

/-- Every check of rows within the range of floats against metrics that are floats is made. -/
theorem yields_run (hrows : RecordsFit rows) (h : Floats metrics) (config : Config) (c : Check) :
    Yields (run rows (metrics.mapValues .num) config c) fun findings => ∀ f ∈ findings, f.Shallow := by
  cases c with
  | finiteness => exact yields_checkFiniteness hrows _
  | metrics => exact yields_checkMetrics h
  | units =>
    refine (yields_fieldsWhere h _ .highRate (fun _ _ => trivial) _).bind fun high hhigh => ?_
    refine (yields_fieldsWhere h _ .negativeMoney (fun _ _ => trivial) _).bind fun low hlow => ?_
    exact .pure fun f hf => (List.mem_append.1 hf).elim (hhigh f) (hlow f)
  | sufficiency | requiredFields | dates =>
    refine .pure fun f hf => ?_
    simp only [checkSufficiency, checkRequiredFields, checkDates] at hf
    split at hf
    · cases hf
    · obtain rfl := List.mem_singleton.1 hf
      trivial
  | totals => exact yields_checkTotals hrows h _

/-- Data are checked, and the findings are shallow. -/
theorem yields_validate (hrows : RecordsFit rows) (h : Floats metrics) (config : Config) :
    Yields (validate rows (metrics.mapValues .num) config)
      fun report => ∀ f ∈ report.errors ++ report.warnings, f.Shallow := by
  refine (Yields.mapM fun c _ => yields_run hrows h config c).bind fun found hfound => ?_
  refine .pure fun f hf => ?_
  have hmem : f ∈ found.flatten := by
    rcases List.mem_append.1 hf with hf | hf
    · exact (List.mem_filter.1 hf).1
    · exact (List.mem_filter.1 hf).1
  obtain ⟨fs, hfs, hf⟩ := List.mem_flatten.1 hmem
  exact hfound fs hfs f hf

end Integrity

end Dashboards
