import Dashboards.Integrity.Check
import Dashboards.Proofs.Metrics.Finite

/-!
# What valid data are

Data are valid if none of the checks that are made finds anything critical or an error.  Only four of
the checks can find that, and each of these says something plain of the data: that there are enough
rows, that their numbers are finite, that the metrics are finite numbers, and that some row is dated
where a date is required.  Data are valid exactly if they have these properties, as far as the checks
are made.
-/

namespace Dashboards

namespace Integrity

variable {rows : List Record} {metrics : Record} {config : Config} {report : Report}

/-! ## 1. Harmless findings -/

/-- Findings that leave the data valid. -/
def Harmless (found : List Finding) : Prop := ∀ f ∈ found, f.severity.isDisabling = false

theorem isDisabling_eq_false {s : Severity} :
    s.isDisabling = false ↔ s ≠ .critical ∧ s ≠ .error := by
  cases s <;> simp [Severity.isDisabling]

theorem harmless_nil : Harmless [] := nofun

theorem harmless_singleton {f : Finding} : Harmless [f] ↔ f.severity.isDisabling = false := by
  simp [Harmless]

theorem not_harmless {f : Finding} (h : f.severity.isDisabling = true) : ¬ Harmless [f] := by
  rw [harmless_singleton, h]
  exact nofun

/-! ## 2. Finite numbers -/

/-- The value is a number, and finite. -/
def IsFiniteNumber (v : Value) : Prop := ∃ n, v = .num n ∧ n.isFinite = true

theorem finiteNumber?_isSome {v : Value} {found : Option Number} (h : finiteNumber? v = .ok found) :
    found.isSome = true ↔ IsFiniteNumber v := by
  cases v with
  | num n =>
    obtain ⟨finite, hhas, h⟩ := exists_of_bind_eq_ok h
    obtain ⟨-, hfinite⟩ := Number.hasFiniteFloat_eq_ok_iff.1 hhas
    subst hfinite
    split at h
    · rename_i hfinite
      obtain rfl := Except.ok.inj h
      exact ⟨fun _ => ⟨n, rfl, hfinite⟩, fun _ => rfl⟩
    · rename_i hfinite
      obtain rfl := Except.ok.inj h
      refine ⟨nofun, ?_⟩
      rintro ⟨k, hk, hkfinite⟩
      cases hk
      exact absurd hkfinite hfinite
  | _ =>
    obtain rfl := Except.ok.inj h
    exact ⟨nofun, fun ⟨_, hv, _⟩ => nomatch hv⟩

/-- The numbers in the inspected fields of a row are finite. -/
def CellsFinite (named : List String) (row : Record) : Prop :=
  ∀ field ∈ inspectedFields named row, ∀ n, row.get? field = some (.num n) → n.isFinite = true

/-- No cell of a row is reported exactly if its inspected numbers are finite. -/
theorem badCells_eq_nil_iff {named : List String} {index : Nat} {row : Record}
    {cells : List BadCell} (h : badCells named index row = .ok cells) :
    cells = [] ↔ CellsFinite named row := by
  refine (foldlM_iff (p := (· = [])) (q := fun field => ∀ n, row.get? field = some (.num n) →
    n.isFinite = true) (fun field _ found found' hstep => ?_) h).trans
      ⟨And.right, fun h => ⟨rfl, h⟩⟩
  split at hstep
  · rename_i n hget
    obtain ⟨finite, hhas, hstep⟩ := exists_of_bind_eq_ok hstep
    obtain ⟨-, hfinite⟩ := Number.hasFiniteFloat_eq_ok_iff.1 hhas
    subst hfinite
    split at hstep
    · rename_i hfinite
      obtain rfl := Except.ok.inj hstep
      simp [hget, hfinite]
    · -- The cell is added, and the number in it is not finite.
      rename_i hinfinite
      obtain rfl := Except.ok.inj hstep
      simp [hget, hinfinite]
  · rename_i hnone
    obtain rfl := Except.ok.inj hstep
    exact ⟨fun h => ⟨h, fun n hn => absurd hn (hnone n)⟩, And.left⟩

/-- Without named fields, all numbers of a row are inspected. -/
theorem mem_inspectedFields {row : Record} {key : String} {n : Number}
    (h : row.get? key = some (.num n)) : key ∈ inspectedFields [] row :=
  List.mem_map.2 ⟨(key, .num n), List.mem_filter.2 ⟨Members.mem_of_get? h, rfl⟩, rfl⟩

/-! ## 3. The single checks -/

/-- What a check says of data when it finds nothing that makes them invalid. -/
def Passes (rows : List Record) (metrics : Record) (config : Config) : Check → Prop
  | .sufficiency => config.leastRows ≤ rows.length
  | .finiteness => ∀ row ∈ rows, CellsFinite (config.numericFields.getD []) row
  | .metrics => ∀ m ∈ metrics, IsFiniteNumber m.2
  | .dates => config.requireDates = true →
      ∃ row ∈ rows, ∃ f ∈ config.dateField :: dateColumns, ((row.get? f).getD .null).isTruthy = true
  | .units | .requiredFields | .totals => True

theorem harmless_checkSufficiency (rows : List Record) (least : Int) :
    Harmless (checkSufficiency rows least) ↔ least ≤ rows.length := by
  unfold checkSufficiency
  split
  · rename_i henough
    exact iff_of_true harmless_nil henough
  · rename_i hfew
    exact iff_of_false (not_harmless rfl) hfew

theorem harmless_checkFiniteness {named : List String} {found : List Finding}
    (h : checkFiniteness rows named = .ok found) :
    Harmless found ↔ ∀ row ∈ rows, CellsFinite named row := by
  obtain ⟨cells, hcells, h⟩ := exists_of_bind_eq_ok h
  have hrows : (∀ cs ∈ cells, cs = []) ↔ ∀ entry ∈ rows.zipIdx, CellsFinite named entry.1 :=
    forall_mapM_iff (fun entry _ cs hcs => badCells_eq_nil_iff hcs) hcells
  have hentries : (∀ entry ∈ rows.zipIdx, CellsFinite named entry.1) ↔
      ∀ row ∈ rows, CellsFinite named row := by
    rw [← List.forall_mem_map (f := Prod.fst), List.zipIdx_map_fst]
  rw [← hentries, ← hrows, ← List.flatten_eq_nil_iff]
  split at h
  · rename_i hnone
    obtain rfl := Except.ok.inj h
    exact iff_of_true harmless_nil hnone
  · rename_i hsome
    obtain rfl := Except.ok.inj h
    exact iff_of_false (not_harmless rfl) hsome

theorem harmless_checkMetrics {found : List Finding} (h : checkMetrics metrics = .ok found) :
    Harmless found ↔ ∀ m ∈ metrics, IsFiniteNumber m.2 := by
  obtain ⟨names, hnames, h⟩ := exists_of_bind_eq_ok h
  have hmetrics : (∀ name ∈ names, False) ↔ ∀ m ∈ metrics, IsFiniteNumber m.2 := by
    refine forall_filterMapM_iff (fun m _ found hfound => ?_) hnames
    obtain ⟨n?, hn, hfound⟩ := exists_of_bind_eq_ok hfound
    obtain rfl := Except.ok.inj hfound
    rw [← finiteNumber?_isSome hn]
    cases n? <;> simp
  rw [← hmetrics]
  split at h
  · obtain rfl := Except.ok.inj h
    exact iff_of_true harmless_nil nofun
  · rename_i hsome
    obtain rfl := Except.ok.inj h
    exact iff_of_false (not_harmless rfl) fun hnone =>
      hsome (List.eq_nil_iff_forall_not_mem.2 hnone)

theorem harmless_fieldsWhere {bad : Number → Bool} {finding : String → Number → Finding}
    (hseverity : ∀ field n, (finding field n).severity = .warning) {fields : List String}
    {found : List Finding} (h : fieldsWhere metrics bad finding fields = .ok found) :
    Harmless found := by
  refine (forall_filterMapM_iff (q := fun _ => True) (fun field _ found hfound => ?_) h).2
    fun _ _ => trivial
  refine iff_of_true (fun f hf => ?_) trivial
  obtain ⟨n?, -, hfound⟩ := exists_of_bind_eq_ok hfound
  cases n? with
  | none =>
    obtain rfl := Except.ok.inj hfound
    cases hf
  | some n =>
    obtain rfl := Except.ok.inj hfound
    split at hf
    · obtain rfl := Option.some.inj hf
      rw [hseverity]
      rfl
    · cases hf

theorem harmless_checkUnits {rates money : List String} {found : List Finding}
    (h : checkUnits metrics rates money = .ok found) : Harmless found := by
  obtain ⟨high, hhigh, h⟩ := exists_of_bind_eq_ok h
  obtain ⟨low, hlow, h⟩ := exists_of_bind_eq_ok h
  obtain rfl := Except.ok.inj h
  exact List.forall_mem_append.2 ⟨harmless_fieldsWhere (fun _ _ => rfl) hhigh,
    harmless_fieldsWhere (fun _ _ => rfl) hlow⟩

theorem harmless_checkRequiredFields (rows : List Record) (required : List String) :
    Harmless (checkRequiredFields rows required) := by
  unfold checkRequiredFields
  split
  · exact harmless_nil
  · exact harmless_singleton.2 rfl

theorem harmless_checkDates (rows : List Record) (field : String) (required : Bool) :
    Harmless (checkDates rows field required) ↔ (required = true →
      ∃ row ∈ rows, ∃ f ∈ field :: dateColumns, ((row.get? f).getD .null).isTruthy = true) := by
  unfold checkDates
  simp only [← List.any_eq_true]
  split
  · rename_i hdated
    exact iff_of_true harmless_nil fun _ => hdated
  · rename_i hdateless
    rw [harmless_singleton]
    cases required with
    | false => exact iff_of_true rfl nofun
    | true => exact iff_of_false nofun fun hdated => hdateless (hdated rfl)

theorem harmless_checkTotals {tolerance : Number} {found : List Finding}
    (h : checkTotals rows metrics tolerance = .ok found) : Harmless found := by
  obtain ⟨totals, -, h⟩ := exists_of_bind_eq_ok h
  obtain ⟨ds, -, h⟩ := exists_of_bind_eq_ok h
  split at h
  · obtain rfl := Except.ok.inj h
    exact harmless_nil
  · obtain rfl := Except.ok.inj h
    exact harmless_singleton.2 rfl

/-- A check finds nothing that makes data invalid exactly if the data are as it says. -/
theorem harmless_run_iff {c : Check} {found : List Finding}
    (h : run rows metrics config c = .ok found) : Harmless found ↔ Passes rows metrics config c := by
  cases c with
  | sufficiency =>
    obtain rfl := Except.ok.inj h
    exact harmless_checkSufficiency rows _
  | finiteness => exact harmless_checkFiniteness h
  | metrics => exact harmless_checkMetrics h
  | units => exact iff_of_true (harmless_checkUnits h) trivial
  | requiredFields =>
    obtain rfl := Except.ok.inj h
    exact iff_of_true (harmless_checkRequiredFields rows _) trivial
  | dates =>
    obtain rfl := Except.ok.inj h
    exact harmless_checkDates rows _ _
  | totals => exact iff_of_true (harmless_checkTotals h) trivial

/-! ## 4. All checks -/

theorem mem_all (c : Check) : c ∈ Check.all := by
  cases c <;> decide

/-- A report is made from what the checks found that are not disabled and have something to look
at. -/
theorem report_of_validate (h : validate rows metrics config = .ok report) :
    (∀ c, c ∈ report.performed ↔
      c.name ∉ config.disabled ∧ applies rows metrics config c = true) ∧
    (report.valid = true ↔ report.errors = []) ∧
    ∃ found, report.performed.mapM (run rows metrics config) = .ok found ∧
      (report.errors = [] ↔ ∀ fs ∈ found, Harmless fs) := by
  obtain ⟨found, hfound, h⟩ := exists_of_bind_eq_ok h
  obtain rfl := Except.ok.inj h
  refine ⟨fun c => ?_, List.isEmpty_iff, found, hfound, ?_⟩
  · simp [List.mem_filter, mem_all]
  · simp [Harmless]

/-- There are no errors exactly if every check that was made found only what is harmless. -/
theorem errors_eq_nil_iff (h : validate rows metrics config = .ok report) :
    report.errors = [] ↔
      ∀ c ∈ report.performed, ∃ found, run rows metrics config c = .ok found ∧ Harmless found := by
  obtain ⟨-, -, found, hfound, herrors⟩ := report_of_validate h
  refine herrors.trans (forall_mapM_iff (fun c _ fs hfs => ?_) hfound)
  constructor
  · exact fun hharmless => ⟨fs, hfs, hharmless⟩
  · rintro ⟨fs', hfs', hharmless⟩
    obtain rfl := Except.ok.inj (hfs.symm.trans hfs')
    exact hharmless

/-- Data are valid exactly if they are as every check says that is made. -/
theorem valid_iff_passes (h : validate rows metrics config = .ok report) :
    report.valid = true ↔ ∀ c ∈ report.performed, Passes rows metrics config c := by
  obtain ⟨-, hvalid, found, hfound, herrors⟩ := report_of_validate h
  rw [hvalid, herrors]
  exact forall_mapM_iff (fun c _ fs hfs => harmless_run_iff hfs) hfound

/-- For all data and every configuration.  A report calls data valid exactly if it has no errors, and
it has none exactly if no check that was made found anything critical or an error.  If the three
checks of rows and numbers are not disabled and no fields are named to be inspected, then valid data
have enough rows, all numbers in the rows are finite, and every metric is a finite number. -/
theorem gate_of_validate (h : validate rows metrics config = .ok report) :
    (report.valid = true ↔ report.errors = []) ∧
    (report.errors = [] ↔ ∀ c ∈ report.performed, ∃ found,
      run rows metrics config c = .ok found ∧
        ∀ f ∈ found, f.severity ≠ .critical ∧ f.severity ≠ .error) ∧
    ((∀ c ∈ [Check.sufficiency, .finiteness, .metrics], c.name ∉ config.disabled) →
      config.numericFields.getD [] = [] → report.valid = true →
        config.leastRows ≤ rows.length ∧
        (∀ row ∈ rows, ∀ key n, row.get? key = some (.num n) → n.isFinite = true) ∧
        ∀ m ∈ metrics, ∃ n, m.2 = .num n ∧ n.isFinite = true) := by
  obtain ⟨hperformed, hvalid, -⟩ := report_of_validate h
  refine ⟨hvalid, ?severities, fun henabled hunnamed hsound => ?sound⟩
  case severities =>
    simp only [← isDisabling_eq_false]
    exact errors_eq_nil_iff h
  case sound =>
    -- The three checks look at all data, so none of them is left out.
    have hpasses (c : Check) (hc : c ∈ [Check.sufficiency, .finiteness, .metrics])
        (happlies : applies rows metrics config c = true) : Passes rows metrics config c :=
      (valid_iff_passes h).1 hsound c ((hperformed c).2 ⟨henabled c hc, happlies⟩)
    have hrows := hpasses .sufficiency (by decide) rfl
    have hcells := hpasses .finiteness (by decide) rfl
    have hmetrics := hpasses .metrics (by decide) rfl
    refine ⟨hrows, fun row hrow key n hget => ?_, hmetrics⟩
    rw [Passes, hunnamed] at hcells
    exact hcells row hrow key (mem_inspectedFields hget) n hget

/-- Two days of numbers, of which one stands beside a text. -/
def twoDays : List Record :=
  [[("date", .str "2024-06-01"), ("spend", .num (.int 50)), ("leads", .num (.int 4))],
    [("date", .str "2024-06-02"), ("spend", .num (.int 30)), ("leads", .str "none")]]

/-- Two days are enough. -/
def twoDaysEnough : Config := { Config.default with leastRows := 2 }

/-- Two days with their spend are valid, so its total is a finite number. -/
theorem gate_of_validate_twoDays : ∃ report,
    validate twoDays [("spend", .num (.int 80))] twoDaysEnough = .ok report ∧
      report.errors = [] ∧
      (∀ row ∈ twoDays, ∀ key n, row.get? key = some (.num n) → n.isFinite = true) ∧
      ∀ m ∈ [("spend", Value.num (.int 80))], ∃ n, m.2 = .num n ∧ n.isFinite = true := by
  have hreport : (validate twoDays [("spend", .num (.int 80))] twoDaysEnough).toOption.map
      (·.valid) = some true := by decide
  cases h : validate twoDays [("spend", .num (.int 80))] twoDaysEnough with
  | error fault =>
    rw [h] at hreport
    cases hreport
  | ok report =>
    rw [h] at hreport
    have hvalid : report.valid = true := Option.some.inj hreport
    obtain ⟨herrors, -, hsound⟩ := gate_of_validate h
    obtain ⟨-, hcells, hmetrics⟩ := hsound (by decide) rfl hvalid
    exact ⟨report, rfl, herrors.1 hvalid, hcells, hmetrics⟩

end Integrity

end Dashboards
