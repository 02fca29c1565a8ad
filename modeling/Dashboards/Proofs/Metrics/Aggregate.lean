import Dashboards.Metrics.Aggregate
import Dashboards.Proofs.Json.Reader
import Dashboards.Proofs.Outcomes
import Mathlib.Data.List.Basic

/-!
# Totals and ratios

What stands under a name in the metrics of a period.  The total under a canonical name is the sum of
the first column that goes by one of its names, and the rate of a stage is the ratio of two such
totals: no column of rates is summed, and no name is both a total and a ratio.
-/

namespace Dashboards

variable {α : Type} {ms ms' : Members α} {rows : List (Row α)}

/-! ## 1. Columns -/

theorem Members.contains_of_mem_keys {name : String} (h : name ∈ ms.keys) :
    ms.contains name = true := by
  induction ms with
  | nil => cases h
  | cons m ms ih =>
    rw [Members.contains, Members.get?]
    split
    · rfl
    · rename_i hne
      exact ih ((List.mem_cons.1 h).resolve_left fun heq => hne heq.symm)

theorem mem_keys_columnKinds {name : String} (h : name ∈ (columnKinds rows).keys) :
    ∃ row ∈ rows, name ∈ row.keys := by
  have hentry : ∀ (entries : Row α) (seen : Members Bool),
      name ∈ (entries.foldl (fun seen (m : String × Cell α) =>
        if dateColumns.contains m.1 || m.2.isAbsent then seen
        else seen.set m.1 ((seen.get? m.1).getD true && m.2.number?.isSome)) seen).keys →
      name ∈ seen.keys ∨ name ∈ entries.keys := by
    intro entries
    induction entries with
    | nil => exact fun seen hseen => .inl hseen
    | cons m entries ih =>
      intro seen hseen
      rcases ih _ hseen with hset | hrest
      · dsimp only at hset
        split at hset
        · exact .inl hset
        · obtain ⟨m', hm', rfl⟩ := List.mem_map.1 hset
          rcases Members.mem_set hm' with rfl | hold
          · exact .inr List.mem_cons_self
          · exact .inl (List.mem_map.2 ⟨m', hold, rfl⟩)
      · exact .inr (List.mem_cons_of_mem _ hrest)
  obtain ⟨m, hm, rfl⟩ := List.mem_map.1 ((hentry rows.flatten [] h).resolve_left List.not_mem_nil)
  obtain ⟨row, hrow, hmem⟩ := List.mem_flatten.1 hm
  exact ⟨row, hrow, List.mem_map.2 ⟨m, hmem, rfl⟩⟩

/-- A column that is summed is in some row, and holds no rates. -/
theorem of_mem_additiveColumns {name : String} (h : name ∈ additiveColumns rows) :
    (rows.any fun row => row.contains name) = true ∧ isRate name = false := by
  obtain ⟨hnumeric, hrate⟩ := List.mem_filter.1 h
  obtain ⟨m, hm, rfl⟩ := List.mem_map.1 hnumeric
  obtain ⟨row, hrow, hmem⟩ :=
    mem_keys_columnKinds (List.mem_map.2 ⟨m, (List.mem_filter.1 hm).1, rfl⟩)
  refine ⟨List.any_eq_true.2 ⟨row, hrow, Members.contains_of_mem_keys hmem⟩, ?_⟩
  simpa using hrate

/-! ## 2. Canonical names -/

/-- The first of the names of a metric that has an entry. -/
def entryOf (ms : Members α) (metric : String) : Option α := (aliasesOf metric).findSome? ms.get?

theorem findSome?_congr {β γ : Type} {f g : β → Option γ} {bs : List β}
    (h : ∀ b ∈ bs, f b = g b) : bs.findSome? f = bs.findSome? g := by
  induction bs with
  | nil => rfl
  | cons b bs ih =>
    obtain ⟨hb, hbs⟩ := List.forall_mem_cons.1 h
    rw [List.findSome?_cons, List.findSome?_cons, hb, ih hbs]

/-- Entries under other names do not matter. -/
theorem entryOf_congr {metric : String}
    (h : ∀ name ∈ aliasesOf metric, ms'.get? name = ms.get? name) :
    entryOf ms' metric = entryOf ms metric :=
  findSome?_congr h

/-- A canonical name is the first of its own names. -/
theorem exists_aliasesOf {name : String} (hname : name ∈ canonicalTotals) :
    ∃ others, aliasesOf name = name :: others := by
  have hhead : ∀ name ∈ canonicalTotals, (aliasesOf name).head? = some name := by decide
  exact List.head?_eq_some_iff.1 (hhead name hname)

/-- No total goes by the canonical name of another one. -/
theorem eq_of_mem_aliasesOf : ∀ name ∈ canonicalTotals, ∀ other ∈ canonicalTotals,
    other ∈ aliasesOf name → other = name := by
  decide

/-- What stands under a canonical name counts. -/
theorem entryOf_of_get? {name : String} (hname : name ∈ canonicalTotals) {a : α}
    (h : ms.get? name = some a) : entryOf ms name = some a := by
  obtain ⟨others, hothers⟩ := exists_aliasesOf hname
  rw [entryOf, hothers, List.findSome?_cons, h]

theorem get?_addCanonical_of_ne {name other : String} (h : other ≠ name) :
    (addCanonical ms name).get? other = ms.get? other := by
  unfold addCanonical
  split
  · rfl
  · split
    · exact Members.get?_set_of_ne _ _ h
    · rfl

theorem get?_addCanonical_self {name : String} (hname : name ∈ canonicalTotals) :
    (addCanonical ms name).get? name = entryOf ms name := by
  unfold addCanonical Members.contains
  cases hget : ms.get? name with
  | some a =>
    show ms.get? name = _
    rw [hget, entryOf_of_get? hname hget]
  | none =>
    rw [if_neg (show ¬(none : Option α).isSome = true from Bool.false_ne_true), entryOf]
    cases List.findSome? ms.get? (aliasesOf name) with
    | some a => exact Members.get?_set_self _ _ _
    | none => exact hget

/-- Every canonical name gets the entry under the first of its names, and the others keep theirs. -/
theorem get?_foldl_addCanonical {names : List String} (hnames : names ⊆ canonicalTotals)
    (hnodup : names.Nodup) (name : String) :
    (names.foldl addCanonical ms).get? name =
      if name ∈ names then entryOf ms name else ms.get? name := by
  induction names generalizing ms with
  | nil => rfl
  | cons first names ih =>
    obtain ⟨hfirst, hrest⟩ := List.cons_subset.1 hnames
    obtain ⟨hnew, hnodup⟩ := List.nodup_cons.1 hnodup
    rw [List.foldl_cons, ih hrest hnodup]
    by_cases heq : name = first
    · subst heq
      rw [if_neg hnew, if_pos List.mem_cons_self, get?_addCanonical_self hfirst]
    · simp only [List.mem_cons, heq, false_or]
      split
      · rename_i hmem
        refine entryOf_congr fun other hother => get?_addCanonical_of_ne ?_
        rintro rfl
        exact heq (eq_of_mem_aliasesOf name (hrest hmem) other hfirst hother).symm
      · exact get?_addCanonical_of_ne heq

variable [Measure α]

/-! ## 3. Sums -/

/-- A column that is there has its total under its name, and nothing else is there. -/
theorem get?_sumColumns {columns : List String} (h : sumColumns rows columns = .ok ms)
    (name : String) :
    ms.get? name = if name ∈ columns ∧ (rows.any fun row => row.contains name) = true then
      (Measure.total (columnCells rows name)).toOption else none := by
  have hfold : ∀ (columns : List String) (totals : Members α),
      columns.foldlM (fun totals name => do
        if rows.any fun row => row.contains name then
          pure (totals.set name (← Measure.total (columnCells rows name)))
        else pure totals) totals = .ok ms →
      ms.get? name = if name ∈ columns ∧ (rows.any fun row => row.contains name) = true then
        (Measure.total (columnCells rows name)).toOption else totals.get? name := by
    intro columns
    induction columns with
    | nil =>
      intro totals htotals
      obtain rfl := Except.ok.inj htotals
      rw [if_neg fun hmem => List.not_mem_nil hmem.1]
    | cons c columns ih =>
      intro totals htotals
      rw [List.foldlM_cons] at htotals
      by_cases hthere : (rows.any fun row => row.contains c) = true
      · rw [if_pos hthere] at htotals
        obtain ⟨totals', hset, hrest⟩ := exists_of_bind_eq_ok htotals
        obtain ⟨a, ha, hset⟩ := exists_of_bind_eq_ok hset
        obtain rfl := Except.ok.inj hset
        rw [ih _ hrest]
        by_cases hname : name = c
        · subst hname
          simp only [Members.get?_set_self, List.mem_cons_self, hthere, and_self, if_true, ha]
          split <;> rfl
        · simp only [Members.get?_set_of_ne _ _ hname, List.mem_cons, hname, false_or]
      · rw [if_neg hthere] at htotals
        rw [ih _ htotals]
        by_cases hname : name = c
        · subst hname
          rw [if_neg fun hmem => hthere hmem.2, if_neg fun hmem => hthere hmem.2]
        · simp only [List.mem_cons, hname, false_or]
  exact hfold columns [] h

/-- The columns that are summed and there have totals. -/
theorem exists_total {columns : List String} (h : sumColumns rows columns = .ok ms) {name : String}
    (hname : name ∈ columns) (hthere : (rows.any fun row => row.contains name) = true) :
    ∃ a, Measure.total (columnCells rows name) = .ok a := by
  obtain ⟨totals, totals', hstep⟩ := exists_step_of_foldlM h hname
  rw [if_pos hthere] at hstep
  obtain ⟨a, ha, -⟩ := exists_of_bind_eq_ok hstep
  exact ⟨a, ha⟩

/-! ## 4. Ratios -/

/-- The ratio of two entries times a factor, if both are there and the divisor is not zero. -/
def ratio (dividend divisor factor : Option α) : Calculated (Option α) :=
  match dividend, divisor with
  | some a, some b =>
    if Measure.isZero b then pure none
    else do
      let quotient ← Measure.div a b
      match factor with
      | some f => some <$> Measure.mul quotient f
      | none => pure (some quotient)
  | _, _ => pure none

theorem addRatio_eq (ms : Members α) (name dividend divisor : String) (factor : Option α) :
    addRatio ms name dividend divisor factor =
      (ratio (ms.get? dividend) (ms.get? divisor) factor).map fun found =>
        (found.map (ms.set name)).getD ms := by
  unfold addRatio ratio
  cases ms.get? dividend with
  | none => rfl
  | some a =>
    cases ms.get? divisor with
    | none => rfl
    | some b =>
      dsimp only
      split
      · rfl
      · cases Measure.div a b with
        | error fault => rfl
        | ok quotient =>
          cases factor with
          | none => rfl
          | some f =>
            show (Measure.mul quotient f >>= _) = (some <$> Measure.mul quotient f).map _
            cases Measure.mul quotient f <;> rfl

/-- A ratio is entered under its own name only. -/
theorem get?_addRatio {name dividend divisor : String} {factor : Option α}
    (h : addRatio ms name dividend divisor factor = .ok ms') :
    (∃ found, ratio (ms.get? dividend) (ms.get? divisor) factor = .ok found ∧
      ms'.get? name = found.or (ms.get? name)) ∧
        ∀ other, other ≠ name → ms'.get? other = ms.get? other := by
  rw [addRatio_eq] at h
  cases hratio : ratio (ms.get? dividend) (ms.get? divisor) factor with
  | error fault =>
    rw [hratio] at h
    cases h
  | ok found =>
    rw [hratio] at h
    obtain rfl := Except.ok.inj h
    cases found with
    | none => exact ⟨⟨none, rfl, rfl⟩, fun other hother => rfl⟩
    | some a =>
      exact ⟨⟨some a, rfl, Members.get?_set_self _ _ _⟩,
        fun other hother => Members.get?_set_of_ne _ _ hother⟩

/-- Stages whose rates are neither totals of the stages nor rates of one another. -/
structure Apart (stages : List Stage) : Prop where
  rates : (stages.map (·.rate)).Nodup
  totals : ∀ s ∈ stages, ∀ t ∈ stages, t.source ≠ s.rate ∧ t.target ≠ s.rate

theorem apart_funnelStages : Apart funnelStages := ⟨by decide, by decide⟩

/-- The rate of every stage is entered, from the totals that were there at first. -/
theorem get?_rates {stages : List Stage} (hapart : Apart stages) {factor : Option α}
    (h : stages.foldlM (fun ms s => addRatio ms s.rate s.target s.source factor) ms = .ok ms') :
    (∀ s ∈ stages, ∃ found, ratio (ms.get? s.target) (ms.get? s.source) factor = .ok found ∧
      ms'.get? s.rate = found.or (ms.get? s.rate)) ∧
        ∀ name, (∀ s ∈ stages, name ≠ s.rate) → ms'.get? name = ms.get? name := by
  induction stages generalizing ms with
  | nil =>
    obtain rfl := Except.ok.inj h
    exact ⟨fun s hs => (List.not_mem_nil hs).elim, fun name hname => rfl⟩
  | cons first stages ih =>
    rw [List.foldlM_cons] at h
    obtain ⟨ms₁, hfirst, hrest⟩ := exists_of_bind_eq_ok h
    obtain ⟨hnew, hnodup⟩ := List.nodup_cons.1 hapart.rates
    obtain ⟨⟨found, hfound, hentered⟩, hframe⟩ := get?_addRatio hfirst
    obtain ⟨hrates, hothers⟩ := ih ⟨hnodup, fun s hs t ht =>
      hapart.totals s (List.mem_cons_of_mem _ hs) t (List.mem_cons_of_mem _ ht)⟩ hrest
    have hfresh : ∀ s ∈ stages, first.rate ≠ s.rate := fun s hs heq =>
      hnew (List.mem_map.2 ⟨s, hs, heq.symm⟩)
    refine ⟨List.forall_mem_cons.2 ⟨⟨found, hfound, ?_⟩, fun s hs => ?_⟩, fun name hname => ?_⟩
    · rw [hothers _ hfresh, hentered]
    · obtain ⟨hsource, htarget⟩ :=
        hapart.totals first List.mem_cons_self s (List.mem_cons_of_mem _ hs)
      have hrate := hrates s hs
      rwa [hframe _ htarget, hframe _ hsource, hframe _ (hfresh s hs).symm] at hrate
    · obtain ⟨hname, hnames⟩ := List.forall_mem_cons.1 hname
      rw [hothers _ hnames, hframe _ hname]

/-! ## 5. Metrics of a period -/

/-- The total of a metric: the sum of the first column with numbers that goes by one of its names. -/
def totalOf (rows : List (Row α)) (metric : String) : Option α :=
  (aliasesOf metric).findSome? fun column =>
    if column ∈ additiveColumns rows then (Measure.total (columnCells rows column)).toOption
    else none

/-- The total of a column, if it is summed. -/
def columnTotal (rows : List (Row α)) (column : String) : Option α :=
  if column ∈ additiveColumns rows then (Measure.total (columnCells rows column)).toOption else none

/-- Columns of rates have no totals. -/
theorem columnTotal_rate {name : String} (hrate : isRate name = true) :
    columnTotal rows name = none := by
  refine if_neg fun hmem => ?_
  rw [(of_mem_additiveColumns hmem).2] at hrate
  cases hrate

/-- The sums of the columns are their totals. -/
theorem get?_sumColumns_additive (h : sumColumns rows (additiveColumns rows) = .ok ms)
    (column : String) : ms.get? column = columnTotal rows column := by
  rw [get?_sumColumns h, columnTotal]
  by_cases hcolumn : column ∈ additiveColumns rows
  · rw [if_pos ⟨hcolumn, (of_mem_additiveColumns hcolumn).1⟩, if_pos hcolumn]
  · rw [if_neg fun hmem => hcolumn hmem.1, if_neg hcolumn]

theorem entryOf_sumColumns (h : sumColumns rows (additiveColumns rows) = .ok ms) (metric : String) :
    entryOf ms metric = totalOf rows metric :=
  findSome?_congr fun column _ => get?_sumColumns_additive h column

/-- The ratios that are entered over a column of the same name, each with its divisor. -/
def costRatios : List (String × String) := [("cpl", "leads"), ("cac", "sales")]

/-- A name of a total is no ratio. -/
theorem aliasesOf_not_ratio : ∀ name ∈ canonicalTotals, ∀ other ∈ aliasesOf name,
    other ≠ "cpl" ∧ other ≠ "cac" ∧ ∀ s ∈ funnelStages, other ≠ s.rate := by
  decide

theorem mem_canonicalTotals_of_stage : ∀ s ∈ funnelStages,
    s.source ∈ canonicalTotals ∧ s.target ∈ canonicalTotals := by
  decide

theorem rate_not_total : ∀ s ∈ funnelStages,
    s.rate ≠ "cpl" ∧ s.rate ≠ "cac" ∧ s.rate ∉ canonicalTotals := by
  decide

/-- The metrics before the rates of the stages: the totals under their canonical names, those of the
columns, and for each cost the ratio of two totals or, where there is none, the total of the column
of that name. -/
theorem exists_beforeRates (h : aggregate rows = .ok ms) : ∃ before : Members α,
    (∀ name, name ≠ "cpl" ∧ name ≠ "cac" → before.get? name =
      if name ∈ canonicalTotals then totalOf rows name else columnTotal rows name) ∧
    (∀ c ∈ costRatios, ∃ found, ratio (totalOf rows "spend") (totalOf rows c.2) none = .ok found ∧
      before.get? c.1 = found.or (columnTotal rows c.1)) ∧
    funnelStages.foldlM (fun ms s => addRatio ms s.rate s.target s.source (some (Measure.ofInt 100)))
      before = .ok ms := by
  obtain ⟨totals, htotals, h⟩ := exists_of_bind_eq_ok h
  obtain ⟨withCpl, hcpl, h⟩ := exists_of_bind_eq_ok h
  obtain ⟨withCac, hcac, h⟩ := exists_of_bind_eq_ok h
  have hcanonical (name : String) : (canonicalTotals.foldl addCanonical totals).get? name =
      if name ∈ canonicalTotals then totalOf rows name else columnTotal rows name := by
    rw [get?_foldl_addCanonical (List.Subset.refl _) (by decide) name, entryOf_sumColumns htotals,
      get?_sumColumns_additive htotals]
  have htotal {name : String} (hname : name ∈ canonicalTotals) :
      (canonicalTotals.foldl addCanonical totals).get? name = totalOf rows name := by
    rw [hcanonical, if_pos hname]
  obtain ⟨⟨cpl, hratio, hentered⟩, hframe⟩ := get?_addRatio hcpl
  obtain ⟨⟨cac, hratio', hentered'⟩, hframe'⟩ := get?_addRatio hcac
  rw [htotal (by decide), htotal (by decide)] at hratio
  rw [hframe _ (by decide), hframe _ (by decide), htotal (by decide), htotal (by decide)] at hratio'
  refine ⟨withCac, fun name hname => ?_, ?_, h⟩
  · rw [hframe' _ hname.2, hframe _ hname.1, hcanonical]
  · refine List.forall_mem_cons.2 ⟨⟨cpl, hratio, ?_⟩,
      List.forall_mem_cons.2 ⟨⟨cac, hratio', ?_⟩, nofun⟩⟩
    · rw [hframe' _ (by decide), hentered, hcanonical, if_neg (by decide)]
    · rw [hentered', hframe _ (by decide), hcanonical, if_neg (by decide)]

/-- The metrics of a period hold the totals under their canonical names and the ratios of totals as
the rates of the stages. -/
theorem aggregate_spec (h : aggregate rows = .ok ms) :
    (∀ name ∈ canonicalTotals, ms.get? name = totalOf rows name ∧
      entryOf ms name = totalOf rows name) ∧
        ∀ s ∈ funnelStages,
          ratio (totalOf rows s.target) (totalOf rows s.source) (some (Measure.ofInt 100)) =
            .ok (ms.get? s.rate) := by
  obtain ⟨before, hbefore, -, h⟩ := exists_beforeRates h
  obtain ⟨hrates, hothers⟩ := get?_rates apart_funnelStages h
  have htotal {name : String} (hname : name ∈ canonicalTotals) :
      before.get? name = totalOf rows name := by
    obtain ⟨others, hlist⟩ := exists_aliasesOf hname
    obtain ⟨hne, hne', -⟩ := aliasesOf_not_ratio name hname name (hlist ▸ List.mem_cons_self)
    rw [hbefore _ ⟨hne, hne'⟩, if_pos hname]
  constructor
  · intro name hname
    have hget : ms.get? name = totalOf rows name := by
      obtain ⟨others, hlist⟩ := exists_aliasesOf hname
      obtain ⟨-, -, hrate⟩ := aliasesOf_not_ratio name hname name (hlist ▸ List.mem_cons_self)
      rw [hothers name hrate, htotal hname]
    refine ⟨hget, ?_⟩
    cases hsum : totalOf rows name with
    | some a => exact entryOf_of_get? hname (hget.trans hsum)
    | none =>
      -- Without a total there is no entry under any of the names.
      refine List.findSome?_eq_none_iff.2 fun other hother => ?_
      obtain ⟨hne, hne', hrate⟩ := aliasesOf_not_ratio name hname other hother
      rw [hothers other hrate, hbefore _ ⟨hne, hne'⟩]
      split
      · rename_i hmem
        rw [eq_of_mem_aliasesOf name hname other hmem hother, hsum]
      · exact List.findSome?_eq_none_iff.1 hsum other hother
  · intro s hs
    obtain ⟨hsource, htarget⟩ := mem_canonicalTotals_of_stage s hs
    obtain ⟨hne, hne', hnot⟩ := rate_not_total s hs
    obtain ⟨found, hfound, hentered⟩ := hrates s hs
    have hnone : before.get? s.rate = none := by
      rw [hbefore _ ⟨hne, hne'⟩, if_neg hnot, columnTotal_rate (isRate_of_mem_funnelStages s hs)]
    rw [htotal hsource, htotal htarget] at hfound
    rw [hfound, hentered, hnone, Option.or_none]

/-- The names of the costs are those of no rates. -/
theorem cost_not_rate : ∀ c ∈ costRatios, ∀ s ∈ funnelStages, c.1 ≠ s.rate := by
  decide

/-- A cost is the ratio of two totals or, where there is none, the total of the column of that
name. -/
theorem get?_cost (h : aggregate rows = .ok ms) {c : String × String} (hc : c ∈ costRatios) :
    ∃ found, ratio (totalOf rows "spend") (totalOf rows c.2) none = .ok found ∧
      ms.get? c.1 = found.or (columnTotal rows c.1) := by
  obtain ⟨before, -, hcosts, h⟩ := exists_beforeRates h
  obtain ⟨found, hfound, hentered⟩ := hcosts c hc
  exact ⟨found, hfound,
    ((get?_rates apart_funnelStages h).2 _ (cost_not_rate c hc)).trans hentered⟩

/-- A column that is summed has its total under its name, unless that is the name of a cost. -/
theorem get?_column (h : aggregate rows = .ok ms) {name : String}
    (hadditive : name ∈ additiveColumns rows) (hname : name ≠ "cpl" ∧ name ≠ "cac") :
    ∃ a, Measure.total (columnCells rows name) = .ok a ∧ ms.get? name = some a := by
  obtain ⟨totals, htotals, -⟩ := exists_of_bind_eq_ok h
  obtain ⟨hthere, hrate⟩ := of_mem_additiveColumns hadditive
  obtain ⟨a, ha⟩ := exists_total htotals hadditive hthere
  obtain ⟨before, hbefore, -, h⟩ := exists_beforeRates h
  have hrates : ∀ s ∈ funnelStages, name ≠ s.rate := by
    rintro s hs rfl
    exact Bool.false_ne_true (hrate.symm.trans (isRate_of_mem_funnelStages s hs))
  have htotal : columnTotal rows name = some a := by
    rw [columnTotal, if_pos hadditive, ha]
    rfl
  refine ⟨a, ha, ?_⟩
  rw [(get?_rates apart_funnelStages h).2 _ hrates, hbefore _ hname]
  split
  · -- Of the names of a total its own comes first.
    rename_i hcanonical
    obtain ⟨others, hlist⟩ := exists_aliasesOf hcanonical
    show (aliasesOf name).findSome? (columnTotal rows) = _
    rw [hlist, List.findSome?_cons, htotal]
  · exact htotal

/-! ## 6. Exact numbers -/

theorem exists_foldlM {β γ : Type} {f : β → γ → Calculated β}
    (h : ∀ b c, ∃ b', f b c = .ok b') (cs : List γ) (b : β) : ∃ b', cs.foldlM f b = .ok b' := by
  induction cs generalizing b with
  | nil => exact ⟨b, rfl⟩
  | cons c cs ih =>
    obtain ⟨b', hb'⟩ := h b c
    rw [List.foldlM_cons, hb']
    exact ih b'

/-- The ratio of two rationals. -/
theorem ratio_rat (dividend divisor factor : Option ℚ) :
    ratio dividend divisor factor = .ok (dividend.bind fun a => divisor.bind fun b =>
      if b = 0 then none else some (a / b * factor.getD 1)) := by
  cases dividend with
  | none => rfl
  | some a =>
    cases divisor with
    | none => rfl
    | some b =>
      have hzero : Measure.isZero b = decide (b = 0) := by
        simp [Measure.isZero, Measure.same, Measure.ofInt]
      rw [ratio, hzero]
      by_cases hb : b = 0
      · rw [decide_eq_true hb, if_pos rfl, Option.bind_some, Option.bind_some, if_pos hb]
        rfl
      · have hdiv : Measure.div a b = .ok (a / b) := if_neg hb
        rw [decide_eq_false hb, if_neg Bool.false_ne_true, hdiv, Option.bind_some, Option.bind_some,
          if_neg hb]
        cases factor with
        | none => rw [Option.getD_none, mul_one]; rfl
        | some f => rfl

/-- Rationals are always summed and divided. -/
theorem exists_aggregate (rows : List (Row ℚ)) : ∃ ms, aggregate rows = .ok ms := by
  have hratio (ms : Members ℚ) (name dividend divisor : String) (factor : Option ℚ) :
      ∃ ms', addRatio ms name dividend divisor factor = .ok ms' := by
    rw [addRatio_eq, ratio_rat]
    exact ⟨_, rfl⟩
  obtain ⟨totals, htotals⟩ : ∃ totals, sumColumns rows (additiveColumns rows) = .ok totals := by
    refine exists_foldlM (fun totals name => ?_) _ _
    split
    · exact ⟨_, rfl⟩
    · exact ⟨_, rfl⟩
  obtain ⟨withCpl, hcpl⟩ :=
    hratio (canonicalTotals.foldl addCanonical totals) "cpl" "spend" "leads" none
  obtain ⟨withCac, hcac⟩ := hratio withCpl "cac" "spend" "sales" none
  obtain ⟨ms, hms⟩ := exists_foldlM (fun ms (s : Stage) =>
    hratio ms s.rate s.target s.source (some (Measure.ofInt 100))) funnelStages withCac
  refine ⟨ms, ?_⟩
  rw [aggregate, htotals]
  show (addRatio _ _ _ _ _ >>= _) = _
  rw [hcpl]
  show (addRatio _ _ _ _ _ >>= _) = _
  rw [hcac]
  exact hms

end Dashboards
