import Dashboards.Proofs.Json.Equality
import Dashboards.Proofs.Metrics.Aggregate

/-!
# Metrics of rows within the range of floats

An integer beyond the range of floats is the only thing that keeps the metrics of rows from being
calculated: a total is a float, and a ratio of two floats is taken only where the second one is not
zero.
-/

open Float.Model

namespace Dashboards

/-! ## 1. Numbers -/

namespace Number

/-- A number that is within the range of floats: not an integer beyond it. -/
def Fits (n : Number) : Prop := Yields n.toFloat fun _ => True

/-- A number that is a float. -/
def IsFloat (n : Number) : Prop := ∃ x, n = .float x

variable {n : Number}

theorem fits_float (x : Float) : (float x).Fits := ⟨x, rfl, trivial⟩

theorem IsFloat.fits (h : n.IsFloat) : n.Fits := by
  obtain ⟨x, rfl⟩ := h
  exact fits_float x

theorem toFloat_int {k : Int} (h : (Float.ofInt k).isInf = false) :
    (int k).toFloat = .ok (Float.ofInt k) := if_neg (h ▸ Bool.false_ne_true)

theorem fits_int {k : Int} (h : (Float.ofInt k).isInf = false) : (int k).Fits :=
  ⟨Float.ofInt k, toFloat_int h, trivial⟩

theorem Fits.hasFiniteFloat (h : n.Fits) : Yields n.hasFiniteFloat fun _ => True :=
  h.map fun _ _ => trivial

/-- The exact value of a float, by what it is unpacked to. -/
theorem exact_float (x : Float) : (float x).exact = match x.toModel.unpack with
    | .notANumber => .undefined
    | .infinity s => if s == .negative then .below else .above
    | .zero s => .finite (Binary.rational (s == .negative) 0 0)
    | .finite s m e _ => .finite (Binary.rational (s == .negative) m e) := by
  have hfloat : Binary.ofFloat x = match x.toModel.unpack with
    | .notANumber => .undefined
    | .infinity s => .infinite (s == .negative)
    | .zero s => .finite (s == .negative) 0 0
    | .finite s m e _ => .finite (s == .negative) m e := rfl
  rw [exact, hfloat]
  cases x.toModel.unpack <;> rfl

theorem rational_ne_zero (negative : Bool) {m : Nat} (hm : 0 < m) (q : Int) :
    Binary.rational negative m q ≠ 0 := by
  have hnum : 0 < m * Nat.pow 2 q.toNat := Nat.mul_pos hm (Nat.two_pow_pos _)
  have hden : Nat.pow 2 (-q).toNat ≠ 0 := (Nat.two_pow_pos _).ne'
  show mkRat (if negative then -((m * Nat.pow 2 q.toNat : Nat) : Int)
    else (m * Nat.pow 2 q.toNat : Nat)) (Nat.pow 2 (-q).toNat) ≠ 0
  rw [Ne, Rat.mkRat_eq_zero hden]
  split <;> omega

/-- A float is the same as zero if it equals one of the two zeros. -/
theorem same_zero (y : Float) : (float y).same (.int 0) = (y == 0.0) := by
  have hzero : (0.0 : Float).toModel.unpack = .zero .positive := by with_unfolding_all rfl
  have hbeq : (y == 0.0) = y.toModel.unpack.beq (.zero .positive) := by rw [← hzero]; rfl
  rw [hbeq, same, exact_float]
  cases y.toModel.unpack with
  | notANumber => rfl
  | infinity s => cases s <;> rfl
  | zero s => cases s <;> decide
  | finite s m e hm =>
    have hne := rational_ne_zero (s == .negative) hm e
    have hno : UnpackedFloat.beq (.finite s m e hm) (.zero .positive) = false := by
      cases s <;> rfl
    rw [hno]
    simpa [exact, Extended.same] using hne

/-- Where one of two numbers is a float, their quotient is that of the floats nearest to them. -/
theorem div_eq_ok {a b : Number} {x y : Float} (hfloat : a.IsFloat ∨ b.IsFloat)
    (hx : a.toFloat = .ok x) (hy : b.toFloat = .ok y) (hne : ¬(y == 0.0) = true) :
    a.div b = .ok (.float (x / y)) := by
  have hdiv : a.div b = (do
      let x ← a.toFloat
      let y ← b.toFloat
      if y == 0.0 then throw .divisionByZero else pure (.float (x / y))) := by
    obtain ⟨z, rfl⟩ | ⟨z, rfl⟩ := hfloat
    · rfl
    · cases a <;> rfl
  rw [hdiv, hx, hy]
  exact if_neg hne

/-- A quotient by a float is a float, if the float is not the same as zero. -/
theorem Fits.div (hn : n.Fits) {y : Float} (h : (float y).same (.int 0) = false) :
    Yields (n.div (.float y)) IsFloat := by
  obtain ⟨x, hx, -⟩ := hn
  have hne : (y == 0.0) = false := (same_zero y).symm.trans h
  exact ⟨_, div_eq_ok (.inr ⟨y, rfl⟩) hx rfl (hne ▸ Bool.false_ne_true), x / y, rfl⟩

theorem float_div_one (x : Float) : (float x).div (.int 1) = .ok (.float (x / Float.ofInt 1)) :=
  div_eq_ok (.inl ⟨x, rfl⟩) rfl (toFloat_int (by decide)) (by decide)

theorem fits_hundred : (int 100).Fits := fits_int (by decide)

/-- A column without integers beyond the range of floats has a total. -/
theorem yields_total {cells : List (Option Number)} (h : ∀ n, some n ∈ cells → n.Fits) :
    Yields (Number.total cells) IsFloat := by
  rw [total]
  split
  · exact .pure ⟨_, rfl⟩
  · split
    · exact .pure ⟨_, rfl⟩
    · have hcells : ∀ c ∈ cells,
          Yields ((c.map (·.toFloat)).getD (.ok 0.0)) fun _ => True := by
        intro c hc
        cases c with
        | none => exact .pure trivial
        | some n => exact h n hc
      exact (Yields.mapM hcells).bind fun xs _ => .pure ⟨_, rfl⟩

/-- A total is a float. -/
theorem isFloat_of_total {cells : List (Option Number)} (h : Number.total cells = .ok n) :
    n.IsFloat := by
  rw [total] at h
  split at h
  · obtain rfl := Except.ok.inj h
    exact ⟨_, rfl⟩
  · split at h
    · obtain rfl := Except.ok.inj h
      exact ⟨_, rfl⟩
    · obtain ⟨xs, -, h⟩ := exists_of_bind_eq_ok h
      obtain rfl := Except.ok.inj h
      exact ⟨_, rfl⟩

end Number

/-! ## 2. Metrics -/

/-- Metrics that are floats. -/
def Floats (ms : Members Number) : Prop := ∀ m ∈ ms, m.2.IsFloat

/-- Rows without integers beyond the range of floats. -/
def RowsFit (rows : List (Row Number)) : Prop :=
  ∀ row ∈ rows, ∀ m ∈ row, ∀ n, m.2 = .number n → n.Fits

variable {rows : List (Row Number)} {ms : Members Number}

namespace Floats

theorem set (h : Floats ms) {n : Number} (hn : n.IsFloat) (name : String) : Floats (ms.set name n) := by
  intro m hm
  rcases Members.mem_set hm with rfl | hold
  · exact hn
  · exact h m hold

theorem of_get? (h : Floats ms) {name : String} {n : Number} (hn : ms.get? name = some n) :
    n.IsFloat := h _ (Members.mem_of_get? hn)

theorem addCanonical (h : Floats ms) (name : String) : Floats (addCanonical ms name) := by
  rw [Dashboards.addCanonical]
  split
  · exact h
  · split
    · rename_i n hn
      obtain ⟨other, -, hget⟩ := List.exists_of_findSome?_eq_some hn
      exact h.set (h.of_get? hget) name
    · exact h

theorem foldl_addCanonical (h : Floats ms) (names : List String) :
    Floats (names.foldl Dashboards.addCanonical ms) := by
  induction names generalizing ms with
  | nil => exact h
  | cons name names ih => exact ih (h.addCanonical name)

/-- A ratio is calculated only where the divisor is not zero. -/
theorem addRatio (h : Floats ms) (name dividend divisor : String) {factor : Option Number}
    (hfactor : ∀ f, factor = some f → f.Fits) :
    Yields (addRatio ms name dividend divisor factor) Floats := by
  rw [Dashboards.addRatio]
  split
  · rename_i a b ha hb
    obtain ⟨x, rfl⟩ := h.of_get? ha
    obtain ⟨y, rfl⟩ := h.of_get? hb
    split
    · exact .pure h
    · rename_i hnonzero
      have hdivisor := Bool.eq_false_of_not_eq_true hnonzero
      refine ((Number.fits_float x).div hdivisor).bind fun ratio hratio => ?_
      cases factor with
      | none => exact .pure (h.set hratio name)
      | some f =>
        obtain ⟨z, rfl⟩ := hratio
        refine Yields.bind (p := Number.IsFloat) ?_ fun scaled hscaled => .pure (h.set hscaled name)
        obtain ⟨w, hw, -⟩ := hfactor f rfl
        refine ⟨.float (z * w), ?_, z * w, rfl⟩
        show (do let y ← f.toFloat; pure (Number.float (z * y))) = _
        rw [hw]
        rfl
  · exact .pure h

end Floats

theorem RowsFit.columnCells (h : RowsFit rows) (name : String) {n : Number}
    (hn : some n ∈ columnCells rows name) : n.Fits := by
  obtain ⟨row, hrow, hcell⟩ := List.mem_map.1 hn
  rw [Row.cell] at hcell
  cases hget : row.get? name with
  | none => rw [hget] at hcell; cases hcell
  | some c =>
    rw [hget] at hcell
    cases c with
    | number a =>
      cases hcell
      exact h row hrow _ (Members.mem_of_get? hget) n rfl
    | _ => cases hcell

/-- Columns that have totals are summed, to floats. -/
theorem yields_sumColumns {columns : List String}
    (h : ∀ c ∈ columns, Yields (Number.total (columnCells rows c)) Number.IsFloat) :
    Yields (sumColumns rows columns) Floats := by
  refine Yields.foldlM (fun m hm => absurd hm List.not_mem_nil) fun totals name hname htotals => ?_
  split
  · exact (h name hname).bind fun total htotal => .pure (htotals.set htotal name)
  · exact .pure htotals

/-- Where the columns have sums, there are metrics, and they are floats. -/
theorem yields_aggregate (h : Yields (sumColumns rows (additiveColumns rows)) Floats) :
    Yields (aggregate rows) Floats := by
  rw [aggregate]
  have hplain : ∀ f : Number, none = some f → f.Fits := fun f hf => by cases hf
  refine h.bind fun totals htotals => ?_
  refine ((htotals.foldl_addCanonical _).addRatio _ _ _ hplain).bind fun metrics hmetrics => ?_
  refine (hmetrics.addRatio _ _ _ hplain).bind fun metrics hmetrics => ?_
  refine Yields.foldlM hmetrics fun metrics s _ hmetrics => hmetrics.addRatio _ _ _ fun f hf => ?_
  cases hf
  exact Number.fits_hundred

/-- The totals of columns are floats. -/
theorem RowsFit.sumColumns (h : RowsFit rows) (columns : List String) :
    Yields (sumColumns rows columns) Floats :=
  yields_sumColumns fun c _ => Number.yields_total fun _ hn => h.columnCells c hn

/-- The metrics of rows are floats. -/
theorem RowsFit.aggregate (h : RowsFit rows) : Yields (aggregate rows) Floats :=
  yields_aggregate (h.sumColumns _)

end Dashboards
