import Dashboards.Proofs.Patch.Chain
import Dashboards.Proofs.Policy.Documents

/-!
# Patches one after another

Two patches that are accepted one after another are accepted as one patch with the same result.  Under
a policy the documents before and after are compared as well, so the comparison has to be transitive:
a ceiling may be passed only by what was as long before, a protected tab that is still there may not
have gone in between, and loose equality is transitive.  Without a policy a patch is accepted exactly
when its two parts are.
-/

namespace Dashboards

/-! ## 1. The comparison of documents -/

namespace Policy

variable {policy : Policy} {a b c : Value}

theorem sectionObjection_trans {p : Pointer} (hab : sectionObjection a b p = none)
    (hbc : sectionObjection b c p = none) : sectionObjection a c p = none := by
  obtain ⟨ha, -, hsame⟩ := sectionObjection_eq_none_iff.1 hab
  obtain ⟨-, hc, hsame'⟩ := sectionObjection_eq_none_iff.1 hbc
  exact sectionObjection_eq_none_iff.2 ⟨ha, hc, Value.sameAt_trans hsame hsame'⟩

theorem checkDocuments_trans (hab : policy.checkDocuments a b = [])
    (hbc : policy.checkDocuments b c = []) : policy.checkDocuments a c = [] := by
  obtain ⟨hsections, hlengths, htabs⟩ := checkDocuments_eq_nil_iff.1 hab
  obtain ⟨hsections', hlengths', htabs'⟩ := checkDocuments_eq_nil_iff.1 hbc
  refine checkDocuments_eq_nil_iff.2
    ⟨fun p hp => ?_, fun collection hover => ?_, fun name hname hprotected => ?_⟩
  · exact sectionObjection_trans (hsections p hp) (hsections' p hp)
  · -- What is beyond its ceiling at the end was no shorter in between, so beyond it there too.
    have hend := hlengths' collection hover
    have hstart := hlengths collection (by omega)
    omega
  · exact htabs' name (htabs name hname hprotected) hprotected

end Policy

namespace Patch

variable {policy : Policy} {d e f : Value} {first second : List Operation}

/-! ## 2. Runs over two lists of operations -/

theorem Chain.append (h : Chain policy d first e) (h' : Chain policy e second f) :
    Chain policy d (first ++ second) f := by
  induction h with
  | nil d => exact h'
  | cons checked applied _ ih => exact .cons checked applied (ih h')

/-- The positions of the operations are only reported, they decide nothing. -/
theorem applyAll_eq_ok_congr {ops : List Operation} (m n : Nat) :
    applyAll m d ops = .ok e ↔ applyAll n d ops = .ok e := by
  induction ops generalizing d m n with
  | nil => exact Iff.rfl
  | cons op ops ih =>
    unfold applyAll
    cases op.apply d with
    | ok d' => exact ih (m + 1) (n + 1)
    | error fault => constructor <;> intro h <;> cases h

/-- All operations of two lists are carried out exactly when those of the first are and those of the
second are on what the first left. -/
theorem applyAll_append_eq_ok (n : Nat) :
    applyAll n d (first ++ second) = .ok f ↔
      ∃ e, applyAll n d first = .ok e ∧ applyAll n e second = .ok f := by
  induction first generalizing d n with
  | nil =>
    constructor
    · exact fun h => ⟨d, rfl, h⟩
    · rintro ⟨e, h, h'⟩
      obtain rfl : d = e := by simpa [applyAll] using h
      exact h'
  | cons op ops ih =>
    rw [List.cons_append, applyAll, applyAll]
    cases op.apply d with
    | ok d' =>
      dsimp only
      rw [ih (n + 1)]
      exact exists_congr fun e => and_congr_right fun _ => applyAll_eq_ok_congr (n + 1) n
    | error fault =>
      constructor
      · intro h
        cases h
      · rintro ⟨e, h, -⟩
        cases h

/-! ## 3. Patches -/

/-- The patch is accepted and leaves the second document. -/
def Yields (policy : Option Policy) (d : Value) (ops : List Operation) (e : Value) : Prop :=
  (apply policy d ops).applied = true ∧ (apply policy d ops).document = e

theorem yields_under_iff {ops : List Operation} :
    Yields (some policy) d ops e ↔ Chain policy d ops e ∧ policy.checkDocuments d e = [] :=
  applyUnder_iff

theorem yields_freely_iff {ops : List Operation} :
    Yields none d ops e ↔ applyAll 0 d ops = .ok e := by
  unfold Yields Patch.apply
  obtain ⟨happlied, hall⟩ | ⟨happlied, s, hall⟩ := @applyFreely_eq d ops
  · rw [happlied, hall, Except.ok.injEq]
    exact and_iff_right rfl
  · rw [happlied, hall]
    exact ⟨nofun, nofun⟩

/-- Patches compose: two patches that are accepted one after another are accepted as one, with the
same result, and without a policy only such two make up a patch that is accepted. -/
theorem yields_append (d : Value) (first second : List Operation) :
    (∀ policy e f, Yields (some policy) d first e → Yields (some policy) e second f →
        Yields (some policy) d (first ++ second) f) ∧
      ∀ f, Yields none d (first ++ second) f ↔
        ∃ e, Yields none d first e ∧ Yields none e second f := by
  constructor
  · intro policy e f hfirst hsecond
    obtain ⟨hchain, hdocuments⟩ := yields_under_iff.1 hfirst
    obtain ⟨hchain', hdocuments'⟩ := yields_under_iff.1 hsecond
    exact yields_under_iff.2
      ⟨hchain.append hchain', Policy.checkDocuments_trans hdocuments hdocuments'⟩
  · intro f
    simp only [yields_freely_iff]
    exact applyAll_append_eq_ok 0

/-- More tabs than the default policy lets a dashboard come to, one of them protected. -/
def crowdedDashboard : Value :=
  .obj [("tenant_id", .ofInt 7), ("funnel", .obj [("stages", .arr [])]),
    ("tabs", .ofStrings ["Details", "Sales", "Costs", "Leads", "Plan", "Goals", "Notes", "More"])]

/-- The tabs change places and one of them goes. -/
def reordering : List Operation :=
  [⟨.move, "/tabs/0", .null, some "/tabs/2"⟩, ⟨.remove, "/tabs/7", .null, none⟩]

/-- The first stage of the funnel. -/
def staging : List Operation := [⟨.add, "/funnel/stages/-", .str "Leads", none⟩]

def reorderedDashboard : Value :=
  .obj [("tenant_id", .ofInt 7), ("funnel", .obj [("stages", .ofStrings ["Leads"])]),
    ("tabs", .ofStrings ["Costs", "Details", "Sales", "Leads", "Plan", "Goals", "Notes"])]

/-- Both patches after each other are accepted as one under the default policy, and without a policy
the one is accepted as both. -/
theorem yields_append_reordering :
    Yields (some .default) crowdedDashboard (reordering ++ staging) reorderedDashboard ∧
      ∃ e, Yields none crowdedDashboard reordering e ∧ Yields none e staging reorderedDashboard := by
  obtain ⟨together, apart⟩ := yields_append crowdedDashboard reordering staging
  exact ⟨together _ _ _ ⟨rfl, rfl⟩ ⟨rfl, rfl⟩, (apart _).1 ⟨rfl, rfl⟩⟩

end Patch

end Dashboards
