import Dashboards.Proofs.Json.Strictness
import Dashboards.Proofs.Patch.Chain
import Dashboards.Proofs.Policy.Documents

/-!
# Blocked sections under accepted patches

An accepted patch leaves the blocked sections as they are, up to the equality of the check that
compares the documents.  To this equality a boolean is the number that it counts as.
-/

namespace Dashboards

namespace Patch

/-- A blocked section is there after an accepted patch if it was there before.  Its value is loosely
equal to the one before, and equal to it if the booleans in it are at the same places. -/
theorem blocked_unchanged_of_applied {policy : Policy} {d : Value} {ops : List Operation}
    {p : Pointer} (hp : p ∈ policy.blocked) (hd : d.Orderly (·.isNaN = false))
    (happlied : (apply (some policy) d ops).applied = true) :
    (d.resolve? p).isSome = ((apply (some policy) d ops).document.resolve? p).isSome ∧
      ∀ v w, d.resolve? p = some v → (apply (some policy) d ops).document.resolve? p = some w →
        v.looseEqual w = true ∧ (v.jsonEqual w = true ↔ v.SameBooleans w) := by
  obtain ⟨-, hdocuments⟩ := applyUnder_iff.1 ⟨happlied, rfl⟩
  obtain ⟨hsections, -, -⟩ := Policy.checkDocuments_eq_nil_iff.1 hdocuments
  obtain ⟨-, -, hsame⟩ := Policy.sectionObjection_eq_none_iff.1 (hsections p hp)
  change Value.sameAt p d (apply (some policy) d ops).document = true at hsame
  unfold Value.sameAt at hsame
  constructor
  · split at hsame
    · rename_i hv hw
      rw [hv, hw]
      rfl
    · rename_i hv hw
      rw [hv, hw]
    · cases hsame
  · intro v w hv hw
    rw [hv, hw] at hsame
    refine ⟨hsame, ?_⟩
    rw [Value.jsonEqual_iff (hd.at? hv)]
    exact and_iff_right hsame

/-- A document with two blocked sections, the number of a tenant and its credentials. -/
def credentialed (tenant flag : Value) : Value :=
  .obj [("tenant_id", tenant), ("credentials", .obj [("ports", .arr [.ofInt 80, flag])])]

theorem orderly_credentialed :
    (credentialed (.ofInt 1) (.bool true)).Orderly (·.isNaN = false) := by
  simp [credentialed, Value.Orderly, Value.OrderlyMembers, Value.OrderlyItems, Value.ofInt,
    Members.keys, Number.isNaN, Number.exact]

/-- The document is written anew, with a float for the number of the tenant. -/
def rewriting : List Operation :=
  [⟨.replace, "", credentialed (.ofFloat 1.0) (.bool true), none⟩]

theorem blocked_unchanged_rewriting :
    (apply (some .default) (credentialed (.ofInt 1) (.bool true)) rewriting).applied = true ∧
      ∀ v w, (credentialed (.ofInt 1) (.bool true)).resolve? ⟨["tenant_id"]⟩ = some v →
        (apply (some .default) (credentialed (.ofInt 1) (.bool true)) rewriting).document.resolve?
            ⟨["tenant_id"]⟩ = some w →
          v.looseEqual w = true ∧ (v.jsonEqual w = true ↔ v.SameBooleans w) := by
  have applied : (apply (some .default) (credentialed (.ofInt 1) (.bool true))
      rewriting).applied = true := by
    decide +kernel
  exact ⟨applied, (blocked_unchanged_of_applied (by decide +kernel) orderly_credentialed applied).2⟩

/-- A boolean can take the place of a number in a blocked section, as the section or inside of it. -/
theorem blocked_changed_by_booleans :
    (apply (some .default) (credentialed (.ofInt 1) (.ofInt 0))
        [⟨.replace, "", credentialed (.bool true) (.bool false), none⟩]).applied = true ∧
      ∀ key ∈ ["tenant_id", "credentials"], ⟨[key]⟩ ∈ Policy.default.blocked ∧
        ∃ v w, (credentialed (.ofInt 1) (.ofInt 0)).resolve? ⟨[key]⟩ = some v ∧
          (apply (some .default) (credentialed (.ofInt 1) (.ofInt 0))
            [⟨.replace, "", credentialed (.bool true) (.bool false), none⟩]).document.resolve?
              ⟨[key]⟩ = some w ∧ v.jsonEqual w = false := by
  refine ⟨by decide +kernel, fun key hkey => ?_⟩
  simp only [List.mem_cons, List.not_mem_nil, or_false] at hkey
  rcases hkey with rfl | rfl <;>
    exact ⟨by decide +kernel, _, _, rfl, rfl, by decide +kernel⟩

end Patch

end Dashboards
