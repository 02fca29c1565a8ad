import Dashboards.Policy.Check
import Dashboards.Proofs.Pointer.Text

/-!
# Blocked sections and the texts of paths

Whether a path lies in a blocked section is decided on keys.  It can be told from the texts as well:
the path is the text of a blocked section or goes on below it with a slash.  Texts that are no
pointers block nothing, and what is allowed makes no difference.
-/

namespace Dashboards

namespace Policy

variable {policy : Policy} {path : String} {p : Pointer}

theorem mem_parsedPaths {paths : List String} :
    p ∈ parsedPaths paths ↔ ∃ b ∈ paths, Pointer.parse b = .ok p := by
  have hok : ∀ b, (Pointer.parse b).toOption = some p ↔ Pointer.parse b = .ok p := by
    intro b
    cases Pointer.parse b <;> simp [Except.toOption]
  simp only [parsedPaths, List.mem_filterMap, hok]

/-- The answer that a path is forbidden is given for the paths in blocked sections, and for no
others. -/
theorem code_classify_eq_forbidden_iff (hpath : Pointer.parse path = .ok p) :
    (policy.classify path).map (·.code) = some .pathForbidden ↔
      ∃ b ∈ policy.blocked, p.startsWith b = true := by
  unfold classify
  rw [hpath]
  dsimp only
  cases hfind : policy.blocked.find? p.startsWith with
  | some b =>
    have hb := List.find?_some hfind
    exact ⟨fun _ => ⟨b, List.mem_of_find?_eq_some hfind, hb⟩, fun _ => rfl⟩
  | none =>
    constructor
    · intro h
      dsimp only at h
      split at h <;> cases h
    · rintro ⟨b, hmem, hb⟩
      exact absurd hb (List.find?_eq_none.1 hfind b hmem)

/-- Keys and texts agree on what lies below what.  So a path is forbidden exactly if it is the text of
a blocked section or goes on below one, where the slash alone is not among the sections; whatever is
allowed, and in whatever order the sections are given. -/
theorem forbidden_iff_under :
    (∀ t u p q, Pointer.parse t = .ok p → Pointer.parse u = .ok q → u ≠ "/" →
        (p.startsWith q = true ↔ Pointer.Under t u)) ∧
      ∀ policy : Policy, "/" ∉ policy.blockedPaths → ∀ path p, Pointer.parse path = .ok p →
        ((policy.classify path).map (·.code) = some .pathForbidden ↔
          ∃ b ∈ policy.blockedPaths, (∃ q, Pointer.parse b = .ok q) ∧ Pointer.Under path b) := by
  refine ⟨fun t u p q => Pointer.startsWith_iff_under, fun policy hroot path p hpath => ?_⟩
  rw [code_classify_eq_forbidden_iff hpath]
  constructor
  · rintro ⟨q, hq, hstarts⟩
    obtain ⟨b, hb, hparse⟩ := mem_parsedPaths.1 hq
    have hne : b ≠ "/" := fun h => hroot (h ▸ hb)
    exact ⟨b, hb, ⟨q, hparse⟩, (Pointer.startsWith_iff_under hpath hparse hne).1 hstarts⟩
  · rintro ⟨b, hb, ⟨q, hparse⟩, hunder⟩
    have hne : b ≠ "/" := fun h => hroot (h ▸ hb)
    exact ⟨q, mem_parsedPaths.2 ⟨b, hb, hparse⟩,
      (Pointer.startsWith_iff_under hpath hparse hne).2 hunder⟩

example : (Policy.default.classify "/tenant_id/x").map (·.code) = some .pathForbidden ∧
    (Policy.default.classify "/tenant_idx").map (·.code) = some .pathNotAllowed := by
  decide +kernel

end Policy

end Dashboards
