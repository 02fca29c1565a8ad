import Dashboards.Patch.Run

/-!
# What the policy objects to

A patch is refused for what it does, never for the version it was made for: no check of an operation
or of two documents, and no operation that cannot be carried out, raises the issue of a stale version.
And a patch that is refused is refused with an issue.
-/

namespace Dashboards

/-- An objection to something else than the version that a patch was made for. -/
def Objection.Timeless (o : Objection) : Prop := ∀ expected actual, o ≠ .staleVersion expected actual

/-- The version is the only thing whose objections report a conflict of versions. -/
theorem Objection.Timeless.code_ne {o : Objection} (h : o.Timeless) : o.code ≠ .versionConflict := by
  cases o with
  | staleVersion expected actual => exact absurd rfl (h expected actual)
  | fault f => cases f <;> exact nofun
  | _ => exact nofun

namespace Policy

variable {policy : Policy} {path : String} {doc value : Value} {o : Objection}

/-! ## 1. Paths and guardrails -/

theorem timeless_of_classify (h : policy.classify path = some o) : o.Timeless := by
  unfold classify at h
  split at h
  · cases h
    exact nofun
  · split at h
    · cases h
      exact nofun
    · split at h <;> cases h
      exact nofun

/-- What a guardrail finds, it finds at the keys of a path that is a pointer. -/
theorem exists_keys_of_bind {find : List String → Option Objection}
    (h : (keys? path >>= find) = some o) : ∃ keys, find keys = some o := by
  obtain ⟨keys, -, hfind⟩ := Option.bind_eq_some_iff.1 h
  exact ⟨keys, hfind⟩

theorem timeless_of_addGuardrail (h : policy.addGuardrail path doc value = some o) : o.Timeless := by
  obtain ⟨keys, h⟩ := exists_keys_of_bind h
  split at h
  · split at h
    · cases h
      exact nofun
    · split at h <;> cases h
      exact nofun
  · split at h
    · split at h <;> cases h
      exact nofun
    · cases h

theorem timeless_of_removalObjection {keys : List String} {holder : Collection}
    (h : policy.removalObjection path keys doc holder = some o) : o.Timeless := by
  unfold removalObjection at h
  split at h
  · split at h
    · cases h
      exact nofun
    · cases h
    · split at h
      · cases h
        exact nofun
      · split at h
        · split at h <;> cases h
          exact nofun
        · cases h
  · split at h
    · dsimp only at h
      split at h
      · cases h
        exact nofun
      · split at h <;> cases h
        exact nofun
    · cases h

theorem timeless_of_removeGuardrail (h : policy.removeGuardrail path doc = some o) : o.Timeless := by
  obtain ⟨keys, h⟩ := exists_keys_of_bind h
  obtain ⟨holder, -, hholder⟩ := List.exists_of_findSome?_eq_some h
  exact timeless_of_removalObjection hholder

theorem timeless_of_overwriteGuardrail {inserting : Bool}
    (h : policy.overwriteGuardrail path doc value inserting = some o) : o.Timeless := by
  obtain ⟨keys, h⟩ := exists_keys_of_bind h
  obtain ⟨holder, -, h⟩ := List.exists_of_findSome?_eq_some h
  unfold overwriteObjection at h
  dsimp only at h
  split at h
  · cases h
    rintro - - ⟨⟩
  · obtain ⟨name, -, rfl⟩ := Option.map_eq_some_iff.1 h
    rintro - - ⟨⟩

/-! ## 2. Operations -/

/-- The objections that are listed at a path are those that were found there. -/
theorem mem_listed {found : Option Objection} {m : Objection × String}
    (h : m ∈ (found.map (·, path)).toList) : found = some m.1 := by
  obtain ⟨o, ho, rfl⟩ := Option.map_eq_some_iff.1 (Option.mem_toList.1 h)
  exact ho

theorem timeless_of_mem_pathObjections {op : Operation} {m : Objection × String}
    (h : m ∈ policy.pathObjections op) : m.1.Timeless := by
  have refused : ∀ path, m ∈ ((policy.classify path).map (·, path)).toList → m.1.Timeless :=
    fun path hm => timeless_of_classify (mem_listed hm)
  unfold pathObjections at h
  dsimp only at h
  split at h
  · obtain rfl | hm := List.mem_cons.1 h
    · exact nofun
    · exact refused _ hm
  · obtain rfl | hm := List.mem_cons.1 h
    · exact nofun
    · exact refused _ hm
  · exact (List.mem_append.1 h).elim (refused _) (refused _)
  · exact (List.mem_append.1 h).elim (refused _) (refused _)
  · exact refused _ h

theorem timeless_of_mem_guardrailObjections {op : Operation} {m : Objection × String}
    (h : m ∈ policy.guardrailObjections op doc) : m.1.Timeless := by
  have adding : ∀ path value, m ∈ ((policy.addGuardrail path doc value).map (·, path)).toList →
      m.1.Timeless := fun _ _ hm => timeless_of_addGuardrail (mem_listed hm)
  have overwriting : ∀ path value inserting,
      m ∈ ((policy.overwriteGuardrail path doc value inserting).map (·, path)).toList →
      m.1.Timeless := fun _ _ _ hm => timeless_of_overwriteGuardrail (mem_listed hm)
  have removing : ∀ path, m ∈ ((policy.removeGuardrail path doc).map (·, path)).toList →
      m.1.Timeless := fun _ hm => timeless_of_removeGuardrail (mem_listed hm)
  have unread : ∀ (digits : Option Nat) (path : String),
      m ∈ (((digits.map Objection.overlongIndex)).map (·, path)).toList → m.1.Timeless := by
    intro digits path hm
    obtain ⟨n, -, hn⟩ := Option.map_eq_some_iff.1 (mem_listed hm)
    rw [← hn]
    exact nofun
  unfold guardrailObjections at h
  dsimp only at h
  split at h
  · exact (List.mem_append.1 h).elim (adding _ _) (overwriting _ _ _)
  · rcases List.mem_append.1 h with hm | hm
    · split at hm
      · exact adding _ _ hm
      · cases hm
    · exact overwriting _ _ _ hm
  · exact removing _ h
  · split at h
    · cases h
    · rcases List.mem_append.1 h with hm | hm
      · exact (List.mem_append.1 hm).elim (removing _) (unread _ _)
      · exact adding _ _ hm
  · exact (List.mem_append.1 h).elim (unread _ _) (adding _ _)
  · cases h

theorem timeless_of_mem_checkOperation {op : Operation} {position : Option Nat} {i : Issue}
    (h : i ∈ policy.checkOperation op doc position) : i.objection.Timeless := by
  obtain ⟨m, hm, rfl⟩ := List.mem_map.1 h
  split at hm
  · exact timeless_of_mem_guardrailObjections hm
  · exact timeless_of_mem_pathObjections hm

theorem timeless_of_mem_checkInTurn {position : Nat} {ops : List Operation} {i : Issue}
    (h : i ∈ policy.checkInTurn position doc ops) : i.objection.Timeless := by
  induction ops generalizing position doc with
  | nil => cases h
  | cons op ops ih =>
    rw [checkInTurn, List.mem_append, List.mem_append] at h
    obtain (h | h) | h := h
    · exact timeless_of_mem_checkOperation h
    · unfold unfinished at h
      split at h
      · split at h
        · obtain rfl := List.mem_singleton.1 h
          exact nofun
        · cases h
      · cases h
    · exact ih h

/-! ## 3. Documents and patches -/

theorem timeless_of_mem_checkDocuments {before after : Value} {i : Issue}
    (h : i ∈ policy.checkDocuments before after) : i.objection.Timeless := by
  unfold checkDocuments at h
  rw [List.mem_append, List.mem_append] at h
  obtain (h | h) | h := h
  · obtain ⟨p, -, hp⟩ := List.mem_filterMap.1 h
    obtain ⟨o, ho, rfl⟩ := Option.map_eq_some_iff.1 hp
    unfold sectionObjection at ho
    split at ho
    · cases ho
      rintro - - ⟨⟩
    · split at ho
      · split at ho <;> cases ho
        rintro - - ⟨⟩
      · cases ho
      · cases ho
        rintro - - ⟨⟩
  · obtain ⟨c, -, hc⟩ := List.mem_filterMap.1 h
    dsimp only at hc
    split at hc <;> cases hc
    rintro - - ⟨⟩
  · obtain ⟨name, -, rfl⟩ := List.mem_map.1 h
    rintro - - ⟨⟩

end Policy

namespace Patch

variable {policy : Policy} {doc : Value} {ops : List Operation}

/-- A patch that is not applied has issues, and none of them is about its version. -/
theorem issues_of_not_applied (h : (applyUnder policy doc ops).applied = false) :
    (applyUnder policy doc ops).issues ≠ [] ∧
      ∀ i ∈ (applyUnder policy doc ops).issues, i.objection.Timeless := by
  have checked : ∀ i ∈ policy.checkInTurn 0 doc ops, i.objection.Timeless :=
    fun i => Policy.timeless_of_mem_checkInTurn
  unfold applyUnder applyFreely at h ⊢
  cases hcheck : policy.checkInTurn 0 doc ops with
  | cons i is =>
    rw [hcheck] at checked
    exact ⟨List.cons_ne_nil i is, checked⟩
  | nil =>
    rw [hcheck] at h
    cases hall : applyAll 0 doc ops with
    | error s =>
      refine ⟨List.cons_ne_nil _ _, fun i hi => ?_⟩
      obtain rfl := List.mem_singleton.1 hi
      exact nofun
    | ok d =>
      rw [hall] at h
      have compared : ∀ i ∈ policy.checkDocuments doc d, i.objection.Timeless :=
        fun i => Policy.timeless_of_mem_checkDocuments
      dsimp only at h ⊢
      rw [if_pos rfl] at h ⊢
      cases hdocs : policy.checkDocuments doc d with
      | nil =>
        rw [hdocs] at h
        cases h
      | cons i is =>
        rw [hdocs] at compared
        exact ⟨List.cons_ne_nil i is, compared⟩

end Patch

end Dashboards
