import Dashboards.Proofs.Patch.Chain
import Dashboards.Proofs.Patch.Frames

/-!
# Operations below different members

An operation that is neither a move nor a copy has one pointer.  Below a member of an object it sees
nothing but the member, and it leaves the other members as they are.  So of two operations below
different members of one object neither has to do with whether the other can be carried out, and in
either order they leave the same document, up to the order of members.
-/

namespace Dashboards

namespace Patch

open Value (Frame Reordered)

variable {leaf : String → Value → Except Fault Value} {p : Pointer} {d : Value}

/-! ## 1. Steps that see one member -/

/-- A step along keys that depends, in a frame, on what is in the hole, and in an object on the
member under the first key, the only one that it can change. -/
structure Local (run : List String → Value → Attempt) : Prop where
  frame : ∀ {s : List String} {f : Value → Value} {c : Value} (k : String) (r : List String),
    Frame s f → c.isCollection = true →
      run (s ++ k :: r) (f c) = ⟨f (run (k :: r) c).document, (run (k :: r) c).fault⟩
  member : ∀ (k : String) (r : List String) (o : Option Value), ∃ o' fault,
    ∀ ms : Members Value, ms.get? k = o → run (k :: r) (.obj ms) = ⟨.obj (ms.put k o'), fault⟩

theorem local_descend (hleaf : SetsMember leaf) : Local fun keys d => descend leaf p d keys := by
  refine ⟨fun k r hf hc => descend_frame hf hc k r, fun k r o => ?_⟩
  cases r with
  | nil =>
    obtain ⟨v, hset⟩ := hleaf
    refine ⟨some v, none, fun ms _ => ?_⟩
    rw [descend, hset]
    rfl
  | cons next rest =>
    -- The walk goes on in the member, or in what is made where there is none.
    obtain ⟨entry, hentry⟩ : ∃ entry, ∀ ms : Members Value, ms.get? k = o →
        entryFor ms k next = entry := by
      unfold entryFor
      exact ⟨_, fun ms hget => by rw [hget]⟩
    cases entry with
    | error fault =>
      refine ⟨o, some fault, fun ms hget => ?_⟩
      rw [descend_obj, hentry ms hget, ← hget, Members.put_get?]
    | ok x =>
      refine ⟨some (descend leaf p x (next :: rest)).document,
        (descend leaf p x (next :: rest)).fault, fun ms hget => ?_⟩
      rw [descend_obj, hentry ms hget]
      rfl

theorem remove_eq (hp : p.isRoot = false) (d : Value) :
    remove p d = (d.overlongAt? p.keys).elim (.done (eraseAt d p.keys)) fun digits =>
      ⟨d, some (.overlongIndex digits)⟩ := by
  rw [remove, if_neg (by simp [hp])]
  cases d.overlongAt? p.keys <;> rfl

theorem local_remove : Local fun keys d =>
    (d.overlongAt? keys).elim (.done (eraseAt d keys)) fun digits =>
      ⟨d, some (.overlongIndex digits)⟩ := by
  refine ⟨fun {s f c} k r hf _ => ?_, fun k r o => ?_⟩
  · rw [hf.overlongAt?_append, eraseAt_frame hf]
    cases c.overlongAt? (k :: r) <;> rfl
  · cases o with
    | none =>
      -- There is nothing to remove, and no index to be read.
      refine ⟨none, none, fun ms hget => ?_⟩
      have herase : eraseAt (.obj ms) (k :: r) = .obj (ms.erase k) := by
        cases r with
        | nil => rfl
        | cons next rest => rw [eraseAt_obj, hget, Members.erase_of_get?_none hget]
      rw [Value.overlongAt?, hget, herase]
      rfl
    | some x =>
      cases hlong : x.overlongAt? r with
      | some digits =>
        refine ⟨some x, some (.overlongIndex digits), fun ms hget => ?_⟩
        rw [Value.overlongAt?, hget, Option.bind_some, hlong, ← hget, Members.put_get?]
        rfl
      | none =>
        cases r with
        | nil =>
          refine ⟨none, none, fun ms hget => ?_⟩
          rw [Value.overlongAt?, hget, Option.bind_some, hlong]
          rfl
        | cons next rest =>
          refine ⟨some (eraseAt x (next :: rest)), none, fun ms hget => ?_⟩
          rw [Value.overlongAt?, hget, Option.bind_some, hlong, eraseAt_obj, hget]
          rfl

/-- What becomes of a test, by what the pointer resolves to. -/
def testFault (p : Pointer) (expected : Value) : Except Fault (Option Value) → Option Fault
  | .error fault => some fault
  | .ok none => some (.testMissing p)
  | .ok (some v) => if v.jsonEqual expected then none else some (.testMismatch p)

theorem test_eq (p : Pointer) (expected d : Value) :
    test p expected d = ⟨d, testFault p expected (valueAt p d)⟩ := by
  rw [test]
  cases valueAt p d with
  | error fault => rfl
  | ok found =>
    cases found with
    | none => rfl
    | some v =>
      dsimp only [withResult, testFault]
      split <;> rfl

theorem local_test (p : Pointer) (expected : Value) :
    Local fun keys d => ⟨d, testFault p expected (valueAt ⟨keys⟩ d)⟩ := by
  refine ⟨fun {s f c} k r hf _ => ?_, fun k r o => ?_⟩
  · have hat : valueAt ⟨s ++ k :: r⟩ (f c) = valueAt ⟨k :: r⟩ c := by
      rw [valueAt, valueAt, Value.resolve?, Value.resolve?, hf.overlongAt?_append, hf.at?_append]
    rw [hat]
  · obtain ⟨found, hfound⟩ : ∃ found, ∀ ms : Members Value, ms.get? k = o →
        valueAt ⟨k :: r⟩ (.obj ms) = found := by
      unfold valueAt Value.resolve?
      exact ⟨_, fun ms hget => by rw [Value.overlongAt?, Value.at?_obj, hget]⟩
    refine ⟨o, testFault p expected found, fun ms hget => ?_⟩
    rw [hfound ms hget, ← hget, Members.put_get?]

/-- An operation with one pointer, as a step along the keys of the pointer. -/
theorem exists_local {op : Operation} (hverb : op.verb ∈ [Verb.add, .replace, .remove, .test])
    (hpath : pointer op.path = .ok p) (hp : p.isRoot = false) :
    ∃ run, Local run ∧ ∀ d, op.attempt d = run p.keys d := by
  have hroot : ¬ p.isRoot = true := by simp [hp]
  obtain ⟨verb, path, value, source⟩ := op
  change pointer path = .ok p at hpath
  unfold Operation.attempt
  rw [hpath]
  cases verb with
  | add =>
    exact ⟨_, local_descend (p := p) (setsMember_insertInto p value), fun d => if_neg hroot⟩
  | replace =>
    exact ⟨_, local_descend (p := p) (setsMember_overwriteIn p value), fun d => if_neg hroot⟩
  | remove => exact ⟨_, local_remove, remove_eq hp⟩
  | test => exact ⟨_, local_test p value, test_eq p value⟩
  | move => simp at hverb
  | copy => simp at hverb

/-! ## 2. One step after the other -/

variable {run₁ run₂ : List String → Value → Attempt} {f : Value → Value} {s : List String}
  {k₁ k₂ : String}

/-- A step meets the same fault after a step below another member, and the two leave the same
document in either order. -/
theorem Local.comm (h₁ : Local run₁) (h₂ : Local run₂) (hf : Frame s f) (hne : k₁ ≠ k₂)
    (r₁ r₂ : List String) (ms : Members Value) :
    let first := run₁ (s ++ k₁ :: r₁) (f (.obj ms))
    let second := run₂ (s ++ k₂ :: r₂) (f (.obj ms))
    (run₁ (s ++ k₁ :: r₁) second.document).fault = first.fault ∧
      (run₂ (s ++ k₂ :: r₂) first.document).fault = second.fault ∧
      Reordered (run₂ (s ++ k₂ :: r₂) first.document).document
        (run₁ (s ++ k₁ :: r₁) second.document).document := by
  intro first second
  obtain ⟨o₁, fault₁, hrun₁⟩ := h₁.member k₁ r₁ (ms.get? k₁)
  obtain ⟨o₂, fault₂, hrun₂⟩ := h₂.member k₂ r₂ (ms.get? k₂)
  have hfirst : first = ⟨f (.obj (ms.put k₁ o₁)), fault₁⟩ := by
    show run₁ _ _ = _
    rw [h₁.frame k₁ r₁ hf rfl, hrun₁ ms rfl]
  have hsecond : second = ⟨f (.obj (ms.put k₂ o₂)), fault₂⟩ := by
    show run₂ _ _ = _
    rw [h₂.frame k₂ r₂ hf rfl, hrun₂ ms rfl]
  -- Each step finds its member as it was, so it does to it what it does first.
  have hget₁ : (ms.put k₂ o₂).get? k₁ = ms.get? k₁ := Members.get?_put_of_ne ms hne o₂
  have hget₂ : (ms.put k₁ o₁).get? k₂ = ms.get? k₂ := Members.get?_put_of_ne ms hne.symm o₁
  rw [hfirst, hsecond, h₁.frame k₁ r₁ hf rfl, h₂.frame k₂ r₂ hf rfl, hrun₁ _ hget₁, hrun₂ _ hget₂]
  exact ⟨rfl, rfl, hf.reordered (.places (Members.perm_put_put ms hne o₁ o₂))⟩

theorem isOk_apply (op : Operation) (d : Value) :
    (op.apply d).isOk = (op.attempt d).fault.isNone := by
  rw [Operation.apply, Attempt.toExcept]
  cases (op.attempt d).fault <;> rfl

theorem keys_of_startsWith {c : Pointer} {k : String}
    (h : p.startsWith ⟨c.keys ++ [k]⟩ = true) : ∃ r, p.keys = c.keys ++ k :: r := by
  obtain ⟨r, hr⟩ := List.isPrefixOf_iff_prefix.1 h
  exact ⟨r, by rw [← hr, List.append_assoc]; rfl⟩

/-! ## 3. Operations -/

variable {c p₁ p₂ : Pointer} {op₁ op₂ : Operation} {ms : Members Value}

/-- Two operations with one pointer each, which lead below different members of one object: each can
be carried out exactly if it can be after the other, whether that came to its end or not, and where
both can be carried out, they leave the same document in either order. -/
theorem apply_comm_of_ne (hc : valueAt c d = .ok (some (.obj ms))) (hne : k₁ ≠ k₂)
    (hverb₁ : op₁.verb ∈ [Verb.add, .replace, .remove, .test])
    (hverb₂ : op₂.verb ∈ [Verb.add, .replace, .remove, .test])
    (hpath₁ : pointer op₁.path = .ok p₁) (hpath₂ : pointer op₂.path = .ok p₂)
    (hbelow₁ : p₁.startsWith ⟨c.keys ++ [k₁]⟩ = true)
    (hbelow₂ : p₂.startsWith ⟨c.keys ++ [k₂]⟩ = true) :
    (op₁.apply (op₂.advance d)).isOk = (op₁.apply d).isOk ∧
      (op₂.apply (op₁.advance d)).isOk = (op₂.apply d).isOk ∧
      ∀ e₁ e₂, op₁.apply d = .ok e₁ → op₂.apply d = .ok e₂ →
        ∃ e e', op₂.apply e₁ = .ok e ∧ op₁.apply e₂ = .ok e' ∧ Reordered e e' := by
  obtain ⟨r₁, hkeys₁⟩ := keys_of_startsWith hbelow₁
  obtain ⟨r₂, hkeys₂⟩ := keys_of_startsWith hbelow₂
  obtain ⟨run₁, hlocal₁, hattempt₁⟩ := exists_local hverb₁ hpath₁ (isRoot_of_keys hkeys₁)
  obtain ⟨run₂, hlocal₂, hattempt₂⟩ := exists_local hverb₂ hpath₂ (isRoot_of_keys hkeys₂)
  rw [hkeys₁] at hattempt₁
  rw [hkeys₂] at hattempt₂
  obtain ⟨f, hf, rfl⟩ := exists_frame_of_valueAt hc
  obtain ⟨hfault₁, hfault₂, hreordered⟩ := hlocal₁.comm hlocal₂ hf hne r₁ r₂ ms
  simp only [← hattempt₁, ← hattempt₂] at hfault₁ hfault₂ hreordered
  refine ⟨?_, ?_, fun e₁ e₂ h₁ h₂ => ?_⟩
  · rw [isOk_apply, isOk_apply, Operation.advance, hfault₁]
  · rw [isOk_apply, isOk_apply, Operation.advance, hfault₂]
  · rw [Operation.apply_eq_ok_iff] at h₁ h₂
    rw [h₁, h₂] at hfault₁ hfault₂ hreordered
    refine ⟨_, _, Operation.apply_eq_ok_iff.2 ?_, Operation.apply_eq_ok_iff.2 ?_, hreordered⟩
    · exact congrArg (Attempt.mk _) hfault₂
    · exact congrArg (Attempt.mk _) hfault₁

/-- Two sections that are not there yet are made in either order; the later one stands behind. -/
theorem apply_comm_of_ne_sections :
    let ui : Members Value → Value := fun ms => .obj [("ui", .obj ms)]
    let tab : Operation := ⟨.add, "/ui/tabs/-", .str "Leads", none⟩
    let color : Operation := ⟨.add, "/ui/theme/color", .str "red", none⟩
    let tabs : String × Value := ("tabs", .arr [.str "Leads"])
    let theme : String × Value := ("theme", .obj [("color", .str "red")])
    tab.apply (ui []) = .ok (ui [tabs]) ∧ color.apply (ui []) = .ok (ui [theme]) ∧
      ∃ e e', color.apply (ui [tabs]) = .ok e ∧ tab.apply (ui [theme]) = .ok e' ∧
        Reordered e e' := by
  intro ui tab color tabs theme
  have hpath₁ : pointer tab.path = .ok ⟨["ui", "tabs", "-"]⟩ := by decide +kernel
  have hpath₂ : pointer color.path = .ok ⟨["ui", "theme", "color"]⟩ := by decide +kernel
  have htab : tab.apply (ui []) = .ok (ui [tabs]) := by
    rw [Operation.apply, Operation.attempt, hpath₁]
    rfl
  have hcolor : color.apply (ui []) = .ok (ui [theme]) := by
    rw [Operation.apply, Operation.attempt, hpath₂]
    rfl
  have hui : valueAt ⟨["ui"]⟩ (ui []) = .ok (some (.obj [])) := rfl
  have hne : "tabs" ≠ "theme" := by decide
  obtain ⟨-, -, hcomm⟩ := apply_comm_of_ne hui hne (by decide) (by decide) hpath₁ hpath₂
    (by decide) (by decide)
  exact ⟨htab, hcolor, hcomm _ _ htab hcolor⟩

end Patch

end Dashboards
