import Dashboards.Proofs.Patch.Independence
import Dashboards.Proofs.Patch.Inverses

/-!
# What a failed operation leaves behind

The checks of a patch go on behind an operation that cannot be carried out, with the document as the
operation left it.  That is the document from before, with two exceptions.  A walk to the target makes
the containers that are missing, and it may fail in one that it has made.  And a move takes its source
away before it writes at its target.
-/

namespace Dashboards

namespace Patch

variable {leaf : String → Value → Except Fault Value} {p : Pointer} {d v x : Value} {f : Fault}
  {ms : Members Value} {xs : List Value} {key next : String} {keys rest s : List String}

/-! ## 1. Writes that change nothing -/

theorem set_eq_self_iff (h : ms.get? key = some x) (v : Value) : ms.set key v = ms ↔ v = x := by
  constructor
  · intro heq
    have hself := Members.get?_set_self ms key v
    rw [heq, h] at hself
    exact (Option.some.inj hself).symm
  · rintro rfl
    exact Members.set_of_get? h

theorem setItem_eq_self_iff {i : Nat} (h : xs[i]? = some x) (v : Value) :
    xs.set i v = xs ↔ v = x := by
  obtain ⟨hlt, rfl⟩ := List.getElem?_eq_some_iff.1 h
  constructor
  · intro heq
    have hself := List.getElem?_set_self (a := v) hlt
    rw [heq, h] at hself
    exact (Option.some.inj hself).symm
  · rintro rfl
    exact List.set_getElem_self hlt

/-- A collection that is written in the place of a member that counts as missing is there now. -/
theorem set_ne_self (hmissing : ms.get? key = none ∨ ms.get? key = some .null)
    (hx : x.isCollection = true) : ms.set key x ≠ ms := by
  intro heq
  have hself := Members.get?_set_self ms key x
  rw [heq] at hself
  obtain hnone | hnull := hmissing
  · simp [hnone] at hself
  · rw [hnull] at hself
    cases hself
    cases hx

/-! ## 2. Walks that fail -/

/-- On the way along the keys there is an object without the next member, or with null there, and the
way goes on behind it. -/
def Gap (d : Value) (keys : List String) : Prop :=
  ∃ (s : List String) (k next : String) (rest : List String) (ms : Members Value),
    keys = s ++ k :: next :: rest ∧ d.at? s = some (.obj ms) ∧
      (ms.get? k = none ∨ ms.get? k = some .null)

theorem not_gap_singleton : ¬ Gap d [key] := by
  rintro ⟨s, k, next, rest, ms, hkeys, -⟩
  have hlength := congrArg List.length hkeys
  simp at hlength
  omega

theorem gap_obj_iff :
    Gap (.obj ms) (key :: next :: rest) ↔
      (ms.get? key = none ∨ ms.get? key = some .null) ∨
        ∃ x, ms.get? key = some x ∧ Gap x (next :: rest) := by
  constructor
  · rintro ⟨s, k, next', rest', ns, hkeys, hat, hmissing⟩
    cases s with
    | nil =>
      obtain ⟨rfl, -⟩ := List.cons.inj hkeys
      cases hat
      exact .inl hmissing
    | cons k' s =>
      obtain ⟨rfl, htail⟩ := List.cons.inj hkeys
      obtain ⟨x, hx, hat⟩ := Option.bind_eq_some_iff.1 hat
      exact .inr ⟨x, hx, s, k, next', rest', ns, htail, hat, hmissing⟩
  · rintro (hmissing | ⟨x, hx, s, k, next', rest', ns, hkeys, hat, hmissing⟩)
    · exact ⟨[], key, next, rest, ms, rfl, rfl, hmissing⟩
    · refine ⟨key :: s, k, next', rest', ns, by rw [hkeys]; rfl, ?_, hmissing⟩
      rw [Value.at?_obj, hx]
      exact hat

theorem gap_arr_iff :
    Gap (.arr xs) (key :: next :: rest) ↔
      ∃ i x, indexOf? key = some i ∧ xs[i]? = some x ∧ Gap x (next :: rest) := by
  constructor
  · rintro ⟨s, k, next', rest', ns, hkeys, hat, hmissing⟩
    cases s with
    | nil => cases hat
    | cons k' s =>
      obtain ⟨rfl, htail⟩ := List.cons.inj hkeys
      obtain ⟨x, hx, hat⟩ := Option.bind_eq_some_iff.1 hat
      obtain ⟨i, hi, hx⟩ := Option.bind_eq_some_iff.1 hx
      exact ⟨i, x, hi, hx, s, k, next', rest', ns, htail, hat, hmissing⟩
  · rintro ⟨i, x, hi, hx, s, k, next', rest', ns, hkeys, hat, hmissing⟩
    refine ⟨key :: s, k, next', rest', ns, by rw [hkeys]; rfl, ?_, hmissing⟩
    rw [Value.at?_item hi hx]
    exact hat

theorem not_gap_scalar (hd : d.isCollection = false) : ¬ Gap d (key :: next :: rest) := by
  rintro ⟨s, k, next', rest', ms, -, hat, -⟩
  cases s with
  | nil =>
    cases hat
    cases hd
  | cons k' s => cases d <;> first | cases hat | cases hd

/-- A walk that fails leaves a collection where it found one. -/
theorem isCollection_descend (h : (descend leaf p d keys).fault = some f) :
    (descend leaf p d keys).document.isCollection = d.isCollection := by
  cases keys with
  | nil => cases h
  | cons key keys =>
    cases keys with
    | nil =>
      rw [descend] at h ⊢
      cases hleaf : leaf key d with
      | ok w => rw [hleaf] at h; cases h
      | error g => rfl
    | cons next rest =>
      cases d with
      | obj ms =>
        rw [descend_obj]
        split <;> rfl
      | arr xs =>
        rw [descend_arr]
        split
        · rfl
        · split <;> rfl
      | _ => rw [descend_scalar rfl]

theorem isCollection_of_containerFor (h : containerFor next = .ok x) : x.isCollection = true := by
  obtain rfl | rfl := containerFor_eq_ok h <;> rfl

/-- A container can always be made, unless the bound for indices is met. -/
theorem excess?_of_entryFor (h : entryFor ms key next = .error f) : f.excess? ≠ none := by
  have made : containerFor next = .error f → f.excess? ≠ none := by
    intro h
    unfold containerFor at h
    split at h <;> cases h
    exact Option.some_ne_none _
  unfold entryFor at h
  split at h
  · exact made h
  · exact made h
  · cases h

theorem indexOf?_of_indexIn (h : indexIn p key = .error f) (hf : f.excess? = none) :
    indexOf? key = none := by
  unfold indexIn at h
  split at h <;> cases h
  · cases hf
  · assumption

/-- A walk that fails leaves the document as it was, unless it met a place where it had to make a
container. -/
theorem document_descend_iff (h : (descend leaf p d keys).fault = some f) (hf : f.excess? = none) :
    (descend leaf p d keys).document = d ↔ ¬ Gap d keys := by
  induction keys generalizing d with
  | nil => cases h
  | cons key keys ih =>
    cases keys with
    | nil =>
      rw [descend] at h ⊢
      cases hleaf : leaf key d with
      | ok w => rw [hleaf] at h; cases h
      | error g => exact iff_of_true rfl not_gap_singleton
    | cons next rest =>
      cases d with
      | obj ms =>
        rw [gap_obj_iff]
        rw [descend_obj] at h ⊢
        cases hentry : entryFor ms key next with
        | error g =>
          rw [hentry] at h
          cases h
          exact absurd hf (excess?_of_entryFor hentry)
        | ok x =>
          rw [hentry] at h
          dsimp only at h ⊢
          rw [Value.obj.injEq]
          obtain hx | ⟨hmissing, hx⟩ := entryFor_eq_ok hentry
          · -- The walk goes on in a member, and leaves what it leaves of the member.
            have hnull : x ≠ .null := by
              rintro rfl
              rw [entryFor, hx] at hentry
              cases isCollection_of_containerFor hentry
            rw [set_eq_self_iff hx, ih h]
            simp [hx, hnull]
          · -- The walk goes on in a container that it has made, which is there now, empty or not.
            have hmade := (isCollection_descend h).trans (isCollection_of_containerFor hx)
            exact iff_of_false (set_ne_self hmissing hmade) (not_not_intro (.inl hmissing))
      | arr xs =>
        rw [gap_arr_iff]
        rw [descend_arr] at h ⊢
        cases hindex : indexIn p key with
        | error g =>
          rw [hindex] at h
          cases h
          simp [indexOf?_of_indexIn hindex hf]
        | ok i =>
          have hi := indexIn_eq_ok hindex
          rw [hindex] at h
          dsimp only at h ⊢
          cases hx : xs[i]? with
          | none => simp [hi, hx]
          | some x =>
            rw [hx] at h
            dsimp only at h ⊢
            rw [Value.arr.injEq, setItem_eq_self_iff hx, ih h]
            simp [hi, hx]
      | _ => exact iff_of_true (by rw [descend_scalar rfl]) (not_gap_scalar rfl)

/-! ## 3. Removals -/

/-- A removal where there is something leaves another document. -/
theorem eraseAt_ne (h : d.at? s = some x) (hs : s ≠ []) : eraseAt d s ≠ d := by
  induction s generalizing d with
  | nil => exact absurd rfl hs
  | cons key s ih =>
    intro heq
    cases d with
    | obj ms =>
      obtain ⟨y, hy, hrest⟩ := Option.bind_eq_some_iff.1 h
      cases s with
      | nil =>
        have hgone := Members.get?_erase_self ms key
        rw [Value.obj.inj heq, hy] at hgone
        cases hgone
      | cons next rest =>
        rw [eraseAt_obj, hy] at heq
        exact ih hrest (List.cons_ne_nil _ _) ((set_eq_self_iff hy _).1 (Value.obj.inj heq))
    | arr xs =>
      obtain ⟨y, hy, hrest⟩ := Option.bind_eq_some_iff.1 h
      obtain ⟨i, hi, hget⟩ := Option.bind_eq_some_iff.1 hy
      cases s with
      | nil =>
        -- The array is shorter by one item.
        rw [eraseAt, hi] at heq
        have hlength := congrArg List.length (Value.arr.inj heq)
        have hlt := (List.getElem?_eq_some_iff.1 hget).1
        rw [List.length_eraseIdx_of_lt hlt] at hlength
        omega
      | cons next rest =>
        rw [eraseAt, hi, Option.bind_some, hget] at heq
        exact ih hrest (List.cons_ne_nil _ _) ((setItem_eq_self_iff hget _).1 (Value.arr.inj heq))
    | _ => cases h

/-- A removal that fails has done nothing. -/
theorem document_remove (h : (remove p d).fault = some f) : (remove p d).document = d := by
  unfold remove at h ⊢
  by_cases hroot : p.isRoot
  · rw [if_pos hroot]
  · rw [if_neg hroot] at h ⊢
    cases hlong : d.overlongAt? p.keys with
    | some digits => rfl
    | none => rw [hlong] at h; cases h

theorem remove_of_valueAt (h : valueAt p d = .ok (some v)) (hp : p.keys ≠ []) :
    remove p d = .done (eraseAt d p.keys) := by
  unfold valueAt at h
  rw [remove, if_neg (by simpa [Pointer.isRoot] using hp)]
  cases hlong : d.overlongAt? p.keys with
  | some digits => rw [hlong] at h; cases h
  | none => rfl

/-! ## 4. Operations that fail -/

/-- Additions and replacements are walks, except at the root, where neither fails. -/
theorem document_write_iff
    (h : (if p.isRoot then .done v else descend leaf p d p.keys : Attempt).fault = some f)
    (hf : f.excess? = none) :
    (if p.isRoot then .done v else descend leaf p d p.keys : Attempt).document = d ↔
      ¬ Gap d p.keys := by
  by_cases hroot : p.isRoot
  · rw [if_pos hroot] at h
    cases h
  · rw [if_neg hroot] at h ⊢
    exact document_descend_iff h hf

variable {a b : Pointer}

theorem keys_ne_nil_of_apart (h : b.startsWith a = false) : a.keys ≠ [] := by
  intro hnil
  rw [Pointer.startsWith, hnil] at h
  cases h

/-- A move towards its own source, or onto it, leaves the document. -/
theorem document_move_of_startsWith (h : b.startsWith a = true) : (move a b v d).document = d := by
  unfold move
  by_cases hab : a = b
  · rw [if_pos hab]
    rfl
  · rw [if_neg hab, if_pos h]

/-- The operation is a move, it finds a value at its source and takes it away. -/
structure Takes (op : Operation) (d : Value) (a b : Pointer) (v : Value) : Prop extends
    Moves op a b where
  found : valueAt a d = .ok (some v)
  apart : b.startsWith a = false

/-- The operation goes to its target, to write there, in the document as it is. -/
def Aims (op : Operation) (d : Value) : Prop :=
  match op.verb with
  | .add | .replace => True
  | .copy => ∃ found, sourceValue op d = .ok found
  | .remove | .move | .test => False

/-- The operation finds a gap on the way to the target that it writes. -/
def Opens (op : Operation) (d : Value) : Prop :=
  Aims op d ∧ ∃ target, pointer op.path = .ok target ∧ Gap d target.keys

variable {op : Operation}

/-- A move that takes its source is an addition to what the removal of the source leaves. -/
theorem Takes.attempt_eq (h : Takes op d a b v) : op.attempt d = add b v (eraseAt d a.keys) := by
  have hremove := remove_of_valueAt h.found (keys_ne_nil_of_apart h.apart)
  rw [h.toMoves.attempt_eq h.found, move_of_remove h.apart hremove]

theorem opens_iff (haims : Aims op d) (h : pointer op.path = .ok p) :
    Opens op d ↔ Gap d p.keys := by
  constructor
  · rintro ⟨-, q, hq, hgap⟩
    obtain rfl : p = q := Except.ok.inj (h.symm.trans hq)
    exact hgap
  · exact fun hgap => ⟨haims, p, h, hgap⟩

theorem advance_eq_iff (h : op.apply d = .error f) (hf : f.excess? = none)
    (hno : ∀ a b v, ¬ Takes op d a b v) : op.advance d = d ↔ ¬ Opens op d := by
  have hfault := Operation.apply_eq_error_iff.1 h
  show (op.attempt d).document = d ↔ _
  unfold Operation.attempt at hfault ⊢
  cases hpath : pointer op.path with
  | error g =>
    refine iff_of_true rfl ?_
    rintro ⟨-, q, hq, -⟩
    rw [hpath] at hq
    cases hq
  | ok p =>
    rw [hpath] at hfault
    dsimp only [withResult] at hfault ⊢
    -- The verbs that write have their gaps, and no other verb has a reason to change anything.
    cases hverb : op.verb with
    | add =>
      rw [hverb] at hfault
      rw [opens_iff (by simp [Aims, hverb]) hpath]
      exact document_write_iff hfault hf
    | replace =>
      rw [hverb] at hfault
      rw [opens_iff (by simp [Aims, hverb]) hpath]
      exact document_write_iff hfault hf
    | remove =>
      rw [hverb] at hfault
      exact iff_of_true (document_remove hfault) (by simp [Opens, Aims, hverb])
    | test =>
      refine iff_of_true ?_ (by simp [Opens, Aims, hverb])
      dsimp only
      rw [test_eq]
    | copy =>
      rw [hverb] at hfault
      dsimp only at hfault ⊢
      cases hsource : sourceValue op d with
      | error g => exact iff_of_true rfl (by simp [Opens, Aims, hverb, hsource])
      | ok found =>
        rw [hsource] at hfault
        rw [opens_iff (by simp [Aims, hverb, hsource]) hpath]
        exact document_write_iff hfault hf
    | move =>
      refine iff_of_true ?_ (by simp [Opens, Aims, hverb])
      dsimp only
      cases hsource : sourceValue op d with
      | error g => rfl
      | ok found =>
        -- The source was found and not taken, so the target is the source or below it.
        obtain ⟨q, v⟩ := found
        obtain ⟨text, htext, hq, hfound⟩ := sourceValue_eq_ok_iff.1 hsource
        apply document_move_of_startsWith
        by_contra hapart
        exact hno q p v ⟨⟨hverb, ⟨text, htext, hq⟩, hpath⟩, hfound, by simpa using hapart⟩

/-- What an operation that fails leaves behind is the document as it was, unless the operation had
to make a container on the way to its target, or was a move that had taken its source. -/
theorem advance_of_failed (h : op.apply d = .error f) (hf : f.excess? = none) :
    ((∀ a b v, ¬ Takes op d a b v) → (op.advance d = d ↔ ¬ Opens op d)) ∧
      ∀ a b v, Takes op d a b v →
        eraseAt d a.keys ≠ d ∧ op.advance d = (add b v (eraseAt d a.keys)).document := by
  refine ⟨advance_eq_iff h hf, fun a b v htakes => ⟨?_, ?_⟩⟩
  · exact eraseAt_ne (valueAt_eq_ok htakes.found) (keys_ne_nil_of_apart htakes.apart)
  · rw [Operation.advance, htakes.attempt_eq]

/-- There is no tenth chart to replace, there are no filters to add a second one to, and the title
cannot hold a chart. -/
theorem advance_of_failed_charts :
    let d := charted [.str "bar", .str "line"]
    let tenth : Operation := ⟨.replace, "/charts/9", .str "pie", none⟩
    let second : Operation := ⟨.add, "/filters/1", .str "region", none⟩
    let titled : Operation := ⟨.move, "/title/x", .null, some "/charts/0"⟩
    tenth.advance d = d ∧ second.advance d ≠ d ∧
      titled.advance d = charted [.str "line"] := by
  intro d tenth second titled
  have hfirst : pointer "/charts/0" = .ok ⟨["charts", "0"]⟩ := by decide +kernel
  have htenth : pointer "/charts/9" = .ok ⟨["charts", "9"]⟩ := by decide +kernel
  have hsecond : pointer "/filters/1" = .ok ⟨["filters", "1"]⟩ := by decide +kernel
  have htitled : pointer "/title/x" = .ok ⟨["title", "x"]⟩ := by decide +kernel
  have hno : ∀ op : Operation, op.verb ≠ .move → ∀ a b v, ¬ Takes op d a b v :=
    fun _ hverb _ _ _ htakes => hverb htakes.verb
  have htenthFails : tenth.apply d = .error (.outOfBounds 9 ⟨["charts", "9"]⟩) :=
    Operation.apply_eq_error_iff.2 (by decide +kernel)
  have hsecondFails : second.apply d = .error (.outOfBounds 1 ⟨["filters", "1"]⟩) :=
    Operation.apply_eq_error_iff.2 (by decide +kernel)
  have htitledFails : titled.apply d = .error (.addToScalar ⟨["title", "x"]⟩) :=
    Operation.apply_eq_error_iff.2 (by decide +kernel)
  refine ⟨((advance_of_failed htenthFails rfl).1 (hno _ (by decide))).2 ?_, fun heq => ?_, ?_⟩
  · have haims : Aims tenth d := trivial
    rw [opens_iff haims htenth]
    show ¬ Gap (.obj _) ["charts", "9"]
    rw [gap_obj_iff]
    rintro (hmissing | ⟨x, -, hgap⟩)
    · simp [Members.get?] at hmissing
    · exact not_gap_singleton hgap
  · refine ((advance_of_failed hsecondFails rfl).1 (hno _ (by decide))).1 heq ?_
    exact ⟨trivial, _, hsecond, [], "filters", "1", [], _, rfl, rfl, .inl rfl⟩
  · exact ((advance_of_failed htitledFails rfl).2 _ _ _
      ⟨⟨rfl, ⟨_, rfl, hfirst⟩, htitled⟩, rfl, by decide⟩).2

/-- A dashboard is full of charts.  A move of one of them into the title fails, and still the chart
is gone behind it: one more chart is let through, which there is no room for. -/
theorem advance_ne_of_failed :
    let full := charted [.str "bar", .str "line", .str "pie", .str "area"]
    let titled : Operation := ⟨.move, "/title/x", .null, some "/charts/0"⟩
    let fifth : Operation := ⟨.add, "/charts/-", .str "map", none⟩
    titled.apply full = .error (.addToScalar ⟨["title", "x"]⟩) ∧ titled.advance full ≠ full ∧
      Policy.default.checkInTurn 0 full [titled, fifth] = [] ∧
      Policy.default.checkInTurn 1 full [fifth] =
        [⟨.full 4 Collection.charts.label, some "/charts/-", some 1⟩] := by
  intro full titled fifth
  refine ⟨Operation.apply_eq_error_iff.2 (by decide +kernel), fun heq => ?_, by decide +kernel,
    by decide +kernel⟩
  have hlength : Collection.charts.lengthIn (titled.advance full) ≠
    Collection.charts.lengthIn full := by decide +kernel
  exact hlength (congrArg _ heq)

end Patch

end Dashboards
