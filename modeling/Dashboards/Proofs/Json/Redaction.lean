import Dashboards.Proofs.Json.Equality
import Dashboards.Pointer

/-!
# Redacted trees

Two trees that differ only in the values at certain places have one redaction.  A place is fenced off
from a walk through the tree when the walk turns away before it comes to the place, at an object.
What a walk finds that is fenced off from all the places is the same in both trees.
-/

namespace Dashboards

namespace Value

/-! ## 1. Redaction -/

/-- The rests of the places that go on through a key. -/
def beyond (enters : String → Bool) (places : List (List String)) : List (List String) :=
  places.filterMap fun
    | k :: ks => if enters k then some ks else none
    | [] => none

/-- The rests of the places that go on through a member. -/
abbrev beyondKey (key : String) : List (List String) → List (List String) := beyond (· = key)

mutual

/-- The tree with null in place of the values at the places. -/
def redact : Value → List (List String) → Value
  | .arr xs, places => if [] ∈ places then .null else .arr (redactItems xs 0 places)
  | .obj ms, places => if [] ∈ places then .null else .obj (redactMembers ms places)
  | v, places => if [] ∈ places then .null else v
termination_by structural v => v

def redactItems : List Value → Nat → List (List String) → List Value
  | [], _, _ => []
  | x :: xs, i, places =>
    redact x (beyond (indexOf? · = some i) places) :: redactItems xs (i + 1) places
termination_by structural xs => xs

def redactMembers : List (String × Value) → List (List String) → Members Value
  | [], _ => []
  | (k, v) :: rest, places => (k, redact v (beyondKey k places)) :: redactMembers rest places
termination_by structural ms => ms

end

variable {places : List (List String)} {v w : Value} {ms ns : Members Value} {k : String}
  {t p ks : List String}

theorem mem_beyondKey : ks ∈ beyondKey k places ↔ k :: ks ∈ places := by
  unfold beyondKey beyond
  rw [List.mem_filterMap]
  constructor
  · rintro ⟨p, hp, hks⟩
    cases p with
    | nil => cases hks
    | cons k' ks' =>
      simp only [decide_eq_true_eq, Option.ite_none_right_eq_some, Option.some.injEq] at hks
      obtain ⟨rfl, rfl⟩ := hks
      exact hp
  · intro hks
    exact ⟨k :: ks, hks, by simp⟩

theorem redactItems_nil (xs : List Value) (hitems : ∀ x ∈ xs, redact x [] = x) (i : Nat) :
    redactItems xs i [] = xs := by
  induction xs generalizing i with
  | nil => rfl
  | cons x xs ih =>
    rw [List.forall_mem_cons] at hitems
    show redact x [] :: redactItems xs (i + 1) [] = x :: xs
    rw [hitems.1, ih hitems.2]

theorem redactMembers_nil (ms : Members Value) (hmembers : ∀ m ∈ ms, redact m.2 [] = m.2) :
    redactMembers ms [] = ms := by
  induction ms with
  | nil => rfl
  | cons m ms ih =>
    rw [List.forall_mem_cons] at hmembers
    show (m.1, redact m.2 []) :: redactMembers ms [] = m :: ms
    rw [hmembers.1, ih hmembers.2]

/-- Where nothing is to be hidden, the redaction is the tree itself. -/
@[simp] theorem redact_nil (v : Value) : redact v [] = v := by
  induction v using Value.induction with
  | scalar v hv =>
    cases v with
    | arr xs => cases hv
    | obj ms => cases hv
    | _ => rfl
  | arr xs ih =>
    show Value.arr (redactItems xs 0 []) = .arr xs
    rw [redactItems_nil xs ih]
  | obj ms ih =>
    show Value.obj (redactMembers ms []) = .obj ms
    rw [redactMembers_nil ms ih]

theorem redact_obj (h : [] ∉ places) (ms : Members Value) :
    redact (.obj ms) places = .obj (redactMembers ms places) := if_neg h

/-- Trees with one redaction are of one kind, unless they are hidden as a whole. -/
theorem exists_obj_of_redact_eq (h : [] ∉ places)
    (heq : redact (.obj ms) places = redact w places) :
    ∃ ns, w = .obj ns ∧ redactMembers ms places = redactMembers ns places := by
  rw [redact_obj h] at heq
  cases w with
  | obj ns =>
    rw [redact_obj h] at heq
    exact ⟨ns, rfl, Value.obj.inj heq⟩
  | _ => simp [redact, h] at heq

theorem get?_redactMembers (ms : Members Value) (k : String) :
    (redactMembers ms places).get? k = (ms.get? k).map (redact · (beyondKey k places)) := by
  induction ms with
  | nil => rfl
  | cons m ms ih =>
    rw [redactMembers, Members.get?, Members.get?]
    by_cases hk : m.1 = k
    · rw [if_pos hk, if_pos hk, hk]
      rfl
    · rw [if_neg hk, if_neg hk, ih]

theorem redactMembers_set (ms : Members Value) (k : String) (v : Value) :
    redactMembers (ms.set k v) places =
      (redactMembers ms places).set k (redact v (beyondKey k places)) := by
  induction ms with
  | nil => rfl
  | cons m ms ih =>
    rw [Members.set, redactMembers, Members.set]
    by_cases hk : m.1 = k
    · rw [if_pos hk, if_pos hk, redactMembers, hk]
    · rw [if_neg hk, if_neg hk, redactMembers, ih]

theorem redactMembers_erase (ms : Members Value) (k : String) :
    redactMembers (ms.erase k) places = (redactMembers ms places).erase k := by
  induction ms with
  | nil => rfl
  | cons m ms ih =>
    rw [Members.erase, redactMembers, Members.erase]
    by_cases hk : m.1 = k
    · rw [if_pos hk, if_pos hk, ih]
    · rw [if_neg hk, if_neg hk, redactMembers, ih]

/-- Under one key, objects with one redaction have either no members or members with one redaction. -/
theorem get?_of_redactMembers_eq (heq : redactMembers ms places = redactMembers ns places)
    (k : String) :
    (ms.get? k = none ∧ ns.get? k = none) ∨
      ∃ c c', ms.get? k = some c ∧ ns.get? k = some c' ∧
        redact c (beyondKey k places) = redact c' (beyondKey k places) := by
  have hget := congrArg (·.get? k) heq
  simp only [get?_redactMembers] at hget
  cases hc : ms.get? k <;> cases hc' : ns.get? k <;> simp only [hc, hc'] at hget
  · exact .inl ⟨rfl, rfl⟩
  · cases hget
  · cases hget
  · exact .inr ⟨_, _, rfl, rfl, Option.some.inj hget⟩

/-! ## 2. Walks through objects -/

/-- The value that the keys lead to through objects alone. -/
def memberAt? : Value → List String → Option Value
  | v, [] => some v
  | .obj ms, k :: ks => (Members.get? ms k).bind (·.memberAt? ks)
  | _, _ :: _ => none
termination_by structural _ keys => keys

theorem memberAt?_obj_cons {c : Value} (hc : ms.get? k = some c) :
    (Value.obj ms).memberAt? (k :: ks) = c.memberAt? ks := by
  show (Members.get? ms k).bind _ = _
  rw [hc]
  rfl

theorem memberAt?_cons_eq_some {x : Value} (h : v.memberAt? (k :: ks) = some x) :
    ∃ ms c, v = .obj ms ∧ Members.get? ms k = some c ∧ c.memberAt? ks = some x := by
  cases v with
  | obj ms =>
    obtain ⟨c, hc, hx⟩ := Option.bind_eq_some_iff.1 h
    exact ⟨ms, c, rfl, hc, hx⟩
  | _ => cases h

/-- From a place that objects lead to, pointers go on as from a root. -/
theorem at?_append {x : Value} (h : v.memberAt? ks = some x) (t : List String) :
    v.at? (ks ++ t) = x.at? t ∧ v.overlongAt? (ks ++ t) = x.overlongAt? t := by
  induction ks generalizing v with
  | nil =>
    obtain rfl : v = x := by simpa [memberAt?] using h
    exact ⟨rfl, rfl⟩
  | cons k ks ih =>
    obtain ⟨ms, c, rfl, hc, hx⟩ := memberAt?_cons_eq_some h
    show (Members.get? ms k).bind _ = _ ∧ (Members.get? ms k).bind _ = _
    rw [hc]
    exact ih hx

theorem at?_of_memberAt? {x : Value} (h : v.memberAt? ks = some x) : v.at? ks = some x := by
  have hx := (at?_append h []).1
  rw [List.append_nil] at hx
  exact hx

/-- A place that objects lead to lies below objects only. -/
theorem at?_of_memberAt?_append {x : Value} (h : v.memberAt? (ks ++ k :: t) = some x) :
    ∃ ms, v.at? ks = some (.obj ms) := by
  induction ks generalizing v with
  | nil =>
    obtain ⟨ms, -, rfl, -, -⟩ := memberAt?_cons_eq_some h
    exact ⟨ms, rfl⟩
  | cons l ks ih =>
    obtain ⟨ms, c, rfl, hc, hx⟩ := memberAt?_cons_eq_some h
    obtain ⟨ns, hns⟩ := ih hx
    refine ⟨ns, ?_⟩
    show (Members.get? ms l).bind _ = _
    rw [hc]
    exact hns

theorem at?_isSome_of_memberAt? {x : Value} (h : v.memberAt? ks = some x) (ht : t <+: ks) :
    (v.at? t).isSome = true := by
  obtain ⟨r, rfl⟩ := ht
  cases r with
  | nil =>
    rw [List.append_nil] at h
    rw [at?_of_memberAt? h]
    rfl
  | cons k r =>
    obtain ⟨ms, hms⟩ := at?_of_memberAt?_append h
    rw [hms]
    rfl

/-! ## 3. Fences -/

theorem not_prefix_of_cons (h : ¬ k :: ks <+: k :: t) : ¬ ks <+: t :=
  fun hpre => h (List.cons_prefix_cons.2 ⟨rfl, hpre⟩)

theorem ne_of_not_prefix_cons {k' : String} (h : ¬ [k'] <+: k :: ks) : k ≠ k' := by
  rintro rfl
  exact h (List.cons_prefix_cons.2 ⟨rfl, List.nil_prefix⟩)

/-- A walk along `t` turns away from the way to `p` before it comes to `p`, at an object. -/
def Fenced (v : Value) (t p : List String) : Prop :=
  ∃ s, s <+: p ∧ (v.memberAt? s).isSome = true ∧ ¬ s <+: t

theorem Fenced.ne_nil (h : v.Fenced t p) : p ≠ [] := by
  rintro rfl
  obtain ⟨s, hs, -, hst⟩ := h
  rw [List.prefix_nil.1 hs] at hst
  exact hst List.nil_prefix

/-- One step of a walk: the fence is the same from the member that the walk goes to. -/
theorem Fenced.step {c : Value} (h : (Value.obj ms).Fenced (k :: t) (k :: p))
    (hc : ms.get? k = some c) : c.Fenced t p := by
  obtain ⟨s, hs, hsome, hst⟩ := h
  cases s with
  | nil => exact absurd List.nil_prefix hst
  | cons k' s =>
    obtain ⟨rfl, hsp⟩ := List.cons_prefix_cons.1 hs
    refine ⟨s, hsp, ?_, not_prefix_of_cons hst⟩
    rw [← memberAt?_obj_cons hc]
    exact hsome

/-- At the start of a walk that is fenced off from all places, two trees with one redaction are the
same tree, or both are objects. -/
theorem eq_or_obj_of_fenced (hfence : ∀ p ∈ places, v.Fenced t p)
    (heq : redact v places = redact w places) :
    (places = [] ∧ v = w) ∨ [] ∉ places ∧ ∃ ms ns, v = .obj ms ∧ w = .obj ns ∧
      redactMembers ms places = redactMembers ns places := by
  cases places with
  | nil => exact .inl ⟨rfl, by simpa using heq⟩
  | cons p ps =>
    have hnil : [] ∉ p :: ps := fun h => (hfence [] h).ne_nil rfl
    -- The fence is not at the root, where every walk starts, so the root is an object.
    obtain ⟨s, -, hsome, hst⟩ := hfence p List.mem_cons_self
    cases s with
    | nil => exact absurd List.nil_prefix hst
    | cons k s =>
      obtain ⟨x, hx⟩ := Option.isSome_iff_exists.1 hsome
      obtain ⟨ms, -, rfl, -, -⟩ := memberAt?_cons_eq_some hx
      obtain ⟨ns, rfl, hms⟩ := exists_obj_of_redact_eq hnil heq
      exact .inr ⟨hnil, ms, ns, rfl, rfl, hms⟩

theorem fenced_beyondKey {c : Value} (hfence : ∀ p ∈ places, (Value.obj ms).Fenced (k :: t) p)
    (hc : ms.get? k = some c) : ∀ p ∈ beyondKey k places, c.Fenced t p :=
  fun _ hp => (hfence _ (mem_beyondKey.1 hp)).step hc

/-- The items that a walk finds are the same in both trees, if the walk is fenced off from all
places; where some place lies further on, it finds none. -/
theorem items_at?_eq (hfence : ∀ p ∈ places, v.Fenced t p)
    (heq : redact v places = redact w places) :
    (v.at? t).bind items? = (w.at? t).bind items? := by
  induction t generalizing v w places with
  | nil =>
    obtain ⟨-, rfl⟩ | ⟨-, ms, ns, rfl, rfl, -⟩ := eq_or_obj_of_fenced hfence heq <;> rfl
  | cons k t ih =>
    obtain ⟨-, rfl⟩ | ⟨-, ms, ns, rfl, rfl, hms⟩ := eq_or_obj_of_fenced hfence heq
    · rfl
    · show ((Members.get? ms k).bind _).bind _ = ((Members.get? ns k).bind _).bind _
      obtain ⟨hc, hc'⟩ | ⟨c, c', hc, hc', hcc⟩ := get?_of_redactMembers_eq hms k
      · rw [hc, hc']
      · rw [hc, hc']
        exact ih (fenced_beyondKey hfence hc) hcc

/-- What a walk finds is the same in both trees, if it is fenced off from all places and none of them
lies further on. -/
theorem at?_eq_of_fenced (hfence : ∀ p ∈ places, v.Fenced t p ∧ ¬ t <+: p)
    (heq : redact v places = redact w places) :
    v.at? t = w.at? t ∧ v.overlongAt? t = w.overlongAt? t := by
  induction t generalizing v w places with
  | nil =>
    obtain ⟨-, rfl⟩ | ⟨-, ms, ns, rfl, rfl, -⟩ :=
      eq_or_obj_of_fenced (fun p hp => (hfence p hp).1) heq
    · exact ⟨rfl, rfl⟩
    · cases places with
      | nil =>
        obtain rfl : ms = ns := by simpa using heq
        exact ⟨rfl, rfl⟩
      | cons p ps => exact absurd List.nil_prefix (hfence p List.mem_cons_self).2
  | cons k t ih =>
    obtain ⟨-, rfl⟩ | ⟨-, ms, ns, rfl, rfl, hms⟩ :=
      eq_or_obj_of_fenced (fun p hp => (hfence p hp).1) heq
    · exact ⟨rfl, rfl⟩
    · show (Members.get? ms k).bind _ = (Members.get? ns k).bind _ ∧
        (Members.get? ms k).bind _ = (Members.get? ns k).bind _
      obtain ⟨hc, hc'⟩ | ⟨c, c', hc, hc', hcc⟩ := get?_of_redactMembers_eq hms k
      · rw [hc, hc']
        exact ⟨rfl, rfl⟩
      · rw [hc, hc']
        have hfence' := fenced_beyondKey (fun p hp => (hfence p hp).1) hc
        exact ih (fun p hp =>
          ⟨hfence' p hp, not_prefix_of_cons (hfence _ (mem_beyondKey.1 hp)).2⟩) hcc

/-! ## 4. Seals -/

/-- A place on the way to one of the places, to which objects lead in both trees, and where the way
ends or comes to an array. -/
structure Seal (places : List (List String)) (v w : Value) (s : List String) : Prop where
  leads : ∃ p ∈ places, s <+: p
  left : (v.memberAt? s).isSome = true
  right : (w.memberAt? s).isSome = true
  closed : s ∈ places ∨ ∃ xs, v.memberAt? s = some (.arr xs)

/-- On the way to every place that is there, trees with one redaction have a seal. -/
theorem exists_seal (heq : redact v places = redact w places) (hp : p ∈ places)
    (hthere : (v.at? p).isSome = true) : ∃ s, s <+: p ∧ Seal places v w s := by
  induction p generalizing v w places with
  | nil => exact ⟨[], List.prefix_rfl, ⟨[], hp, List.prefix_rfl⟩, rfl, rfl, .inl hp⟩
  | cons k p ih =>
    have hleads : ∃ p ∈ places, [] <+: p := ⟨k :: p, hp, List.nil_prefix⟩
    -- The way is followed down to the first array or the first place that is hidden as a whole.
    by_cases hnil : [] ∈ places
    · exact ⟨[], List.nil_prefix, hleads, rfl, rfl, .inl hnil⟩
    · cases v with
      | arr xs => exact ⟨[], List.nil_prefix, hleads, rfl, rfl, .inr ⟨xs, rfl⟩⟩
      | obj ms =>
        obtain ⟨ns, rfl, hms⟩ := exists_obj_of_redact_eq hnil heq
        have hat : (Value.obj ms).at? (k :: p) = (Members.get? ms k).bind (·.at? p) := rfl
        obtain ⟨hc, -⟩ | ⟨c, c', hc, hc', hcc⟩ := get?_of_redactMembers_eq hms k
        · rw [hat, hc] at hthere
          cases hthere
        · rw [hat, hc] at hthere
          obtain ⟨s, hs, hseal⟩ := ih hcc (mem_beyondKey.2 hp) hthere
          refine ⟨k :: s, List.cons_prefix_cons.2 ⟨rfl, hs⟩,
            ⟨k :: p, hp, List.cons_prefix_cons.2 ⟨rfl, hs⟩⟩, ?_, ?_, ?_⟩
          · rw [memberAt?_obj_cons hc]
            exact hseal.left
          · rw [memberAt?_obj_cons hc']
            exact hseal.right
          · rw [memberAt?_obj_cons hc]
            exact hseal.closed.imp_left fun h => mem_beyondKey.1 h
      | _ => cases hthere

end Value

end Dashboards
