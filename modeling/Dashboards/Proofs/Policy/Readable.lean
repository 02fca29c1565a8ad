import Dashboards.Patch.Run
import Dashboards.Proofs.Patch.Places
import Dashboards.Proofs.Patch.Steps
import Dashboards.Proofs.Policy.Objections

/-!
# Indices that can be read

A key with too many digits is no index that could be read, and a patch that meets one on its way
through an array is given up.  A patch whose pointers have no such key, under a policy whose blocked
sections have none, is never given up: what its operations fail with and what the checks find is
reported.
-/

namespace Dashboards

/-! ## 1. Keys -/

/-- No key has more digits than an index may have. -/
def ReadableKeys (keys : List String) : Prop := ∀ key ∈ keys, overlongIndex? key = none

instance : DecidablePred ReadableKeys := fun keys =>
  inferInstanceAs (Decidable (∀ key ∈ keys, overlongIndex? key = none))

variable {d v w : Value} {keys : List String} {key next : String} {n : Nat}

theorem ReadableKeys.take (h : ReadableKeys keys) (n : Nat) : ReadableKeys (keys.take n) :=
  fun key hkey => h key (List.mem_of_mem_take hkey)

theorem ReadableKeys.overlongAt? (h : ReadableKeys keys) (v : Value) : v.overlongAt? keys = none := by
  induction keys generalizing v with
  | nil => cases v <;> rfl
  | cons key keys ih =>
    obtain ⟨hkey, hkeys⟩ := List.forall_mem_cons.1 h
    cases v with
    | obj ms =>
      rw [Value.overlongAt?, Option.bind_eq_none_iff]
      exact fun x _ => ih hkeys x
    | arr xs =>
      rw [Value.overlongAt?, hkey, Option.bind_eq_none_iff]
      exact fun x _ => ih hkeys x
    | _ => rfl

namespace Patch

/-! ## 2. Faults of an operation -/

variable {leaf : String → Value → Except Fault Value} {p q : Pointer} {f : Fault}
  {op : Operation}

theorem excess?_of_indexIn (hkey : overlongIndex? key = none) (h : indexIn p key = .error f) :
    f.excess? = none := by
  rw [indexIn, hkey] at h
  cases hindex : indexOf? key with
  | none => rw [hindex] at h; cases h; rfl
  | some i => rw [hindex] at h; cases h

theorem excess?_of_insertInto (hkey : overlongIndex? key = none)
    (h : insertInto p v key d = .error f) : f.excess? = none := by
  cases d with
  | obj ms => cases h
  | arr xs =>
    rw [insertInto] at h
    split at h
    · cases h
    · split at h
      · cases h
        exact excess?_of_indexIn hkey ‹_›
      · split at h <;> cases h
        rfl
  | _ => cases h; rfl

theorem excess?_of_overwriteIn (hkey : overlongIndex? key = none)
    (h : overwriteIn p v key d = .error f) : f.excess? = none := by
  cases d with
  | obj ms => cases h
  | arr xs =>
    rw [overwriteIn] at h
    split at h
    · cases h
      exact excess?_of_indexIn hkey ‹_›
    · split at h <;> cases h
      rfl
  | _ => cases h; rfl

theorem exists_containerFor (hnext : overlongIndex? next = none) : ∃ x, containerFor next = .ok x := by
  rw [containerFor, hnext]
  exact ⟨_, rfl⟩

theorem exists_entryFor (ms : Members Value) (key : String) (hnext : overlongIndex? next = none) :
    ∃ x, entryFor ms key next = .ok x := by
  rw [entryFor]
  split
  · exact exists_containerFor hnext
  · exact exists_containerFor hnext
  · exact ⟨_, rfl⟩

/-- A walk reads its keys one by one, the last one in its leaf. -/
theorem excess?_of_descend
    (hleaf : ∀ key c f, overlongIndex? key = none → leaf key c = .error f → f.excess? = none)
    (hkeys : ReadableKeys keys) (h : (descend leaf p d keys).fault = some f) : f.excess? = none := by
  induction keys generalizing d with
  | nil => cases h
  | cons key keys ih =>
    obtain ⟨hkey, hrest⟩ := List.forall_mem_cons.1 hkeys
    cases keys with
    | nil =>
      rw [descend] at h
      cases hresult : leaf key d with
      | ok w => rw [hresult] at h; cases h
      | error g =>
        rw [hresult] at h
        cases h
        exact hleaf key d f hkey hresult
    | cons next rest =>
      cases d with
      | obj ms =>
        obtain ⟨x, hx⟩ := exists_entryFor ms key (hrest next List.mem_cons_self)
        rw [descend_obj, hx] at h
        exact ih hrest h
      | arr xs =>
        rw [descend_arr] at h
        split at h
        · cases h
          exact excess?_of_indexIn hkey ‹_›
        · split at h
          · cases h
            rfl
          · exact ih hrest h
      | _ =>
        rw [descend_scalar rfl] at h
        cases h
        rfl

theorem excess?_of_write
    (hleaf : ∀ key c f, overlongIndex? key = none → leaf key c = .error f → f.excess? = none)
    (hp : ReadableKeys p.keys)
    (h : (if p.isRoot then .done v else descend leaf p d p.keys : Attempt).fault = some f) :
    f.excess? = none := by
  split at h
  · cases h
  · exact excess?_of_descend hleaf hp h

theorem excess?_of_add (hp : ReadableKeys p.keys) (h : (add p v d).fault = some f) :
    f.excess? = none :=
  excess?_of_write (fun _ _ _ => excess?_of_insertInto) hp h

theorem excess?_of_replace (hp : ReadableKeys p.keys) (h : (replace p v d).fault = some f) :
    f.excess? = none :=
  excess?_of_write (fun _ _ _ => excess?_of_overwriteIn) hp h

theorem excess?_of_remove (hp : ReadableKeys p.keys) (h : (remove p d).fault = some f) :
    f.excess? = none := by
  unfold remove at h
  rw [hp.overlongAt?] at h
  split at h <;> cases h
  rfl

theorem valueAt_of_readable (hp : ReadableKeys p.keys) (d : Value) :
    valueAt p d = .ok (d.resolve? p) := by
  rw [valueAt, hp.overlongAt?]

theorem excess?_of_test (hp : ReadableKeys p.keys) (h : (test p v d).fault = some f) :
    f.excess? = none := by
  rw [test, valueAt_of_readable hp] at h
  dsimp only [withResult] at h
  split at h
  · cases h
    rfl
  · split at h <;> cases h
    rfl

theorem excess?_of_move (hp : ReadableKeys p.keys) (hq : ReadableKeys q.keys)
    (h : (move p q v d).fault = some f) : f.excess? = none := by
  unfold move at h
  split at h
  · cases h
  · split at h
    · cases h
      rfl
    · unfold Attempt.andThen at h
      split at h
      · exact excess?_of_add hq h
      · exact excess?_of_remove hp h

theorem excess?_of_pointer {text : String} (h : pointer text = .error f) : f.excess? = none := by
  unfold pointer at h
  cases hparse : Pointer.parse text with
  | error g => rw [hparse] at h; cases h; rfl
  | ok q => rw [hparse] at h; cases h

theorem excess?_of_sourceValue (hverb : op.verb = .move ∨ op.verb = .copy)
    (hnames : ∀ q, op.Names q → ReadableKeys q.keys) (h : sourceValue op d = .error f) :
    f.excess? = none := by
  cases hsource : op.source with
  | none =>
    unfold sourceValue at h
    rw [hsource] at h
    cases h
    rfl
  | some text =>
    rw [Operation.sourceValue_of_source hsource] at h
    cases hpointer : pointer text with
    | error g =>
      rw [hpointer] at h
      cases h
      exact excess?_of_pointer hpointer
    | ok q =>
      have hq : ReadableKeys q.keys :=
        hnames q ⟨text, Operation.mem_names hverb hsource, Operation.parse_of_pointer hpointer⟩
      rw [hpointer] at h
      dsimp only at h
      rw [valueAt_of_readable hq] at h
      cases hfound : d.resolve? q with
      | none => rw [hfound] at h; cases h; rfl
      | some x => rw [hfound] at h; cases h

/-- An operation without unreadable indices fails for a reason of its own, if it fails. -/
theorem excess?_of_attempt (hnames : ∀ q, op.Names q → ReadableKeys q.keys)
    (h : (op.attempt d).fault = some f) : f.excess? = none := by
  rw [Operation.attempt] at h
  cases hpath : pointer op.path with
  | error g =>
    rw [hpath] at h
    cases h
    exact excess?_of_pointer hpath
  | ok target =>
    have htarget : ReadableKeys target.keys := hnames target (Operation.names_path hpath)
    rw [hpath] at h
    dsimp only [withResult] at h
    cases hverb : op.verb with
    | add => rw [hverb] at h; exact excess?_of_add htarget h
    | remove => rw [hverb] at h; exact excess?_of_remove htarget h
    | replace => rw [hverb] at h; exact excess?_of_replace htarget h
    | test => rw [hverb] at h; exact excess?_of_test htarget h
    | move =>
      rw [hverb] at h
      dsimp only at h
      cases hsource : sourceValue op d with
      | error g =>
        rw [hsource] at h
        cases h
        exact excess?_of_sourceValue (.inl hverb) hnames hsource
      | ok found =>
        obtain ⟨text, htext, hq, -⟩ := sourceValue_eq_ok_iff.1 hsource
        rw [hsource] at h
        refine excess?_of_move (hnames _ ?_) htarget h
        exact ⟨text, Operation.mem_names (.inl hverb) htext, Operation.parse_of_pointer hq⟩
    | copy =>
      rw [hverb] at h
      dsimp only at h
      cases hsource : sourceValue op d with
      | error g =>
        rw [hsource] at h
        cases h
        exact excess?_of_sourceValue (.inr hverb) hnames hsource
      | ok found =>
        rw [hsource] at h
        exact excess?_of_add htarget h

end Patch

namespace Policy

/-! ## 3. Objections of a policy -/

variable {policy : Policy} {path : String} {o : Objection} {op : Operation} {holder : Collection}

theorem excess?_of_classify (h : policy.classify path = some o) : o.excess? = none := by
  unfold classify at h
  split at h
  · cases h
    rfl
  · split at h
    · cases h
      rfl
    · split at h <;> cases h
      rfl

theorem excess?_of_addGuardrail (h : policy.addGuardrail path d v = some o) : o.excess? = none := by
  obtain ⟨keys, h⟩ := exists_keys_of_bind h
  split at h
  · split at h
    · cases h
      rfl
    · split at h <;> cases h
      rfl
  · split at h
    · split at h <;> cases h
      rfl
    · cases h

theorem excess?_of_removalObjection (hkeys : ReadableKeys keys)
    (h : policy.removalObjection path keys d holder = some o) : o.excess? = none := by
  unfold removalObjection at h
  rw [hkeys.overlongAt?] at h
  split at h
  · split at h
    · cases ‹none = some _›
    · cases h
    · split at h
      · cases h
        rfl
      · split at h
        · split at h <;> cases h
          rfl
        · cases h
  · split at h
    · dsimp only at h
      split at h
      · cases h
        rfl
      · split at h <;> cases h
        rfl
    · cases h

theorem excess?_of_overwriteObjection {inserting : Bool} (hkeys : ReadableKeys keys)
    (h : policy.overwriteObjection keys d v inserting holder = some o) : o.excess? = none := by
  unfold overwriteObjection at h
  simp only [(hkeys.take _).overlongAt?, ite_self] at h
  obtain ⟨name, -, rfl⟩ := Option.map_eq_some_iff.1 h
  rfl

/-- The keys of a path can be read, if the path has any. -/
def ReadablePath (path : String) : Prop := ∀ keys, keys? path = some keys → ReadableKeys keys

theorem excess?_of_removeGuardrail (hpath : ReadablePath path)
    (h : policy.removeGuardrail path d = some o) : o.excess? = none := by
  obtain ⟨keys, hkeys, h⟩ := Option.bind_eq_some_iff.1 h
  obtain ⟨holder, -, hholder⟩ := List.exists_of_findSome?_eq_some h
  exact excess?_of_removalObjection (hpath keys hkeys) hholder

theorem excess?_of_overwriteGuardrail {inserting : Bool} (hpath : ReadablePath path)
    (h : policy.overwriteGuardrail path d v inserting = some o) : o.excess? = none := by
  obtain ⟨keys, hkeys, h⟩ := Option.bind_eq_some_iff.1 h
  obtain ⟨holder, -, hholder⟩ := List.exists_of_findSome?_eq_some h
  exact excess?_of_overwriteObjection (hpath keys hkeys) hholder

/-! ## 4. Checks of a patch -/

theorem excess?_of_mem_pathObjections {m : Objection × String} (h : m ∈ policy.pathObjections op) :
    m.1.excess? = none := by
  have refused : ∀ path, m ∈ ((policy.classify path).map (·, path)).toList → m.1.excess? = none :=
    fun path hm => excess?_of_classify (mem_listed hm)
  unfold pathObjections at h
  dsimp only at h
  split at h
  · obtain rfl | hm := List.mem_cons.1 h
    · rfl
    · exact refused _ hm
  · obtain rfl | hm := List.mem_cons.1 h
    · rfl
    · exact refused _ hm
  · exact (List.mem_append.1 h).elim (refused _) (refused _)
  · exact (List.mem_append.1 h).elim (refused _) (refused _)
  · exact refused _ h

theorem readablePath_of_names {text : String} (hnames : ∀ q, op.Names q → ReadableKeys q.keys)
    (htext : text ∈ op.names) : ReadablePath text := by
  intro keys hkeys
  obtain ⟨q, hq, rfl⟩ := Option.map_eq_some_iff.1 hkeys
  refine hnames q ⟨text, htext, ?_⟩
  cases hparse : Pointer.parse text with
  | error g => rw [hparse] at hq; cases hq
  | ok q' =>
    rw [hparse] at hq
    cases hq
    rfl

/-- A source that is not given is looked for at the root. -/
theorem readablePath_source (hnames : ∀ q, op.Names q → ReadableKeys q.keys)
    (hverb : op.verb = .move ∨ op.verb = .copy) : ReadablePath (op.source.getD "") := by
  cases hsource : op.source with
  | none =>
    intro keys hkeys
    obtain rfl : [] = keys := Option.some.inj hkeys
    exact nofun
  | some text => exact readablePath_of_names hnames (Operation.mem_names hverb hsource)

theorem excess?_of_mem_guardrailObjections {m : Objection × String}
    (hnames : ∀ q, op.Names q → ReadableKeys q.keys) (h : m ∈ policy.guardrailObjections op d) :
    m.1.excess? = none := by
  have hpath : ReadablePath op.path := readablePath_of_names hnames List.mem_cons_self
  have adding : ∀ path value, m ∈ ((policy.addGuardrail path d value).map (·, path)).toList →
      m.1.excess? = none := fun _ _ hm => excess?_of_addGuardrail (mem_listed hm)
  have overwriting : ∀ value inserting,
      m ∈ ((policy.overwriteGuardrail op.path d value inserting).map (·, op.path)).toList →
      m.1.excess? = none := fun _ _ hm => excess?_of_overwriteGuardrail hpath (mem_listed hm)
  have removing : ∀ path, ReadablePath path →
      m ∈ ((policy.removeGuardrail path d).map (·, path)).toList → m.1.excess? = none :=
    fun _ hread hm => excess?_of_removeGuardrail hread (mem_listed hm)
  -- What makes a source unread is an index that cannot be read, and it has none.
  have unread : ∀ source, ReadablePath source →
      m ∉ ((((keys? source).bind d.overlongAt?).map Objection.overlongIndex).map
        (·, source)).toList := by
    intro source hread hm
    obtain ⟨digits, hdigits, -⟩ := Option.map_eq_some_iff.1 (mem_listed hm)
    obtain ⟨keys, hkeys, hlong⟩ := Option.bind_eq_some_iff.1 hdigits
    rw [(hread keys hkeys).overlongAt?] at hlong
    cases hlong
  unfold guardrailObjections at h
  dsimp only at h
  split at h
  · exact (List.mem_append.1 h).elim (adding _ _) (overwriting _ _)
  · rcases List.mem_append.1 h with hm | hm
    · split at hm
      · exact adding _ _ hm
      · cases hm
    · exact overwriting _ _ hm
  · exact removing _ hpath h
  · have hsource := readablePath_source hnames (.inl ‹op.verb = .move›)
    split at h
    · cases h
    · rcases List.mem_append.1 h with hm | hm
      · exact (List.mem_append.1 hm).elim (removing _ hsource) fun hm => absurd hm (unread _ hsource)
      · exact adding _ _ hm
  · have hsource := readablePath_source hnames (.inr ‹op.verb = .copy›)
    exact (List.mem_append.1 h).elim (fun hm => absurd hm (unread _ hsource)) (adding _ _)
  · cases h

theorem excess?_of_mem_checkOperation {position : Option Nat} {i : Issue}
    (hnames : ∀ q, op.Names q → ReadableKeys q.keys)
    (h : i ∈ policy.checkOperation op d position) : i.excess? = none := by
  obtain ⟨m, hm, rfl⟩ := List.mem_map.1 h
  split at hm
  · exact excess?_of_mem_guardrailObjections hnames hm
  · exact excess?_of_mem_pathObjections hm

/-- An operation without unreadable indices leaves no check unfinished. -/
theorem unfinished_of_readable (hnames : ∀ q, op.Names q → ReadableKeys q.keys) (d : Value)
    (n : Nat) : unfinished op d n = [] := by
  unfold unfinished
  split
  · rw [Patch.excess?_of_attempt hnames ‹_›]
    rfl
  · rfl

theorem excess?_of_mem_checkInTurn {ops : List Operation} {i : Issue}
    (hops : ∀ op ∈ ops, ∀ q, op.Names q → ReadableKeys q.keys)
    (h : i ∈ policy.checkInTurn n d ops) : i.excess? = none := by
  induction ops generalizing n d with
  | nil => cases h
  | cons op ops ih =>
    obtain ⟨hop, hrest⟩ := List.forall_mem_cons.1 hops
    rw [checkInTurn, unfinished_of_readable hop, List.append_nil, List.mem_append] at h
    obtain h | h := h
    · exact excess?_of_mem_checkOperation hop h
    · exact ih hrest h

theorem excess?_of_mem_checkDocuments {before after : Value} {i : Issue}
    (hblocked : ∀ p ∈ policy.blocked, ReadableKeys p.keys)
    (h : i ∈ policy.checkDocuments before after) : i.excess? = none := by
  unfold checkDocuments at h
  rw [List.mem_append, List.mem_append] at h
  obtain (h | h) | h := h
  · obtain ⟨p, hp, hfound⟩ := List.mem_filterMap.1 h
    obtain ⟨o, ho, rfl⟩ := Option.map_eq_some_iff.1 hfound
    unfold sectionObjection at ho
    rw [(hblocked p hp).overlongAt?, (hblocked p hp).overlongAt?] at ho
    dsimp only [Option.orElse] at ho
    split at ho
    · split at ho <;> cases ho
      rfl
    · cases ho
    · cases ho
      rfl
  · obtain ⟨c, -, hc⟩ := List.mem_filterMap.1 h
    dsimp only at hc
    split at hc <;> cases hc
    rfl
  · obtain ⟨name, -, rfl⟩ := List.mem_map.1 h
    rfl

end Policy

end Dashboards
