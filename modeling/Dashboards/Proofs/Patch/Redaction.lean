import Dashboards.Proofs.Json.Redaction
import Dashboards.Patch.Apply

/-!
# Operations on redacted documents

An operation whose names are fenced off from certain places leaves the values there alone.  On two
documents that differ only at those places it meets the same faults, and it leaves documents that
again differ only there.
-/

namespace Dashboards

open Value (beyondKey redact redactMembers mem_beyondKey)

namespace Patch

/-! ## 1. Steps below the root -/

variable {leaf : String → Value → Except Fault Value} {q : Pointer} {d e x : Value}
  {ms ns : Members Value} {places : List (List String)} {s t : List String}

/-- What `descend` goes on with at a member: the member, or a new container where it is missing. -/
def entryFor (ms : Members Value) (key next : String) : Except Fault Value :=
  match Members.get? ms key with
  | none | some .null => containerFor next
  | some v => .ok v

theorem descend_obj (key next : String) (rest : List String) :
    descend leaf q (.obj ms) (key :: next :: rest) =
      match entryFor ms key next with
      | .error f => ⟨.obj ms, some f⟩
      | .ok child =>
        ⟨.obj (ms.set key (descend leaf q child (next :: rest)).document),
          (descend leaf q child (next :: rest)).fault⟩ := rfl

theorem entryFor_of_memberAt? {c : Value} {key next : String} (hc : ms.get? key = some c)
    (hx : c.memberAt? s = some x) (hs : s ≠ []) : entryFor ms key next = .ok c := by
  cases s with
  | nil => exact absurd rfl hs
  | cons k s =>
    obtain ⟨ns, -, rfl, -, -⟩ := Value.memberAt?_cons_eq_some hx
    rw [entryFor, hc]

/-- A leaf that sets a member, whatever the object is. -/
def SetsMember (leaf : String → Value → Except Fault Value) : Prop :=
  ∃ v, ∀ key ms, leaf key (.obj ms) = .ok (.obj (Members.set ms key v))

theorem setsMember_insertInto (p : Pointer) (v : Value) : SetsMember (insertInto p v) :=
  ⟨v, fun _ _ => rfl⟩

theorem setsMember_overwriteIn (p : Pointer) (v : Value) : SetsMember (overwriteIn p v) :=
  ⟨v, fun _ _ => rfl⟩

theorem memberAt?_set_self {c : Value} (key : String) :
    (Value.obj (ms.set key c)).memberAt? (key :: s) = c.memberAt? s :=
  Value.memberAt?_obj_cons (Members.get?_set_self ms key c)

theorem memberAt?_set_of_ne {c : Value} {key other : String} (h : other ≠ key) :
    (Value.obj (ms.set key c)).memberAt? (other :: s) = (Value.obj ms).memberAt? (other :: s) := by
  show (Members.get? (Members.set ms key c) other).bind _ = (Members.get? ms other).bind _
  rw [Members.get?_set_of_ne _ _ h]

/-- A walk that turns away from a place leaves what is there alone. -/
theorem memberAt?_descend (hleaf : SetsMember leaf) (hx : d.memberAt? s = some x) (hst : ¬ s <+: t)
    (hts : ¬ t <+: s) : (descend leaf q d t).document.memberAt? s = some x := by
  induction t generalizing d s with
  | nil => exact absurd List.nil_prefix hts
  | cons key t ih =>
    cases s with
    | nil => exact absurd List.nil_prefix hst
    | cons k s =>
      obtain ⟨ms, c, rfl, hc, hcx⟩ := Value.memberAt?_cons_eq_some hx
      cases t with
      | nil =>
        obtain ⟨v, hv⟩ := hleaf
        rw [descend, hv]
        exact (memberAt?_set_of_ne (Value.ne_of_not_prefix_cons hts)).trans hx
      | cons next rest =>
        rw [descend_obj]
        by_cases hk : k = key
        · subst hk
          -- The place lies below this member, so the member is an object and not null.
          have hs : s ≠ [] := by
            rintro rfl
            exact hst (List.cons_prefix_cons.2 ⟨rfl, List.nil_prefix⟩)
          rw [entryFor_of_memberAt? hc hcx hs]
          show (Value.obj (Members.set ms k _)).memberAt? (k :: s) = some x
          rw [memberAt?_set_self]
          exact ih hcx (Value.not_prefix_of_cons hst) (Value.not_prefix_of_cons hts)
        · cases entryFor ms key next with
          | error f => exact hx
          | ok child => exact (memberAt?_set_of_ne hk).trans hx

theorem memberAt?_eraseAt (hx : d.memberAt? s = some x) (hst : ¬ s <+: t) (hts : ¬ t <+: s) :
    (eraseAt d t).memberAt? s = some x := by
  induction t generalizing d s with
  | nil => exact absurd List.nil_prefix hts
  | cons key t ih =>
    cases s with
    | nil => exact absurd List.nil_prefix hst
    | cons k s =>
      obtain ⟨ms, c, rfl, hc, hcx⟩ := Value.memberAt?_cons_eq_some hx
      cases t with
      | nil =>
        show (Members.get? (Members.erase ms key) k).bind _ = some x
        rw [Members.get?_erase_of_ne _ (Value.ne_of_not_prefix_cons hts)]
        exact hx
      | cons next rest =>
        rw [eraseAt]
        by_cases hk : k = key
        · subst hk
          rw [hc]
          show (Value.obj (Members.set ms k _)).memberAt? (k :: s) = some x
          rw [memberAt?_set_self]
          exact ih hcx (Value.not_prefix_of_cons hst) (Value.not_prefix_of_cons hts)
        · cases Members.get? ms key with
          | none => exact hx
          | some child => exact (memberAt?_set_of_ne hk).trans hx

/-! ## 2. Two documents side by side -/

/-- Two attempts that met the same fault and left documents with one redaction. -/
def Attempt.Alike (places : List (List String)) (a b : Attempt) : Prop :=
  a.fault = b.fault ∧ redact a.document places = redact b.document places

theorem Attempt.Alike.refl (a : Attempt) : a.Alike places a := ⟨rfl, rfl⟩

theorem Attempt.Alike.withFault (h : redact d places = redact e places) (f : Fault) :
    Attempt.Alike places ⟨d, some f⟩ ⟨e, some f⟩ := ⟨rfl, h⟩

theorem Attempt.Alike.done (h : redact d places = redact e places) :
    Attempt.Alike places (.done d) (.done e) := ⟨rfl, h⟩

theorem redact_set_eq (hnil : [] ∉ places) (hms : redactMembers ms places = redactMembers ns places)
    (key : String) {v w : Value}
    (hvw : redact v (beyondKey key places) = redact w (beyondKey key places)) :
    redact (.obj (ms.set key v)) places = redact (.obj (ns.set key w)) places := by
  rw [Value.redact_obj hnil, Value.redact_obj hnil, Value.redactMembers_set,
    Value.redactMembers_set, hms, hvw]

/-- A member on the way is there in both documents or in neither, and is null in both or neither. -/
theorem entryFor_alike (hms : redactMembers ms places = redactMembers ns places)
    {key next : String} {rest : List String}
    (hfence : ∀ p ∈ places, (Value.obj ms).Fenced (key :: next :: rest) p) :
    entryFor ms key next = entryFor ns key next ∨
      ∃ c c', entryFor ms key next = .ok c ∧ entryFor ns key next = .ok c' ∧
        (∀ p ∈ beyondKey key places, c.Fenced (next :: rest) p) ∧
        redact c (beyondKey key places) = redact c' (beyondKey key places) := by
  obtain ⟨hc, hc'⟩ | ⟨c, c', hc, hc', hcc⟩ := Value.get?_of_redactMembers_eq hms key
  · exact .inl (by rw [entryFor, entryFor, hc, hc'])
  · have hfence' := Value.fenced_beyondKey hfence hc
    -- Where the members differ, both are objects, so neither counts as missing.
    obtain ⟨-, rfl⟩ | ⟨-, os, os', rfl, rfl, -⟩ := Value.eq_or_obj_of_fenced hfence' hcc
    · exact .inl (by rw [entryFor, entryFor, hc, hc'])
    · refine .inr ⟨_, _, ?_, ?_, hfence', hcc⟩
      · rw [entryFor, hc]
      · rw [entryFor, hc']

theorem descend_alike (hleaf : SetsMember leaf)
    (hfence : ∀ p ∈ places, d.Fenced t p ∧ ¬ t <+: p) (heq : redact d places = redact e places) :
    (descend leaf q d t).Alike places (descend leaf q e t) := by
  induction t generalizing d e places with
  | nil => exact .done heq
  | cons key t ih =>
    have hfenced : ∀ p ∈ places, d.Fenced (key :: t) p := fun p hp => (hfence p hp).1
    obtain ⟨-, rfl⟩ | ⟨hnil, ms, ns, rfl, rfl, hms⟩ := Value.eq_or_obj_of_fenced hfenced heq
    · exact .refl _
    · cases t with
      | nil =>
        obtain ⟨v, hv⟩ := hleaf
        rw [descend, descend, hv, hv]
        exact .done (redact_set_eq hnil hms key rfl)
      | cons next rest =>
        rw [descend_obj, descend_obj]
        obtain hentry | ⟨c, c', hc, hc', hfence', hcc⟩ := entryFor_alike hms hfenced
        · rw [hentry]
          cases entryFor ns key next with
          | error f => exact .withFault heq f
          | ok child => exact ⟨rfl, redact_set_eq hnil hms key rfl⟩
        · rw [hc, hc']
          have hchild := ih (fun p hp =>
            ⟨hfence' p hp, Value.not_prefix_of_cons (hfence _ (mem_beyondKey.1 hp)).2⟩) hcc
          exact ⟨hchild.1, redact_set_eq hnil hms key hchild.2⟩

theorem eraseAt_alike (hfence : ∀ p ∈ places, d.Fenced t p ∧ ¬ t <+: p)
    (heq : redact d places = redact e places) :
    redact (eraseAt d t) places = redact (eraseAt e t) places := by
  induction t generalizing d e places with
  | nil => exact heq
  | cons key t ih =>
    have hfenced : ∀ p ∈ places, d.Fenced (key :: t) p := fun p hp => (hfence p hp).1
    obtain ⟨-, rfl⟩ | ⟨hnil, ms, ns, rfl, rfl, hms⟩ := Value.eq_or_obj_of_fenced hfenced heq
    · rfl
    · cases t with
      | nil =>
        show redact (.obj (Members.erase ms key)) places = redact (.obj (Members.erase ns key)) places
        rw [Value.redact_obj hnil, Value.redact_obj hnil, Value.redactMembers_erase,
          Value.redactMembers_erase, hms]
      | cons next rest =>
        rw [eraseAt, eraseAt]
        obtain ⟨hc, hc'⟩ | ⟨c, c', hc, hc', hcc⟩ := Value.get?_of_redactMembers_eq hms key
        · rw [hc, hc']
          exact heq
        · rw [hc, hc']
          have hfence' := Value.fenced_beyondKey hfenced hc
          have hchild := ih (fun p hp =>
            ⟨hfence' p hp, Value.not_prefix_of_cons (hfence _ (mem_beyondKey.1 hp)).2⟩) hcc
          exact redact_set_eq hnil hms key hchild

/-! ## 3. The parts of an operation -/

variable {source target : Pointer}

/-- Both additions and replacements write at the root or through a leaf. -/
theorem write_alike (hleaf : SetsMember leaf)
    (hfence : ∀ p ∈ places, d.Fenced q.keys p ∧ ¬ q.keys <+: p)
    (heq : redact d places = redact e places) (v : Value) :
    Attempt.Alike places (if q.isRoot then .done v else descend leaf q d q.keys)
      (if q.isRoot then .done v else descend leaf q e q.keys) := by
  by_cases hroot : q.isRoot = true
  · rw [if_pos hroot, if_pos hroot]
    exact .refl _
  · rw [if_neg hroot, if_neg hroot]
    exact descend_alike hleaf hfence heq

theorem add_alike (hfence : ∀ p ∈ places, d.Fenced q.keys p ∧ ¬ q.keys <+: p)
    (heq : redact d places = redact e places) (v : Value) :
    (add q v d).Alike places (add q v e) :=
  write_alike (setsMember_insertInto q v) hfence heq v

theorem replace_alike (hfence : ∀ p ∈ places, d.Fenced q.keys p ∧ ¬ q.keys <+: p)
    (heq : redact d places = redact e places) (v : Value) :
    (replace q v d).Alike places (replace q v e) :=
  write_alike (setsMember_overwriteIn q v) hfence heq v

theorem remove_alike (hfence : ∀ p ∈ places, d.Fenced q.keys p ∧ ¬ q.keys <+: p)
    (heq : redact d places = redact e places) : (remove q d).Alike places (remove q e) := by
  unfold remove
  by_cases hroot : q.isRoot = true
  · rw [if_pos hroot, if_pos hroot]
    exact .withFault heq _
  · rw [if_neg hroot, if_neg hroot, (Value.at?_eq_of_fenced hfence heq).2]
    cases e.overlongAt? q.keys with
    | some digits => exact .withFault heq _
    | none => exact .done (eraseAt_alike hfence heq)

theorem valueAt_eq (hfence : ∀ p ∈ places, d.Fenced q.keys p ∧ ¬ q.keys <+: p)
    (heq : redact d places = redact e places) : valueAt q d = valueAt q e := by
  obtain ⟨hat, hoverlong⟩ := Value.at?_eq_of_fenced hfence heq
  unfold valueAt Value.resolve?
  rw [hat, hoverlong]

theorem withResult_alike {α : Type} (heq : redact d places = redact e places) (r : Except Fault α)
    {next next' : α → Attempt} (h : ∀ a, r = .ok a → (next a).Alike places (next' a)) :
    (withResult d r next).Alike places (withResult e r next') := by
  cases r with
  | error f => exact .withFault heq f
  | ok a => exact h a rfl

theorem memberAt?_write (hleaf : SetsMember leaf) (hx : d.memberAt? s = some x)
    (hst : ¬ s <+: q.keys) (hts : ¬ q.keys <+: s) (v : Value) :
    (if q.isRoot then .done v else descend leaf q d q.keys : Attempt).document.memberAt? s =
      some x := by
  by_cases hroot : q.isRoot = true
  · rw [List.isEmpty_iff.1 hroot] at hts
    exact absurd List.nil_prefix hts
  · rw [if_neg hroot]
    exact memberAt?_descend hleaf hx hst hts

theorem memberAt?_add (hx : d.memberAt? s = some x) (hst : ¬ s <+: q.keys) (hts : ¬ q.keys <+: s)
    (v : Value) : (add q v d).document.memberAt? s = some x :=
  memberAt?_write (setsMember_insertInto q v) hx hst hts v

theorem memberAt?_replace (hx : d.memberAt? s = some x) (hst : ¬ s <+: q.keys)
    (hts : ¬ q.keys <+: s) (v : Value) : (replace q v d).document.memberAt? s = some x :=
  memberAt?_write (setsMember_overwriteIn q v) hx hst hts v

theorem memberAt?_remove (hx : d.memberAt? s = some x) (hst : ¬ s <+: q.keys)
    (hts : ¬ q.keys <+: s) : (remove q d).document.memberAt? s = some x := by
  unfold remove
  split
  · exact hx
  · split
    · exact hx
    · exact memberAt?_eraseAt hx hst hts

end Patch

/-! ## 4. Whole operations -/

namespace Operation

open Patch

/-- The pointer texts that an operation makes use of. -/
def names (op : Operation) : List String :=
  op.path ::
    match op.verb with
    | .move | .copy => op.source.toList
    | _ => []

/-- The pointers among the names of an operation. -/
def Names (op : Operation) (q : Pointer) : Prop := ∃ text ∈ op.names, Pointer.parse text = .ok q

variable {op : Operation} {d e x : Value} {places : List (List String)} {s : List String}
  {q : Pointer}

theorem parse_of_pointer {text : String} (h : pointer text = .ok q) :
    Pointer.parse text = .ok q := by
  unfold pointer at h
  cases hparse : Pointer.parse text with
  | error f => rw [hparse] at h; cases h
  | ok q' => rw [hparse] at h; cases h; rfl

theorem mem_names (hverb : op.verb = .move ∨ op.verb = .copy) {text : String}
    (hsource : op.source = some text) : text ∈ op.names := by
  unfold names
  rcases hverb with hverb | hverb <;> simp [hverb, hsource]

theorem names_path (h : pointer op.path = .ok q) : op.Names q :=
  ⟨op.path, List.mem_cons_self, parse_of_pointer h⟩

/-- What a source that is given comes to. -/
theorem sourceValue_of_source {text : String} (h : op.source = some text) (d : Value) :
    sourceValue op d =
      match pointer text with
      | .error f => .error f
      | .ok q =>
        match valueAt q d with
        | .error f => .error f
        | .ok none => .error (.sourceMissing q)
        | .ok (some v) => .ok (q, v) := by
  unfold sourceValue
  simp only [h, bind, Except.bind]
  cases pointer text with
  | error f => rfl
  | ok q =>
    dsimp only
    cases valueAt q d with
    | error f => rfl
    | ok found => cases found <;> rfl

theorem names_source (hverb : op.verb = .move ∨ op.verb = .copy) {text : String}
    (hsource : op.source = some text) (h : pointer text = .ok q) : op.Names q :=
  ⟨text, mem_names hverb hsource, parse_of_pointer h⟩

theorem names_of_sourceValue (hverb : op.verb = .move ∨ op.verb = .copy) {v : Value}
    (h : sourceValue op d = .ok (q, v)) : op.Names q := by
  cases hsource : op.source with
  | none =>
    unfold sourceValue at h
    rw [hsource] at h
    cases h
  | some text =>
    rw [sourceValue_of_source hsource] at h
    cases hpointer : pointer text with
    | error f => rw [hpointer] at h; cases h
    | ok q' =>
      rw [hpointer] at h
      dsimp only at h
      split at h
      · cases h
      · cases h
      · cases h
        exact names_source hverb hsource hpointer

theorem sourceValue_congr (hverb : op.verb = .move ∨ op.verb = .copy)
    (h : ∀ q, op.Names q → valueAt q d = valueAt q e) : sourceValue op d = sourceValue op e := by
  cases hsource : op.source with
  | none =>
    unfold sourceValue
    rw [hsource]
  | some text =>
    rw [sourceValue_of_source hsource, sourceValue_of_source hsource]
    cases hpointer : pointer text with
    | error f => rfl
    | ok q =>
      dsimp only
      rw [h q (names_source hverb hsource hpointer)]

/-- No name of the operation comes to a place or goes through it: on the way to every place there is
a fence that all names turn away from, and none of them stops short at it. -/
def Clear (places : List (List String)) (d : Value) (op : Operation) : Prop :=
  ∀ p ∈ places, ∃ s, s <+: p ∧ (d.memberAt? s).isSome = true ∧
    ∀ q, op.Names q → ¬ s <+: q.keys ∧ ¬ q.keys <+: p

theorem Clear.fenced (h : op.Clear places d) (hq : op.Names q) :
    ∀ p ∈ places, d.Fenced q.keys p ∧ ¬ q.keys <+: p := by
  intro p hp
  obtain ⟨s, hs, hsome, hnames⟩ := h p hp
  exact ⟨⟨s, hs, hsome, (hnames q hq).1⟩, (hnames q hq).2⟩

/-- An operation leaves alone what is at a place that all its names turn away from. -/
theorem memberAt?_attempt (hx : d.memberAt? s = some x)
    (hnames : ∀ q, op.Names q → ¬ s <+: q.keys ∧ ¬ q.keys <+: s) :
    (op.attempt d).document.memberAt? s = some x := by
  unfold attempt
  cases hpath : pointer op.path with
  | error f => exact hx
  | ok target =>
    obtain ⟨hst, hts⟩ := hnames target (names_path hpath)
    rw [withResult]
    cases hverb : op.verb with
    | add => exact memberAt?_add hx hst hts _
    | remove => exact memberAt?_remove hx hst hts
    | replace => exact memberAt?_replace hx hst hts _
    | test =>
      dsimp only [Patch.test]
      cases valueAt target d with
      | error f => exact hx
      | ok found =>
        cases found with
        | none => exact hx
        | some v =>
          rw [withResult]
          dsimp only
          split <;> exact hx
    | move =>
      cases hfrom : sourceValue op d with
      | error f => exact hx
      | ok found =>
        obtain ⟨source, v⟩ := found
        obtain ⟨hss, hsource⟩ := hnames source (names_of_sourceValue (.inl hverb) hfrom)
        rw [withResult]
        dsimp only [Patch.move]
        split
        · exact hx
        · split
          · exact hx
          · have hremoved := memberAt?_remove hx hss hsource
            unfold Attempt.andThen
            split
            · exact memberAt?_add hremoved hst hts _
            · exact hremoved
    | copy =>
      cases hfrom : sourceValue op d with
      | error f => exact hx
      | ok found => exact memberAt?_add hx hst hts _

/-- On documents with one redaction, an operation that stays clear of the places meets the same
faults and leaves documents with one redaction. -/
theorem attempt_alike (hclear : op.Clear places d) (heq : redact d places = redact e places) :
    (op.attempt d).Alike places (op.attempt e) := by
  unfold attempt
  refine withResult_alike heq _ fun target hpath => ?_
  have htarget := hclear.fenced (names_path hpath)
  have hvalue : ∀ q, op.Names q → valueAt q d = valueAt q e :=
    fun q hq => valueAt_eq (hclear.fenced hq) heq
  cases hverb : op.verb with
  | add => exact add_alike htarget heq _
  | remove => exact remove_alike htarget heq
  | replace => exact replace_alike htarget heq _
  | test =>
    dsimp only [Patch.test]
    rw [hvalue target (names_path hpath)]
    refine withResult_alike heq _ fun found _ => ?_
    cases found with
    | none => exact .withFault heq _
    | some v =>
      dsimp only
      split
      · exact .done heq
      · exact .withFault heq _
  | move =>
    dsimp only
    rw [sourceValue_congr (.inl hverb) hvalue]
    refine withResult_alike heq _ fun found hfrom => ?_
    obtain ⟨source, v⟩ := found
    have hsource := names_of_sourceValue (.inl hverb) hfrom
    dsimp only [Patch.move]
    split
    · exact .done heq
    · split
      · exact .withFault heq _
      · obtain ⟨hfault, hremoved⟩ := remove_alike (hclear.fenced hsource) heq
        unfold Attempt.andThen
        rw [hfault]
        split
        · -- The fences of the target are still there once the source is gone.
          refine add_alike (fun p hp => ⟨?_, (htarget p hp).2⟩) hremoved _
          obtain ⟨s, hs, hsome, hnames⟩ := hclear p hp
          obtain ⟨x, hx⟩ := Option.isSome_iff_exists.1 hsome
          obtain ⟨hss, hsp⟩ := hnames source hsource
          have hkept := memberAt?_remove hx hss fun hpre => hsp (hpre.trans hs)
          exact ⟨s, hs, by rw [hkept]; rfl, (hnames target (names_path hpath)).1⟩
        · exact ⟨hfault, hremoved⟩
  | copy =>
    dsimp only
    rw [sourceValue_congr (.inr hverb) hvalue]
    exact withResult_alike heq _ fun found _ => add_alike htarget heq _

end Operation

end Dashboards
