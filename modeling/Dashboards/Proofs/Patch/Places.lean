import Dashboards.Proofs.Patch.Redaction

/-!
# What a write and a removal do at other places

A place is looked at whose keys are member names, so that objects lead to it.  A write or a removal
at a path that turns away from the place does nothing to it; at the place or above it, the place is
what the written value has there, or it is gone; below the place, the write or the removal is one in
the value at the place.  This last is true of writes below any place, those in arrays too.
-/

namespace Dashboards

/-- A key that is the name of a member only: it stands for no place in an array. -/
def MemberKey (key : String) : Prop := indexOf? key = none ∧ key ≠ appendKey

instance : DecidablePred MemberKey := fun _ => inferInstanceAs (Decidable (_ ∧ _))

/-! ## 1. Lookups -/

namespace Value

variable {v : Value} {ms : Members Value} {xs : List Value} {k : String} {s t : List String}

/-- To follow keys one part after the other is to follow them all. -/
theorem at?_bind (v : Value) (s t : List String) : v.at? (s ++ t) = (v.at? s).bind (·.at? t) := by
  induction s generalizing v with
  | nil => rfl
  | cons k s ih =>
    cases v with
    | obj ms =>
      show (Members.get? ms k).bind _ = ((Members.get? ms k).bind _).bind _
      rw [Option.bind_assoc]
      exact congrArg _ (funext ih)
    | arr xs =>
      show ((indexOf? k).bind _).bind _ = (((indexOf? k).bind _).bind _).bind _
      rw [Option.bind_assoc ((indexOf? k).bind _)]
      exact congrArg _ (funext ih)
    | _ => rfl

theorem at?_obj : (Value.obj ms).at? (k :: t) = (Members.get? ms k).bind (·.at? t) := rfl

theorem at?_arr_of_memberKey (hk : MemberKey k) : (Value.arr xs).at? (k :: t) = none := by
  show ((indexOf? k).bind _).bind _ = none
  rw [hk.1]
  rfl

theorem at?_item {i : Nat} {x : Value} (hi : indexOf? k = some i) (hx : xs[i]? = some x) :
    (Value.arr xs).at? (k :: t) = x.at? t := by
  show ((indexOf? k).bind (xs[·]?)).bind _ = _
  rw [hi, Option.bind_some, hx]
  rfl

theorem exists_item_of_at? {x : Value} (h : (Value.arr xs).at? [k] = some x) :
    ∃ i, indexOf? k = some i ∧ xs[i]? = some x := by
  obtain ⟨y, hy, hx⟩ := Option.bind_eq_some_iff.1 h
  obtain ⟨i, hi, hxs⟩ := Option.bind_eq_some_iff.1 hy
  obtain rfl : y = x := by simpa [at?] using hx
  exact ⟨i, hi, hxs⟩

end Value

namespace Patch

variable {leaf : String → Value → Except Fault Value} {q : Pointer} {d v : Value}
  {ms : Members Value} {xs : List Value} {k key next : String} {ks r rest t : List String}

/-! ## 2. Leaves of a write -/

/-- A leaf that writes `v`: it sets a member of an object or goes into an array, where it needs a key
that stands for a place, and it has no use for anything else. -/
structure Writes (leaf : String → Value → Except Fault Value) (v : Value) : Prop where
  object : ∀ key ms, leaf key (.obj ms) = .ok (.obj (Members.set ms key v))
  array : ∀ {key xs w}, leaf key (.arr xs) = .ok w → ¬ MemberKey key ∧ ∃ ys, w = .arr ys
  scalar : ∀ {key x w}, leaf key x = .ok w → x.isCollection = true

theorem indexIn_eq_ok {i : Nat} (h : indexIn q k = .ok i) : indexOf? k = some i := by
  unfold indexIn at h
  cases hlong : overlongIndex? k <;> cases hindex : indexOf? k <;> rw [hlong, hindex] at h <;> cases h
  rfl

theorem insertInto_arr {w : Value} (h : insertInto q v k (.arr xs) = .ok w) :
    (k = appendKey ∨ ∃ i, indexOf? k = some i) ∧ ∃ i ≤ xs.length, w = .arr (xs.insertIdx i v) := by
  unfold insertInto at h
  dsimp only at h
  by_cases hk : k = appendKey
  · rw [if_pos hk] at h
    cases h
    exact ⟨.inl hk, xs.length, Nat.le_refl _, by rw [List.insertIdx_length_self]⟩
  · rw [if_neg hk] at h
    cases hindex : indexIn q k with
    | error f => rw [hindex] at h; cases h
    | ok i =>
      rw [hindex] at h
      by_cases hi : i ≤ xs.length
      · simp only [if_pos hi] at h
        cases h
        exact ⟨.inr ⟨i, indexIn_eq_ok hindex⟩, i, hi, rfl⟩
      · simp only [if_neg hi] at h
        cases h

theorem overwriteIn_arr {w : Value} (h : overwriteIn q v k (.arr xs) = .ok w) :
    ∃ i, indexOf? k = some i ∧ i < xs.length ∧ w = .arr (xs.set i v) := by
  unfold overwriteIn at h
  cases hindex : indexIn q k with
  | error f => simp only [hindex] at h; cases h
  | ok i =>
    simp only [hindex] at h
    by_cases hi : i < xs.length
    · simp only [if_pos hi] at h
      cases h
      exact ⟨i, indexIn_eq_ok hindex, hi, rfl⟩
    · simp only [if_neg hi] at h
      cases h

theorem writes_insertInto (q : Pointer) (v : Value) : Writes (insertInto q v) v := by
  refine ⟨fun key ms => rfl, fun {key xs w} h => ?_, fun {key x w} h => ?_⟩
  · obtain ⟨hkey, i, -, rfl⟩ := insertInto_arr h
    refine ⟨fun hmember => ?_, _, rfl⟩
    obtain rfl | ⟨i, hi⟩ := hkey
    · exact hmember.2 rfl
    · rw [hmember.1] at hi
      cases hi
  · cases x <;> first | rfl | cases h

theorem writes_overwriteIn (q : Pointer) (v : Value) : Writes (overwriteIn q v) v := by
  refine ⟨fun key ms => rfl, fun {key xs w} h => ?_, fun {key x w} h => ?_⟩
  · obtain ⟨i, hi, -, rfl⟩ := overwriteIn_arr h
    refine ⟨fun hmember => ?_, _, rfl⟩
    rw [hmember.1] at hi
    cases hi
  · cases x <;> first | rfl | cases h

/-! ## 3. Steps of a walk -/

theorem descend_arr (key next : String) (rest : List String) :
    descend leaf q (.arr xs) (key :: next :: rest) =
      match indexIn q key with
      | .error f => ⟨.arr xs, some f⟩
      | .ok i =>
        match xs[i]? with
        | none => ⟨.arr xs, some (.outOfBounds i q)⟩
        | some child =>
          ⟨.arr (xs.set i (descend leaf q child (next :: rest)).document),
            (descend leaf q child (next :: rest)).fault⟩ := rfl

theorem descend_scalar (hd : d.isCollection = false) (key next : String) (rest : List String) :
    descend leaf q d (key :: next :: rest) = ⟨d, some (.throughScalar q)⟩ := by
  cases d with
  | arr xs => cases hd
  | obj ms => cases hd
  | _ => rfl

theorem descend_singleton (h : (descend leaf q d [key]).fault = none) :
    ∃ w, leaf key d = .ok w ∧ (descend leaf q d [key]).document = w := by
  rw [descend] at h ⊢
  cases hleaf : leaf key d with
  | error f => rw [hleaf] at h; cases h
  | ok w => exact ⟨w, rfl, rfl⟩

/-- A walk through an array that ends well goes on at one of its items. -/
theorem descend_item (h : (descend leaf q (.arr xs) (key :: next :: rest)).fault = none) :
    ∃ i x, indexOf? key = some i ∧ xs[i]? = some x ∧
      (descend leaf q x (next :: rest)).fault = none ∧
      (descend leaf q (.arr xs) (key :: next :: rest)).document =
        .arr (xs.set i (descend leaf q x (next :: rest)).document) := by
  rw [descend_arr] at h ⊢
  cases hindex : indexIn q key with
  | error f => rw [hindex] at h; cases h
  | ok i =>
    rw [hindex] at h
    dsimp only at h ⊢
    cases hx : xs[i]? with
    | none => rw [hx] at h; cases h
    | some x =>
      rw [hx] at h
      exact ⟨i, x, indexIn_eq_ok hindex, hx, h, rfl⟩

/-- A walk through an object that ends well goes on at one of its members, which may be new. -/
theorem descend_member (h : (descend leaf q (.obj ms) (key :: next :: rest)).fault = none) :
    ∃ x, entryFor ms key next = .ok x ∧ (descend leaf q x (next :: rest)).fault = none ∧
      (descend leaf q (.obj ms) (key :: next :: rest)).document =
        .obj (Members.set ms key (descend leaf q x (next :: rest)).document) := by
  rw [descend_obj] at h ⊢
  cases hentry : entryFor ms key next with
  | error f => rw [hentry] at h; cases h
  | ok x =>
    rw [hentry] at h
    exact ⟨x, rfl, h, rfl⟩

theorem isCollection_of_descend (hleaf : Writes leaf v)
    (h : (descend leaf q d (key :: r)).fault = none) : d.isCollection = true := by
  cases hd : d.isCollection with
  | true => rfl
  | false =>
    cases r with
    | nil =>
      obtain ⟨w, hw, -⟩ := descend_singleton h
      rw [hleaf.scalar hw] at hd
      cases hd
    | cons next rest =>
      rw [descend_scalar hd] at h
      cases h

theorem descend_arr_eq_done (hleaf : Writes leaf v)
    (h : (descend leaf q (.arr xs) (key :: r)).fault = none) :
    ∃ ys, descend leaf q (.arr xs) (key :: r) = .done (.arr ys) := by
  suffices hdocument : ∃ ys, (descend leaf q (.arr xs) (key :: r)).document = .arr ys by
    obtain ⟨ys, hys⟩ := hdocument
    refine ⟨ys, ?_⟩
    rw [← hys, Attempt.done, ← h]
  cases r with
  | nil =>
    obtain ⟨w, hw, hdocument⟩ := descend_singleton h
    obtain ⟨-, ys, rfl⟩ := hleaf.array hw
    exact ⟨ys, hdocument⟩
  | cons next rest =>
    obtain ⟨i, x, -, -, -, hdocument⟩ := descend_item h
    exact ⟨_, hdocument⟩

theorem document_descend_obj (hleaf : Writes leaf v)
    (h : (descend leaf q (.obj ms) (key :: r)).fault = none) :
    ∃ ns, (descend leaf q (.obj ms) (key :: r)).document = .obj ns := by
  cases r with
  | nil =>
    obtain ⟨w, hw, hdocument⟩ := descend_singleton h
    rw [hleaf.object] at hw
    cases hw
    exact ⟨_, hdocument⟩
  | cons next rest =>
    obtain ⟨x, -, -, hdocument⟩ := descend_member h
    exact ⟨_, hdocument⟩

theorem containerFor_eq_ok {x : Value} (h : containerFor next = .ok x) : x = .arr [] ∨ x = .obj [] := by
  unfold containerFor at h
  cases hlong : overlongIndex? next with
  | some digits => rw [hlong] at h; cases h
  | none =>
    rw [hlong] at h
    dsimp only at h
    cases h
    split
    · exact .inl rfl
    · exact .inr rfl

/-- What a walk goes on with at a member: the member itself, or a new container where there is none
or null. -/
theorem entryFor_eq_ok {x : Value} (h : entryFor ms key next = .ok x) :
    Members.get? ms key = some x ∨
      (Members.get? ms key = none ∨ Members.get? ms key = some .null) ∧ containerFor next = .ok x := by
  unfold entryFor at h
  split at h
  · exact .inr ⟨.inl ‹_›, h⟩
  · exact .inr ⟨.inr ‹_›, h⟩
  · cases h
    exact .inl ‹_›

/-- A new container has nothing in it, no more than what it stands in for. -/
theorem at?_entryFor {x : Value} (h : entryFor ms key next = .ok x) (k : String) (t : List String) :
    x.at? (k :: t) = (Members.get? ms key).bind (·.at? (k :: t)) := by
  rcases entryFor_eq_ok h with hx | ⟨hmissing, hx⟩
  · rw [hx]
    rfl
  · have hempty : x.at? (k :: t) = none := by
      rcases containerFor_eq_ok hx with rfl | rfl
      · show ((indexOf? k).bind _).bind _ = none
        cases indexOf? k <;> rfl
      · rfl
    rw [hempty]
    rcases hmissing with hmissing | hmissing <;> rw [hmissing] <;> rfl

/-! ## 4. Writes -/

/-- A write that turns away from a place leaves it as it is, whether it comes to its end or not. -/
theorem at?_descend_of_unrelated (hleaf : Writes leaf v) (hks : ∀ k ∈ ks, MemberKey k)
    (htk : ¬ t <+: ks) (hkt : ¬ ks <+: t) : (descend leaf q d t).document.at? ks = d.at? ks := by
  induction t generalizing d ks with
  | nil => exact absurd List.nil_prefix htk
  | cons key t ih =>
    cases ks with
    | nil => exact absurd List.nil_prefix hkt
    | cons k ks =>
      obtain ⟨hk, hrest⟩ := List.forall_mem_cons.1 hks
      cases t with
      | nil =>
        have hne : k ≠ key := Value.ne_of_not_prefix_cons htk
        rw [descend]
        cases hresult : leaf key d with
        | error f => rfl
        | ok w =>
          cases d with
          | obj ms =>
            rw [hleaf.object] at hresult
            cases hresult
            show (Members.get? (Members.set ms key v) k).bind _ = _
            rw [Members.get?_set_of_ne _ _ hne]
            rfl
          | arr xs =>
            obtain ⟨-, ys, rfl⟩ := hleaf.array hresult
            rw [Value.at?_arr_of_memberKey hk]
            exact Value.at?_arr_of_memberKey hk
          | _ => cases hleaf.scalar hresult
      | cons next rest =>
        cases d with
        | obj ms =>
          rw [descend_obj]
          cases hentry : entryFor ms key next with
          | error f => rfl
          | ok x =>
            dsimp only
            rw [Value.at?_obj, Value.at?_obj]
            by_cases hne : k = key
            · subst hne
              -- The place lies on below the member that the walk goes through.
              cases ks with
              | nil => exact absurd (List.cons_prefix_cons.2 ⟨rfl, List.nil_prefix⟩) hkt
              | cons k' ks =>
                rw [Members.get?_set_self, ← at?_entryFor hentry]
                exact ih hrest (Value.not_prefix_of_cons htk) (Value.not_prefix_of_cons hkt)
            · rw [Members.get?_set_of_ne _ _ hne]
        | arr xs =>
          rw [Value.at?_arr_of_memberKey hk, descend_arr]
          -- Whatever the walk does in an array, it leaves an array.
          split
          · exact Value.at?_arr_of_memberKey hk
          · split <;> exact Value.at?_arr_of_memberKey hk
        | _ => rw [descend_scalar rfl]

/-- A write at a place or above it puts there what the written value has at the rest of the way. -/
theorem at?_descend_of_above (hleaf : Writes leaf v) (hks : ∀ k ∈ t, MemberKey k) (ht : t ≠ [])
    (h : (descend leaf q d t).fault = none) (r : List String) :
    (descend leaf q d t).document.at? (t ++ r) = v.at? r := by
  induction t generalizing d with
  | nil => exact absurd rfl ht
  | cons key t ih =>
    obtain ⟨hkey, hrest⟩ := List.forall_mem_cons.1 hks
    cases t with
    | nil =>
      obtain ⟨w, hresult, hdocument⟩ := descend_singleton h
      rw [hdocument]
      cases d with
      | obj ms =>
        rw [hleaf.object] at hresult
        cases hresult
        show (Members.get? (Members.set ms key v) key).bind _ = _
        rw [Members.get?_set_self]
        rfl
      | arr xs => exact absurd hkey (hleaf.array hresult).1
      | _ => cases hleaf.scalar hresult
    | cons next rest =>
      cases d with
      | obj ms =>
        obtain ⟨x, -, hfault, hdocument⟩ := descend_member h
        rw [hdocument]
        show (Members.get? (Members.set ms key _) key).bind _ = _
        rw [Members.get?_set_self]
        exact ih hrest (List.cons_ne_nil _ _) hfault
      | arr xs =>
        obtain ⟨i, x, hi, -⟩ := descend_item h
        rw [hkey.1] at hi
        cases hi
      | _ => rw [descend_scalar rfl] at h; cases h

/-- The value that a walk finds at a place, or the container that it makes there to go on by `k`. -/
def Opened (d : Value) (ks : List String) (k : String) (x : Value) : Prop :=
  d.at? ks = some x ∨ (d.at? ks = none ∨ d.at? ks = some .null) ∧ containerFor k = .ok x

theorem Opened.eq {x y : Value} (h : Opened d ks k x) (hd : d.at? ks = some y)
    (hy : y.isCollection = true) : x = y := by
  rcases h with hx | ⟨hx | hx, -⟩
  · exact Option.some.inj (hx.symm.trans hd)
  · rw [hd] at hx
    cases hx
  · rw [hd] at hx
    cases hx
    cases hy

theorem Opened.cons {x y : Value} (hx : entryFor ms key next = .ok x)
    (hnext : ks = [] → next = k) (h : Opened x ks k y) : Opened (.obj ms) (key :: ks) k y := by
  unfold Opened
  rw [Value.at?_obj]
  cases ks with
  | nil =>
    obtain rfl := hnext rfl
    -- The walk has come to the place, so `x` itself was found or made there.
    obtain rfl : x = y := by
      rcases h with h | ⟨h | h, hy⟩
      · simpa [Value.at?] using h
      · cases h
      · rcases entryFor_eq_ok hx with hget | ⟨-, hcontainer⟩
        · obtain rfl : x = .null := by simpa [Value.at?] using h
          rw [entryFor, hget] at hx
          exact Except.ok.inj (hx.symm.trans hy)
        · exact Except.ok.inj (hcontainer.symm.trans hy)
    rcases entryFor_eq_ok hx with hget | ⟨hget | hget, hcontainer⟩
    · exact .inl (by rw [hget]; rfl)
    · exact .inr ⟨.inl (by rw [hget]; rfl), hcontainer⟩
    · exact .inr ⟨.inr (by rw [hget]; rfl), hcontainer⟩
  | cons k' ks =>
    rw [← at?_entryFor hx]
    exact h

/-- A write below a place is a write in the value that is at the place. -/
theorem at?_descend_of_below (h : (descend leaf q d (ks ++ k :: r)).fault = none) :
    ∃ x, Opened d ks k x ∧ (descend leaf q x (k :: r)).fault = none ∧
      (descend leaf q d (ks ++ k :: r)).document.at? ks =
        some (descend leaf q x (k :: r)).document := by
  induction ks generalizing d with
  | nil => exact ⟨d, .inl rfl, h, rfl⟩
  | cons key ks ih =>
    obtain ⟨next, rest, hkeys⟩ := List.exists_cons_of_ne_nil (List.append_ne_nil_of_right_ne_nil ks
      (List.cons_ne_nil k r))
    have hnext : ks = [] → next = k := by
      rintro rfl
      exact (List.cons.inj hkeys).1.symm
    rw [List.cons_append, hkeys] at h ⊢
    cases d with
    | obj ms =>
      obtain ⟨x, hentry, hfault, hdocument⟩ := descend_member h
      rw [← hkeys] at hfault hdocument
      obtain ⟨y, hopened, hfault', hat⟩ := ih hfault
      refine ⟨y, hopened.cons hentry hnext, hfault', ?_⟩
      rw [← hkeys, hdocument, Value.at?_obj, Members.get?_set_self]
      exact hat
    | arr xs =>
      obtain ⟨i, x, hi, hx, hfault, hdocument⟩ := descend_item h
      rw [← hkeys] at hfault hdocument
      obtain ⟨y, hopened, hfault', hat⟩ := ih hfault
      refine ⟨y, ?_, hfault', ?_⟩
      · unfold Opened
        rwa [Value.at?_item hi hx]
      · rw [← hkeys, hdocument, Value.at?_item hi (List.getElem?_set_self (List.getElem?_eq_some_iff.1 hx).1)]
        exact hat
    | _ => rw [descend_scalar rfl] at h; cases h

/-! ## 5. Removals -/

theorem eraseAt_arr_eq (xs : List Value) (t : List String) : ∃ ys, eraseAt (.arr xs) t = .arr ys := by
  cases t with
  | nil => exact ⟨xs, rfl⟩
  | cons key t =>
    cases t with
    | nil =>
      rw [eraseAt]
      split <;> exact ⟨_, rfl⟩
    | cons next rest =>
      rw [eraseAt]
      split <;> exact ⟨_, rfl⟩

theorem eraseAt_scalar (hd : d.isCollection = false) (t : List String) : eraseAt d t = d := by
  cases t with
  | nil => rfl
  | cons key t =>
    cases d with
    | arr xs => cases hd
    | obj ms => cases hd
    | _ => cases t <;> rfl

theorem eraseAt_obj (ms : Members Value) (key next : String) (rest : List String) :
    eraseAt (.obj ms) (key :: next :: rest) =
      match Members.get? ms key with
      | some x => .obj (Members.set ms key (eraseAt x (next :: rest)))
      | none => .obj ms := rfl

/-- A removal in an array takes an item out, or removes something in an item, or does nothing. -/
theorem eraseAt_item {ys : List Value} (h : eraseAt (.arr xs) (key :: r) = .arr ys) :
    ys = xs ∨ ∃ i x, indexOf? key = some i ∧ xs[i]? = some x ∧
      (r = [] ∧ ys = xs.eraseIdx i ∨ r ≠ [] ∧ ys = xs.set i (eraseAt x r)) := by
  cases r with
  | nil =>
    rw [eraseAt] at h
    cases hi : indexOf? key with
    | none =>
      rw [hi] at h
      exact .inl (Value.arr.inj h).symm
    | some i =>
      rw [hi] at h
      obtain rfl := Value.arr.inj h
      cases hx : xs[i]? with
      | none => exact .inl (List.eraseIdx_of_length_le (List.getElem?_eq_none_iff.1 hx))
      | some x => exact .inr ⟨i, x, rfl, hx, .inl ⟨rfl, rfl⟩⟩
  | cons next rest =>
    rw [eraseAt] at h
    cases hitem : (indexOf? key).bind fun i => xs[i]?.map (i, ·) with
    | none =>
      rw [hitem] at h
      exact .inl (Value.arr.inj h).symm
    | some item =>
      obtain ⟨i, x⟩ := item
      rw [hitem] at h
      obtain rfl := Value.arr.inj h
      obtain ⟨j, hj, hx⟩ := Option.bind_eq_some_iff.1 hitem
      obtain ⟨x', hx', hpair⟩ := Option.map_eq_some_iff.1 hx
      cases hpair
      exact .inr ⟨i, x, hj, hx', .inr ⟨List.cons_ne_nil _ _, rfl⟩⟩

theorem eraseAt_nil (key : String) (r : List String) : eraseAt (.arr []) (key :: r) = .arr [] := by
  obtain ⟨ys, hys⟩ := eraseAt_arr_eq [] (key :: r)
  rcases eraseAt_item hys with rfl | ⟨i, x, -, hx, -⟩
  · exact hys
  · cases hx

theorem eq_arr_of_eraseAt {ys : List Value} (h : eraseAt d t = .arr ys) : ∃ xs, d = .arr xs := by
  cases d with
  | arr xs => exact ⟨xs, rfl⟩
  | obj ms =>
    cases t with
    | nil => cases h
    | cons key t =>
      cases t with
      | nil => cases h
      | cons next rest =>
        rw [eraseAt_obj] at h
        split at h <;> cases h
  | _ =>
    rw [eraseAt_scalar rfl] at h
    cases h

/-- A removal that turns away from a place leaves it as it is. -/
theorem at?_eraseAt_of_unrelated (hks : ∀ k ∈ ks, MemberKey k) (htk : ¬ t <+: ks)
    (hkt : ¬ ks <+: t) : (eraseAt d t).at? ks = d.at? ks := by
  induction t generalizing d ks with
  | nil => rfl
  | cons key t ih =>
    cases ks with
    | nil => exact absurd List.nil_prefix hkt
    | cons k ks =>
      obtain ⟨hk, hrest⟩ := List.forall_mem_cons.1 hks
      cases d with
      | obj ms =>
        cases t with
        | nil =>
          show (Members.get? (Members.erase ms key) k).bind _ = _
          rw [Members.get?_erase_of_ne _ (Value.ne_of_not_prefix_cons htk)]
          rfl
        | cons next rest =>
          rw [eraseAt_obj]
          cases hget : Members.get? ms key with
          | none => rfl
          | some x =>
            dsimp only
            rw [Value.at?_obj, Value.at?_obj]
            by_cases hne : k = key
            · subst hne
              rw [Members.get?_set_self, hget]
              exact ih hrest (Value.not_prefix_of_cons htk) (Value.not_prefix_of_cons hkt)
            · rw [Members.get?_set_of_ne _ _ hne]
      | arr xs =>
        obtain ⟨ys, hys⟩ := eraseAt_arr_eq xs (key :: t)
        rw [hys, Value.at?_arr_of_memberKey hk, Value.at?_arr_of_memberKey hk]
      | _ => rw [eraseAt_scalar rfl]

/-- Where a place or something above it is removed, nothing is left at the place. -/
theorem at?_eraseAt_of_above (hks : ∀ k ∈ t, MemberKey k) (ht : t ≠ []) (r : List String) :
    (eraseAt d t).at? (t ++ r) = none := by
  induction t generalizing d with
  | nil => exact absurd rfl ht
  | cons key t ih =>
    obtain ⟨hkey, hrest⟩ := List.forall_mem_cons.1 hks
    cases d with
    | obj ms =>
      cases t with
      | nil =>
        show (Members.get? (Members.erase ms key) key).bind _ = none
        rw [Members.get?_erase_self]
        rfl
      | cons next rest =>
        rw [eraseAt_obj, List.cons_append]
        cases hget : Members.get? ms key with
        | none =>
          dsimp only
          rw [Value.at?_obj, hget]
          rfl
        | some x =>
          dsimp only
          rw [Value.at?_obj, Members.get?_set_self]
          exact ih hrest (List.cons_ne_nil _ _)
    | arr xs =>
      obtain ⟨ys, hys⟩ := eraseAt_arr_eq xs (key :: t)
      rw [hys]
      exact Value.at?_arr_of_memberKey hkey
    | _ =>
      rw [eraseAt_scalar rfl]
      rfl

/-- A removal below a place is a removal in the value that is at the place. -/
theorem at?_eraseAt_of_below (hks : ∀ k ∈ ks, MemberKey k) :
    (eraseAt d (ks ++ k :: r)).at? ks = (d.at? ks).map (eraseAt · (k :: r)) := by
  induction ks generalizing d with
  | nil => rfl
  | cons key ks ih =>
    obtain ⟨hkey, hrest⟩ := List.forall_mem_cons.1 hks
    cases d with
    | obj ms =>
      obtain ⟨next, rest, hkeys⟩ := List.exists_cons_of_ne_nil
        (List.append_ne_nil_of_right_ne_nil ks (List.cons_ne_nil k r))
      rw [List.cons_append, hkeys, eraseAt_obj, ← hkeys]
      cases hget : Members.get? ms key with
      | none =>
        dsimp only
        rw [Value.at?_obj, hget]
        rfl
      | some x =>
        dsimp only
        rw [Value.at?_obj, Value.at?_obj, Members.get?_set_self, hget]
        exact ih hrest
    | arr xs =>
      obtain ⟨ys, hys⟩ := eraseAt_arr_eq xs (key :: ks ++ k :: r)
      rw [hys, Value.at?_arr_of_memberKey hkey, Value.at?_arr_of_memberKey hkey]
      rfl
    | _ =>
      rw [eraseAt_scalar rfl]
      rfl

end Patch

end Dashboards
