import Mathlib.Data.Nat.Digits.Defs
import Dashboards.Proofs.Json.Strictness
import Dashboards.Proofs.Patch.Places

/-!
# What was added, and what lies beside it

A value that was added is found where it was added; where that was behind the last item of an array,
it is found at the length that the array had.  What lies beside it is where it was.  The exception is
an array that got an item more: its items from the place of the new one on have moved on by one.
-/

namespace Dashboards

/-! ## 1. Ways that part -/

/-- Two ways of which none goes on where the other ends part at some key. -/
theorem exists_fork {s t : List String} (hst : ¬ s <+: t) (hts : ¬ t <+: s) :
    ∃ c a b s' t', a ≠ b ∧ s = c ++ a :: s' ∧ t = c ++ b :: t' := by
  induction s generalizing t with
  | nil => exact absurd List.nil_prefix hst
  | cons a s ih =>
    cases t with
    | nil => exact absurd List.nil_prefix hts
    | cons b t =>
      by_cases hab : a = b
      · subst hab
        obtain ⟨c, a', b', s', t', hne, rfl, rfl⟩ :=
          ih (Value.not_prefix_of_cons hst) (Value.not_prefix_of_cons hts)
        exact ⟨a :: c, a', b', s', t', hne, rfl, rfl⟩
      · exact ⟨[], a, b, s, t, hab, rfl, rfl⟩

/-- Two ways that are the same before their last keys part at the last key of one of them. -/
theorem fork_unique {c s s' t t' : List String} {a b k l : String} (hne : a ≠ b)
    (hs : c ++ a :: s' = s ++ [k]) (ht : c ++ b :: t' = s ++ l :: t) :
    s' = [] ∧ s = c ∧ k = a ∧ l = b ∧ t = t' := by
  induction c generalizing s with
  | nil =>
    cases s with
    | nil => simp_all
    | cons x s => simp_all
  | cons x c ih =>
    cases s with
    | nil => simp at hs
    | cons y s =>
      simp only [List.cons_append, List.cons.injEq] at hs ht
      obtain ⟨hs', rfl, rest⟩ := ih hs.2 ht.2
      exact ⟨hs', by rw [hs.1], rest⟩

namespace Value

variable {v w : Value} {s : List String}

theorem at?_numeral (xs : List Value) (i : Nat) (t : List String) :
    (Value.arr xs).at? (toString i :: t) = xs[i]?.bind (·.at? t) := by
  show ((indexOf? (toString i)).bind (xs[·]?)).bind _ = _
  rw [indexOf?_toString]
  rfl

theorem exists_collection_of_at? {k : String} {t : List String} (h : (v.at? (s ++ k :: t)).isSome) :
    ∃ w, v.at? s = some w ∧ w.isCollection = true := by
  rw [at?_bind] at h
  cases hw : v.at? s with
  | none => rw [hw] at h; cases h
  | some w =>
    rw [hw] at h
    refine ⟨w, rfl, ?_⟩
    cases w <;> first | rfl | cases h

theorem overlongAt?_append (hw : v.at? s = some w) (hs : v.overlongAt? s = none) (t : List String) :
    v.overlongAt? (s ++ t) = w.overlongAt? t := by
  induction s generalizing v with
  | nil =>
    obtain rfl : v = w := by simpa [at?] using hw
    rfl
  | cons k s ih =>
    cases v with
    | obj ms =>
      obtain ⟨u, hu, hw⟩ := Option.bind_eq_some_iff.1 hw
      change (Members.get? ms k).bind _ = none at hs
      change (Members.get? ms k).bind _ = _
      rw [hu, Option.bind_some] at hs ⊢
      exact ih hw hs
    | arr xs =>
      obtain ⟨u, hu, hw⟩ := Option.bind_eq_some_iff.1 hw
      rw [List.cons_append]
      rw [overlongAt?] at hs ⊢
      cases hlong : overlongIndex? k with
      | some digits => rw [hlong] at hs; cases hs
      | none =>
        rw [hlong] at hs
        dsimp only at hs ⊢
        rw [hu, Option.bind_some] at hs ⊢
        exact ih hw hs
    | _ => cases hw

theorem jsonEqual_refl (h : v.Orderly (·.isNaN = false)) : v.jsonEqual v = true := by
  refine (jsonEqual_iff h).2 ⟨looseEqual_refl (h.mono fun n hn => .inl (Number.same_refl hn)), ?_⟩
  intro keys x y hx hy
  rw [Option.some.inj (hx.symm.trans hy)]

end Value

theorem overlongIndex?_toString {n : Nat} (h : n < 10 ^ Excess.digitLimit) :
    overlongIndex? (toString n) = none := by
  have hlist : (toString n).toList = Nat.toDigits 10 n := Nat.toList_repr
  have hdigits := (List.length_filter_le Char.isDigit (Nat.toDigits 10 n)).trans
    (Nat.toDigits_length 10 n _ (by decide) h)
  unfold overlongIndex?
  rw [hlist]
  exact if_neg fun hlong => absurd hlong.1 (Nat.not_lt.2 hdigits)

namespace Patch

variable {leaf : String → Value → Except Fault Value} {p q : Pointer} {d d' v x y : Value}
  {ms : Members Value} {xs : List Value} {k k' key : String} {ks r t : List String}

/-! ## 2. The way of a walk -/

theorem overlongIndex?_of_indexIn {i : Nat} (h : indexIn q k = .ok i) : overlongIndex? k = none := by
  rw [indexIn] at h
  cases hlong : overlongIndex? k with
  | none => rfl
  | some digits => rw [hlong] at h; cases h

/-- A walk goes by no index that has too many digits. -/
theorem overlongIndex?_of_descend (h : (descend leaf q (.arr xs) (key :: k :: r)).fault = none) :
    overlongIndex? key = none := by
  rw [descend_arr] at h
  cases hindex : indexIn q key with
  | error f => rw [hindex] at h; cases h
  | ok i => exact overlongIndex?_of_indexIn hindex

theorem overlongAt?_descend (h : (descend leaf q d (ks ++ k :: r)).fault = none) :
    (descend leaf q d (ks ++ k :: r)).document.overlongAt? ks = none := by
  induction ks generalizing d with
  | nil =>
    generalize (descend leaf q d ([] ++ k :: r)).document = w
    cases w <;> rfl
  | cons key ks ih =>
    obtain ⟨next, rest, hkeys⟩ := List.exists_cons_of_ne_nil (List.append_ne_nil_of_right_ne_nil ks
      (List.cons_ne_nil k r))
    rw [List.cons_append, hkeys] at h ⊢
    cases d with
    | obj ms =>
      obtain ⟨x, -, hfault, hdocument⟩ := descend_member h
      rw [← hkeys] at hfault hdocument
      rw [← hkeys, hdocument, Value.overlongAt?, Members.get?_set_self]
      exact ih hfault
    | arr xs =>
      have hlong := overlongIndex?_of_descend h
      obtain ⟨i, x, hi, hx, hfault, hdocument⟩ := descend_item h
      rw [← hkeys] at hfault hdocument
      rw [← hkeys, hdocument, Value.overlongAt?, hlong, hi]
      dsimp only
      rw [Option.bind_some, List.getElem?_set_self (List.getElem?_eq_some_iff.1 hx).1]
      exact ih hfault
    | _ => rw [descend_scalar rfl] at h; cases h

/-- A walk on from a collection leaves what lies under its other keys. -/
theorem at?_descend_of_ne (h : (descend leaf q y (k :: key :: r)).fault = none) {a : String}
    (hne : a ≠ k)
    (hnumerals : ∀ xs, y = .arr xs → (∃ i : Nat, k = toString i) ∧ ∃ j : Nat, a = toString j)
    (t : List String) :
    (descend leaf q y (k :: key :: r)).document.at? (a :: t) = y.at? (a :: t) := by
  cases y with
  | obj ms =>
    obtain ⟨x, -, -, hdocument⟩ := descend_member h
    rw [hdocument, Value.at?_obj, Value.at?_obj, Members.get?_set_of_ne _ _ hne]
  | arr xs =>
    obtain ⟨⟨i, rfl⟩, j, rfl⟩ := hnumerals xs rfl
    obtain ⟨i', x, hi, -, -, hdocument⟩ := descend_item h
    obtain rfl : i = i' := Option.some.inj ((indexOf?_toString i).symm.trans hi)
    have hij : i ≠ j := fun hij => hne (by rw [hij])
    rw [hdocument, Value.at?_numeral, Value.at?_numeral, List.getElem?_set_ne hij]
  | _ => rw [descend_scalar rfl] at h; cases h

/-! ## 3. The container of what was added -/

/-- The place of a value that was added to a document at a pointer.  Behind the last item of an array
that is the length of the array; an array that was made for the value was empty. -/
def addedAt (doc : Value) (p : Pointer) : Pointer :=
  if p.last? = some appendKey then
    match doc.at? p.parent.keys with
    | some (.obj _) => p
    | some (.arr xs) => ⟨p.parent.keys ++ [toString xs.length]⟩
    | _ => ⟨p.parent.keys ++ [toString 0]⟩
  else p

theorem addedAt_of_ne (d : Value) (s : List String) (hk : k ≠ appendKey) :
    addedAt d ⟨s ++ [k]⟩ = ⟨s ++ [k]⟩ := by
  refine if_neg fun hlast => hk ?_
  rw [Pointer.last?, List.getLast?_concat] at hlast
  exact Option.some.inj hlast

theorem addedAt_append (d : Value) (s : List String) :
    addedAt d ⟨s ++ [appendKey]⟩ =
      match d.at? s with
      | some (.obj _) => ⟨s ++ [appendKey]⟩
      | some (.arr xs) => ⟨s ++ [toString xs.length]⟩
      | _ => ⟨s ++ [toString 0]⟩ := by
  rw [addedAt, Pointer.last?, Pointer.parent, List.getLast?_concat, List.dropLast_concat]
  exact if_pos rfl

/-- A container that got a value under a key, and the key that leads to the value from then on. -/
inductive Added (v : Value) (k : String) : Value → Value → String → Prop
  | member (ms : Members Value) : Added v k (.obj ms) (.obj (ms.set k v)) k
  | item {xs : List Value} {i : Nat} (hi : i ≤ xs.length) (hk : indexOf? k = some i)
      (hlong : overlongIndex? k = none) : Added v k (.arr xs) (.arr (xs.insertIdx i v)) k
  | last (xs : List Value) (hk : k = appendKey) :
      Added v k (.arr xs) (.arr (xs ++ [v])) (toString xs.length)

theorem containerFor_appendKey : containerFor appendKey = .ok (.arr []) := rfl

/-- Where a value was added, there was a container, or one was made, and it got the value. -/
theorem exists_added {s : List String} (h : (descend (insertInto q v) q d (s ++ [k])).fault = none) :
    ∃ c w k', Opened d s k c ∧ Added v k c w k' ∧ addedAt d ⟨s ++ [k]⟩ = ⟨s ++ [k']⟩ ∧
      (descend (insertInto q v) q d (s ++ [k])).document.at? s = some w := by
  obtain ⟨c, hopened, hfault, hat⟩ := at?_descend_of_below h
  obtain ⟨w, hw, hdocument⟩ := descend_singleton hfault
  rw [hdocument] at hat
  cases c with
  | obj ms =>
    cases hw
    refine ⟨_, _, k, hopened, .member ms, ?_, hat⟩
    by_cases hk : k = appendKey
    · subst hk
      rw [addedAt_append]
      obtain hget | ⟨-, hcontainer⟩ := hopened
      · rw [hget]
      · rw [containerFor_appendKey] at hcontainer
        cases hcontainer
    · exact addedAt_of_ne d s hk
  | arr xs =>
    by_cases hk : k = appendKey
    · subst hk
      cases hw
      refine ⟨_, _, toString xs.length, hopened, .last xs rfl, ?_, hat⟩
      rw [addedAt_append]
      obtain hget | ⟨hget, hcontainer⟩ := hopened
      · rw [hget]
      · rw [containerFor_appendKey] at hcontainer
        cases hcontainer
        obtain hget | hget := hget <;> rw [hget] <;> rfl
    · rw [insertInto, if_neg hk] at hw
      cases hindex : indexIn q k with
      | error f => rw [hindex] at hw; cases hw
      | ok i =>
        rw [hindex] at hw
        dsimp only at hw
        split at hw
        · rename_i hi
          cases hw
          refine ⟨_, _, k, hopened, .item hi (indexIn_eq_ok hindex) ?_, addedAt_of_ne d s hk, hat⟩
          exact overlongIndex?_of_indexIn hindex
        · cases hw
  | _ => cases hw

namespace Added

variable {c w : Value}

/-- The key leads to the value. -/
theorem at?_self (h : Added v k c w k') : w.at? [k'] = some v := by
  cases h with
  | member ms => rw [Value.at?_obj, Members.get?_set_self]; rfl
  | item hi hk hlong =>
    rw [Value.at?_item hk (List.getElem?_insertIdx_self.trans (if_pos hi))]
    rfl
  | last xs hk => rw [Value.at?_numeral, List.getElem?_concat_length]; rfl

/-- The key is within bounds, if the array was. -/
theorem overlongAt?_self (h : Added v k c w k') :
    w.overlongAt? [k'] = none ∨ ∃ xs, c = .arr xs ∧ 10 ^ Excess.digitLimit ≤ xs.length := by
  cases h with
  | member ms =>
    left
    rw [Value.overlongAt?, Members.get?_set_self]
    cases v <;> rfl
  | item hi hk hlong =>
    left
    rw [Value.overlongAt?, hlong, hk]
    dsimp only
    rw [Option.bind_some, List.getElem?_insertIdx_self, if_pos hi]
    cases v <;> rfl
  | last xs hk =>
    by_cases hlength : xs.length < 10 ^ Excess.digitLimit
    · left
      rw [Value.overlongAt?, overlongIndex?_toString hlength, indexOf?_toString]
      dsimp only
      rw [Option.bind_some, List.getElem?_concat_length]
      cases v <;> rfl
    · exact .inr ⟨xs, rfl, Nat.le_of_not_lt hlength⟩

/-- The other members of an object stay. -/
theorem at?_of_ne (h : Added v k (.obj ms) w k') {a : String} (hne : a ≠ k') (t : List String) :
    w.at? (a :: t) = (Value.obj ms).at? (a :: t) := by
  cases h
  rw [Value.at?_obj, Value.at?_obj, Members.get?_set_of_ne _ _ hne]

/-- In an array the value goes in at the index that the key stands for. -/
theorem eq_insertIdx {i : Nat} (h : Added v k (.arr xs) w (toString i)) :
    w = .arr (xs.insertIdx i v) := by
  generalize hkey : toString i = k' at h
  cases h with
  | item hi hk hlong =>
    rw [← hkey, indexOf?_toString] at hk
    cases hk
    rfl
  | last hk =>
    have hlength := indexOf?_toString i
    rw [hkey, indexOf?_toString] at hlength
    cases hlength
    rw [List.insertIdx_length_self]

/-- The items before the value stay. -/
theorem at?_before {i j : Nat} (h : Added v k (.arr xs) w (toString i)) (hj : j < i)
    (t : List String) : w.at? (toString j :: t) = (Value.arr xs).at? (toString j :: t) := by
  rw [h.eq_insertIdx, Value.at?_numeral, Value.at?_numeral, List.getElem?_insertIdx_of_lt hj]

/-- The items from the index of the value on move on by one. -/
theorem at?_behind {i j : Nat} (h : Added v k (.arr xs) w (toString i)) (hj : i ≤ j)
    (t : List String) : w.at? (toString (j + 1) :: t) = (Value.arr xs).at? (toString j :: t) := by
  rw [h.eq_insertIdx, Value.at?_numeral, Value.at?_numeral,
    List.getElem?_insertIdx_of_gt (Nat.lt_succ_of_le hj)]
  rfl

end Added

/-! ## 4. What was added, and what lies beside it -/

/-- Where a pointer meets arrays of the document, its keys are plain decimal numerals. -/
def Numbered (doc : Value) (p : Pointer) : Prop :=
  ∀ s k t xs, p.keys = s ++ k :: t → doc.at? s = some (.arr xs) → ∃ i : Nat, k = toString i

/-- The pointer `q` goes through item `j` of the array at `s`, and `p` leads to that item or one
before it. -/
def Behind (doc : Value) (p q : Pointer) (s : List String) (j : Nat) (t : List String) : Prop :=
  q.keys = s ++ toString j :: t ∧ (∃ xs, doc.at? s = some (.arr xs)) ∧
    ∃ i ≤ j, p.keys = s ++ [toString i]

/-- An addition below the root, with the container that got the value. -/
theorem exists_added_of_add (hp : p.isRoot = false) (h : add p v d = .done d') :
    ∃ s k c w k', p.keys = s ++ [k] ∧ addedAt d p = ⟨s ++ [k']⟩ ∧ Opened d s k c ∧
      Added v k c w k' ∧ (descend (insertInto p v) p d p.keys = .done d') ∧ d'.at? s = some w := by
  obtain ⟨keys⟩ := p
  have hne : keys ≠ [] := fun hnil => by
    rw [Pointer.isRoot, hnil] at hp
    cases hp
  obtain ⟨s, k, rfl⟩ : ∃ s k, keys = s ++ [k] :=
    ⟨keys.dropLast, keys.getLast hne, (List.dropLast_append_getLast hne).symm⟩
  rw [add, if_neg (by simp [hp])] at h
  obtain ⟨c, w, k', hopened, hadded, hplace, hat⟩ := exists_added (congrArg Attempt.fault h)
  rw [h] at hat
  exact ⟨s, k, c, w, k', rfl, hplace, hopened, hadded, h, hat⟩

/-- The value that was added is found at its place. -/
theorem resolve?_addedAt (hp : p.isRoot = false) (h : add p v d = .done d') :
    d'.resolve? (addedAt d p) = some v := by
  obtain ⟨s, k, c, w, k', -, hplace, -, hadded, -, hat⟩ := exists_added_of_add hp h
  rw [hplace, Value.resolve?, Value.at?_bind, hat]
  exact hadded.at?_self

/-- A test for what was added goes well, or the array had so many items that their numbers go beyond
the bound for indices. -/
theorem test_addedAt (hp : p.isRoot = false) (h : add p v d = .done d')
    (hv : v.Orderly (·.isNaN = false)) :
    test (addedAt d p) v d' = .done d' ∨
      ∃ xs, d.at? p.parent.keys = some (.arr xs) ∧ 10 ^ Excess.digitLimit ≤ xs.length := by
  have hfound := resolve?_addedAt hp h
  obtain ⟨s, k, c, w, k', hkeys, hplace, hopened, hadded, hdone, hat⟩ := exists_added_of_add hp h
  have hlong : d'.overlongAt? (addedAt d p).keys = w.overlongAt? [k'] := by
    rw [hplace]
    rw [hkeys] at hdone
    have hway := overlongAt?_descend (congrArg Attempt.fault hdone)
    rw [hdone] at hway
    exact Value.overlongAt?_append hat hway [k']
  obtain hshort | ⟨xs, rfl, hlength⟩ := hadded.overlongAt?_self
  · left
    rw [test, valueAt, hlong, hshort, hfound]
    exact if_pos (Value.jsonEqual_refl hv)
  · right
    rw [Pointer.parent, hkeys, List.dropLast_concat]
    obtain hget | ⟨-, hcontainer⟩ := hopened
    · exact ⟨xs, hget, hlength⟩
    · -- An array that was made for the value was empty.
      obtain hempty | hempty := containerFor_eq_ok hcontainer
      · cases hempty
        exact absurd hlength (Nat.not_le.2 (Nat.pow_pos (by decide)))
      · cases hempty

/-- An addition below another key of a collection on the way. -/
theorem at?_of_fork {u : List String} {a b : String}
    (hdone : descend leaf q d (u ++ b :: r) = .done d') (hr : r ≠ []) (hy : d.at? u = some y)
    (hcollection : y.isCollection = true) (hne : a ≠ b)
    (hnumerals : ∀ xs, y = .arr xs → (∃ i : Nat, b = toString i) ∧ ∃ j : Nat, a = toString j)
    (t : List String) : d'.at? (u ++ a :: t) = d.at? (u ++ a :: t) := by
  obtain ⟨key, rest, rfl⟩ := List.exists_cons_of_ne_nil hr
  obtain ⟨x, hopened, hfault, hat⟩ := at?_descend_of_below (congrArg Attempt.fault hdone)
  obtain rfl := hopened.eq hy hcollection
  rw [hdone] at hat
  change d'.at? u = _ at hat
  rw [Value.at?_bind, Value.at?_bind, hy, hat]
  exact at?_descend_of_ne hfault hne hnumerals t

/-- Pointers of which neither starts with the other part somewhere. -/
theorem exists_fork_of_startsWith {q : Pointer} (hpq : q.startsWith p = false)
    (hqp : p.startsWith q = false) :
    ∃ u a b t r, a ≠ b ∧ q.keys = u ++ a :: t ∧ p.keys = u ++ b :: r := by
  refine exists_fork (fun hpre => ?_) (fun hpre => ?_)
  · rw [Pointer.startsWith, List.isPrefixOf_iff_prefix.2 hpre] at hqp
    cases hqp
  · rw [Pointer.startsWith, List.isPrefixOf_iff_prefix.2 hpre] at hpq
    cases hpq

/-- A pointer that lies behind another one parts with it at the last key of the other one. -/
theorem Behind.parts {q : Pointer} {u s t t' : List String} {a b : String} {j : Nat}
    (h : Behind d p q s j t') (hne : a ≠ b) (hq : q.keys = u ++ a :: t) (hp : p.keys = u ++ b :: r) :
    r = [] ∧ s = u ∧ toString j = a ∧ t' = t ∧ (∃ i ≤ j, toString i = b) ∧
      ∃ xs, d.at? u = some (.arr xs) := by
  obtain ⟨hq', harray, i, hij, hp'⟩ := h
  obtain ⟨hr, rfl, hi, hj, ht⟩ := fork_unique (Ne.symm hne) (hp.symm.trans hp') (hq.symm.trans hq')
  exact ⟨hr, rfl, hj, ht, ⟨i, hij, hi⟩, harray⟩

/-- What lies beside an addition stays, unless it is moved on. -/
theorem resolve?_beside (hp : p.isRoot = false) (h : add p v d = .done d')
    (hnumbered : Numbered d (addedAt d p)) (hq : Numbered d q) (hfound : (d.resolve? q).isSome)
    (hpq : q.startsWith (addedAt d p) = false) (hqp : (addedAt d p).startsWith q = false) :
    (∀ s j t, Behind d (addedAt d p) q s j t →
        d'.resolve? ⟨s ++ toString (j + 1) :: t⟩ = d.resolve? q) ∧
      ((¬ ∃ s j t, Behind d (addedAt d p) q s j t) → d'.resolve? q = d.resolve? q) := by
  obtain ⟨s, k, c, w, k', hkeys, hplace, hopened, hadded, hdone, hat⟩ := exists_added_of_add hp h
  obtain ⟨u, a, b, t, r, hne, hqkeys, hpkeys⟩ := exists_fork_of_startsWith hpq hqp
  have hresolve : ∀ e : Value, e.resolve? q = e.at? (u ++ a :: t) := fun e => congrArg e.at? hqkeys
  rw [hresolve] at hfound
  obtain ⟨y, hy, hcollection⟩ := Value.exists_collection_of_at? hfound
  have hnumerals : ∀ xs, y = .arr xs → (∃ i : Nat, b = toString i) ∧ ∃ j : Nat, a = toString j := by
    rintro xs rfl
    exact ⟨hnumbered u b r xs hpkeys hy, hq u a t xs hqkeys hy⟩
  rw [hresolve, hresolve]
  cases r with
  | nil =>
    -- The ways part at the place of the value.
    obtain ⟨rfl, hlast⟩ := List.append_inj' ((congrArg Pointer.keys hplace).symm.trans hpkeys) rfl
    obtain rfl : k' = b := List.head_eq_of_cons_eq hlast
    obtain rfl := hopened.eq hy hcollection
    have hfrom : ∀ key rest, d'.at? (s ++ key :: rest) = w.at? (key :: rest) := fun key rest => by
      rw [Value.at?_bind, hat]
      rfl
    rw [Value.at?_bind d, hy]
    cases c with
    | obj ms =>
      refine ⟨fun s' j t' hb => ?_, fun _ => ?_⟩
      · obtain ⟨-, -, -, -, -, xs, harray⟩ := hb.parts hne hqkeys hpkeys
        rw [hy] at harray
        cases harray
      · exact (hfrom a t).trans (hadded.at?_of_ne hne t)
    | arr xs =>
      obtain ⟨⟨i, rfl⟩, j, rfl⟩ := hnumerals xs rfl
      refine ⟨fun s' j' t' hb => ?_, fun hb => ?_⟩
      · obtain ⟨-, rfl, hj, rfl, ⟨i', hij, hi⟩, -⟩ := hb.parts hne hqkeys hpkeys
        rw [← hi] at hadded
        rw [← hj]
        exact (hfrom _ _).trans (hadded.at?_behind hij t')
      · have hij : j < i := by
          by_contra hij
          exact hb ⟨s, j, t, hqkeys, ⟨xs, hy⟩, i, Nat.le_of_not_lt hij, hpkeys⟩
        exact (hfrom _ _).trans (hadded.at?_before hij t)
    | _ => cases hcollection
  | cons next rest =>
    -- The ways part before, where the addition only goes on.
    refine ⟨fun s' j t' hb => ?_, fun _ => ?_⟩
    · obtain ⟨hnil, -⟩ := hb.parts hne hqkeys hpkeys
      cases hnil
    · have hs : s = u ++ b :: (next :: rest).dropLast := by
        have hdrop := congrArg List.dropLast ((congrArg Pointer.keys hplace).symm.trans hpkeys)
        rwa [List.dropLast_concat, List.dropLast_append_cons, List.dropLast_cons_cons] at hdrop
      rw [hkeys, hs, List.append_assoc, List.cons_append] at hdone
      exact at?_of_fork hdone (List.concat_ne_nil _ _) hy hcollection hne hnumerals t

/-- Where an addition goes well, the value is found at its place, a test for it there goes well, and
what lies beside it stays, or has moved on by one in the array that got the value.  The test is given
up only where the array had more items than indices have numerals. -/
theorem add_found_and_framed (hp : p.isRoot = false) (h : add p v d = .done d') :
    d'.resolve? (addedAt d p) = some v ∧
      (v.Orderly (·.isNaN = false) → ∀ op : Operation, op.verb = .test → op.value = v →
        pointer op.path = .ok (addedAt d p) → op.apply d' = .ok d' ∨
          ∃ xs, d.at? p.parent.keys = some (.arr xs) ∧ 10 ^ Excess.digitLimit ≤ xs.length) ∧
      ∀ q, Numbered d (addedAt d p) → Numbered d q → (d.resolve? q).isSome →
        q.startsWith (addedAt d p) = false → (addedAt d p).startsWith q = false →
          (∀ s j t, Behind d (addedAt d p) q s j t →
            d'.resolve? ⟨s ++ toString (j + 1) :: t⟩ = d.resolve? q) ∧
          ((¬ ∃ s j t, Behind d (addedAt d p) q s j t) → d'.resolve? q = d.resolve? q) := by
  refine ⟨resolve?_addedAt hp h, fun hv op hverb hvalue hpath => ?_,
    fun q hnumbered hq hfound hpq hqp => resolve?_beside hp h hnumbered hq hfound hpq hqp⟩
  have happly : op.apply d' = (test (addedAt d p) v d').toExcept := by
    rw [Operation.apply, Operation.attempt, hpath, hverb, hvalue]
    rfl
  rw [happly]
  obtain htest | hlength := test_addedAt hp h hv
  · exact .inl (by rw [htest]; rfl)
  · exact .inr hlength

/-- A dashboard with two tabs. -/
def tabbed : Value :=
  .obj [("ui", .obj [("tabs", .arr [.str "Overview", .str "Leads"])]), ("name", .str "Sales")]

/-- The same with a tab more in the front. -/
def tabbedMore : Value :=
  .obj [("ui", .obj [("tabs", .arr [.str "Home", .str "Overview", .str "Leads"])]),
    ("name", .str "Sales")]

theorem numbered_tabbed (i : Nat) : Numbered tabbed ⟨["ui", "tabs", toString i]⟩ := by
  intro s k t xs hkeys harray
  rcases s with - | ⟨a, - | ⟨b, - | ⟨c, s⟩⟩⟩
  · cases harray
  · obtain ⟨rfl, -⟩ := List.cons.inj hkeys
    cases harray
  · obtain ⟨-, hkeys⟩ := List.cons.inj hkeys
    obtain ⟨-, hkeys⟩ := List.cons.inj hkeys
    exact ⟨i, (List.cons.inj hkeys).1.symm⟩
  · simp at hkeys

/-- A tab that is added in front of two others is found there, and they have moved on. -/
theorem add_found_in_tabs :
    let home : Operation := ⟨.test, "/ui/tabs/0", .str "Home", none⟩
    tabbedMore.resolve? ⟨["ui", "tabs", "0"]⟩ = some (.str "Home") ∧
      home.apply tabbedMore = .ok tabbedMore ∧
      tabbedMore.resolve? ⟨["ui", "tabs", "2"]⟩ = tabbed.resolve? ⟨["ui", "tabs", "1"]⟩ := by
  intro home
  have hadd : add ⟨["ui", "tabs", "0"]⟩ (.str "Home") tabbed = .done tabbedMore := rfl
  obtain ⟨hfound, htest, hbeside⟩ := add_found_and_framed rfl hadd
  obtain ⟨hbehind, -⟩ := hbeside ⟨["ui", "tabs", "1"]⟩ (numbered_tabbed 0) (numbered_tabbed 1) rfl
    (by decide) (by decide)
  have hshort : ¬ ∃ xs, tabbed.at? ["ui", "tabs"] = some (.arr xs) ∧
      10 ^ Excess.digitLimit ≤ xs.length := by
    rintro ⟨xs, harray, hlength⟩
    cases harray
    have hpow : 10 ^ 1 ≤ 10 ^ Excess.digitLimit := Nat.pow_le_pow_right (by decide) (by decide)
    exact absurd (hpow.trans hlength) (by decide)
  exact ⟨hfound, (htest trivial home rfl rfl (by decide +kernel)).resolve_right hshort,
    hbehind ["ui", "tabs"] 1 [] ⟨rfl, ⟨_, rfl⟩, 0, by decide, rfl⟩⟩

example : addedAt tabbed ⟨["ui", "tabs", "-"]⟩ = ⟨["ui", "tabs", "2"]⟩ := by decide +kernel

end Patch

end Dashboards
