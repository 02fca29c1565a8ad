import Mathlib.Data.List.InsertIdx
import Dashboards.Proofs.Patch.Frames
import Dashboards.Proofs.Patch.Steps
import Dashboards.Proofs.Policy.Documents

/-!
# Operations that undo one another

A value that is added where there was none is taken away by a removal at its place, and a value that
is removed comes back when it is added where it was.  So a move is undone by the move back, and a
replacement does what a removal and an addition do.  Only the order of members can change: a member
that comes back is the last one.  Removals where there is nothing change nothing, unless an index
has more digits than can be read.
-/

namespace Dashboards

namespace Patch

open Value (Frame Reordered)

variable {p : Pointer} {c d e v x : Value} {f : Value → Value} {k : String} {s : List String}

/-! ## 1. Places that are taken -/

/-- A collection in which a key leads to a value. -/
inductive Held (v : Value) (k : String) : Value → Prop
  | member {ms : Members Value} (h : ms.get? k = some v) : Held v k (.obj ms)
  | item {xs : List Value} {i : Nat} (hi : indexOf? k = some i) (hlong : overlongIndex? k = none)
      (hx : xs[i]? = some v) : Held v k (.arr xs)

theorem held_of_at? (h : c.at? [k] = some v) (hlong : c.overlongAt? [k] = none) : Held v k c := by
  cases c with
  | obj ms =>
    obtain ⟨w, hw, hv⟩ := Option.bind_eq_some_iff.1 h
    obtain rfl : w = v := by simpa [Value.at?] using hv
    exact .member hw
  | arr xs =>
    obtain ⟨i, hi, hx⟩ := Value.exists_item_of_at? h
    refine .item hi ?_ hx
    rw [Value.overlongAt?] at hlong
    cases hk : overlongIndex? k with
    | none => rfl
    | some digits => rw [hk] at hlong; cases hlong
  | _ => cases h

theorem insertInto_index {xs : List Value} {i : Nat} (hindex : indexIn p k = .ok i)
    (hi : i ≤ xs.length) : insertInto p v k (.arr xs) = .ok (.arr (xs.insertIdx i v)) := by
  have hk : k ≠ appendKey := by
    rintro rfl
    cases indexIn_eq_ok hindex
  rw [insertInto, if_neg hk, hindex]
  exact if_pos hi

namespace Held

theorem isCollection (h : Held v k c) : c.isCollection = true := by cases h <;> rfl

theorem at?_self (h : Held v k c) : c.at? [k] = some v := by
  cases h with
  | member h => rw [Value.at?_obj, h]; rfl
  | item hi hlong hx => rw [Value.at?_item hi hx]; rfl

theorem overlongAt?_self (h : Held v k c) : c.overlongAt? [k] = none := by
  cases h with
  | member h => rw [Value.overlongAt?, h]; cases v <;> rfl
  | item hi hlong hx =>
    rw [Value.overlongAt?, hlong, hi]
    dsimp only
    rw [Option.bind_some, hx]
    cases v <;> rfl

theorem isCollection_eraseAt (h : Held v k c) : (eraseAt c [k]).isCollection = true := by
  cases h with
  | member h => rfl
  | item hi hlong hx => rw [eraseAt, hi]; rfl

theorem overwriteIn_self (h : Held v k c) (p : Pointer) : overwriteIn p v k c = .ok c := by
  cases h with
  | member h => rw [overwriteIn, Members.set_of_get? h]
  | item hi hlong hx =>
    obtain ⟨hlt, hget⟩ := List.getElem?_eq_some_iff.1 hx
    rw [overwriteIn, indexIn_of_index hi hlong]
    dsimp only
    rw [if_pos hlt, ← hget, List.set_getElem_self]

/-- What is there can be overwritten, and a removal and an insertion do the same. -/
theorem exists_overwritten (h : Held v k c) (hc : c.Orderly fun _ => True) (p : Pointer)
    (x : Value) :
    ∃ u w, overwriteIn p x k c = .ok u ∧ Held x k u ∧
      insertInto p x k (eraseAt c [k]) = .ok w ∧ Reordered w u := by
  cases h with
  | @member ms h =>
    -- The member is written again behind the others.
    refine ⟨_, _, rfl, .member (Members.get?_set_self ms k x), rfl, .places ?_⟩
    exact Members.perm_set_erase (Value.orderly_obj_iff.1 hc).1 h x
  | @item xs i hi hlong hx =>
    -- Items keep their order: the value goes in where the others have closed the gap.
    obtain ⟨hlt, -⟩ := List.getElem?_eq_some_iff.1 hx
    have hindex : indexIn p k = .ok i := indexIn_of_index hi hlong
    have hle : i ≤ (xs.eraseIdx i).length := by
      rw [List.length_eraseIdx_of_lt hlt]
      omega
    refine ⟨.arr (xs.set i x), .arr (xs.set i x), ?_, ?_, ?_, .refl _⟩
    · rw [overwriteIn, hindex]
      exact if_pos hlt
    · exact .item hi hlong (List.getElem?_set_self hlt)
    · rw [eraseAt, hi]
      dsimp only
      rw [insertInto_index hindex hle, List.insertIdx_eraseIdx_self (Nat.ne_of_lt hlt)]

end Held

/-! ## 2. Writes and removals in a frame -/

variable {w : Value}

theorem exists_keys (hp : p.isRoot = false) : ∃ k, p.keys = p.parent.keys ++ [k] := by
  have hne : p.keys ≠ [] := by
    rwa [Pointer.isRoot, List.isEmpty_eq_false_iff] at hp
  exact ⟨p.keys.getLast hne, (List.dropLast_append_getLast hne).symm⟩

theorem add_frame (h : Frame s f) (hc : c.isCollection = true) (hp : p.keys = s ++ [k])
    (hw : insertInto p v k c = .ok w) : add p v (f c) = .done (f w) := by
  rw [add, if_neg (by simp [isRoot_of_keys hp]), hp, descend_frame h hc, descend, hw]
  rfl

theorem replace_frame (h : Frame s f) (hc : c.isCollection = true) (hp : p.keys = s ++ [k])
    (hw : overwriteIn p v k c = .ok w) : replace p v (f c) = .done (f w) := by
  rw [replace, if_neg (by simp [isRoot_of_keys hp]), hp, descend_frame h hc, descend, hw]
  rfl

theorem remove_frame (h : Frame s f) (hp : p.keys = s ++ [k]) (hc : c.overlongAt? [k] = none) :
    remove p (f c) = .done (f (eraseAt c [k])) := by
  rw [remove, if_neg (by simp [isRoot_of_keys hp]), hp, h.overlongAt?_append, hc, eraseAt_frame h]

theorem valueAt_frame (h : Frame s f) (hp : p.keys = s ++ [k]) (hv : Held v k c) :
    valueAt p (f c) = .ok (some v) := by
  rw [valueAt, Value.resolve?, hp, h.overlongAt?_append, h.at?_append, hv.overlongAt?_self,
    hv.at?_self]

/-- The frame around the collection that holds what a pointer resolves to. -/
theorem exists_held (hp : p.isRoot = false) (h : valueAt p d = .ok (some v)) :
    ∃ s k f c, p.keys = s ++ [k] ∧ Frame s f ∧ d = f c ∧ Held v k c := by
  obtain ⟨hlong, hfound⟩ := valueAt_eq_ok_iff.1 h
  obtain ⟨k, hkeys⟩ := exists_keys hp
  rw [Value.resolve?, hkeys, Value.at?_bind] at hfound
  rw [hkeys] at hlong
  obtain ⟨c, hc, hv⟩ := Option.bind_eq_some_iff.1 hfound
  obtain ⟨f, hf, rfl⟩ := Value.exists_frame hc hlong
  rw [hf.overlongAt?_append] at hlong
  exact ⟨_, k, f, c, hkeys, hf, rfl, held_of_at? hv hlong⟩

/-- A frame around an orderly document is one around an orderly collection. -/
theorem orderly_of_frame (h : Frame s f) (hd : (f c).Orderly fun _ => True) :
    c.Orderly fun _ => True := by
  have hat := h.at?_append c []
  rw [List.append_nil] at hat
  exact hd.at? hat

/-! ## 3. Places that are free -/

/-- A place where a value goes in without taking the place of another one: a member that an object
does not have, or an index of an array up to the place behind its last item. -/
inductive Vacant (d : Value) (p : Pointer) : Prop
  | member {ms : Members Value} {k : String} (last : p.last? = some k)
      (found : valueAt p.parent d = .ok (some (.obj ms))) (absent : ms.get? k = none) : Vacant d p
  | item {xs : List Value} {k : String} {i : Nat} (last : p.last? = some k)
      (found : valueAt p.parent d = .ok (some (.arr xs))) (index : indexIn p k = .ok i)
      (bound : i ≤ xs.length) : Vacant d p
  | behind {xs : List Value} (last : p.last? = some appendKey)
      (found : valueAt p.parent d = .ok (some (.arr xs))) : Vacant d p

/-- The frame around the collection that the parent of a pointer resolves to. -/
theorem exists_frame_of_parent (last : p.last? = some k)
    (found : valueAt p.parent d = .ok (some c)) :
    ∃ s f, p = ⟨s ++ [k]⟩ ∧ Frame s f ∧ d = f c ∧ d.at? s = some c := by
  obtain ⟨keys⟩ := p
  obtain ⟨s, hs⟩ := List.getLast?_eq_some_iff.1 last
  subst hs
  rw [Pointer.parent, List.dropLast_concat] at found
  obtain ⟨f, hf, hd⟩ := exists_frame_of_valueAt found
  exact ⟨s, f, rfl, hf, hd, (valueAt_eq_ok_iff.1 found).2⟩

/-- The collection before and after a value goes in at a free place.  Behind the items of an array
the index of the value may have too many digits. -/
theorem Vacant.exists_inserted (h : Vacant d p) (v : Value) :
    ∃ s k f c w k', p = ⟨s ++ [k]⟩ ∧ Frame s f ∧ d = f c ∧ c.isCollection = true ∧
      insertInto p v k c = .ok w ∧ addedAt d p = ⟨s ++ [k']⟩ ∧ eraseAt w [k'] = c ∧
      (Held v k' w ∨ k = appendKey ∧ ∃ xs, c = .arr xs ∧ 10 ^ Excess.digitLimit ≤ xs.length) := by
  cases h with
  | @member ms k last found absent =>
    obtain ⟨s, f, rfl, hf, hd, hat⟩ := exists_frame_of_parent last found
    refine ⟨s, k, f, _, _, k, rfl, hf, hd, rfl, rfl, ?_, ?_,
      .inl (.member (Members.get?_set_self ms k v))⟩
    · by_cases hk : k = appendKey
      · rw [hk, addedAt_append, hat]
      · exact addedAt_of_ne d s hk
    · rw [eraseAt, Members.erase_set_of_get?_none absent]
  | @item xs k i last found index bound =>
    have hi := indexIn_eq_ok index
    have hself : (xs.insertIdx i v)[i]? = some v :=
      List.getElem?_insertIdx_self.trans (if_pos bound)
    obtain ⟨s, f, rfl, hf, hd, -⟩ := exists_frame_of_parent last found
    refine ⟨s, k, f, _, _, k, rfl, hf, hd, rfl, insertInto_index index bound,
      addedAt_of_ne d s ?_, ?_, .inl (.item hi (overlongIndex?_of_indexIn index) hself)⟩
    · rintro rfl
      cases hi
    · rw [eraseAt, hi]
      dsimp only
      rw [List.eraseIdx_insertIdx_self]
  | @behind xs last found =>
    have hi := indexOf?_toString xs.length
    obtain ⟨s, f, rfl, hf, hd, hat⟩ := exists_frame_of_parent last found
    refine ⟨s, appendKey, f, _, _, toString xs.length, rfl, hf, hd, rfl, rfl, ?_, ?_, ?_⟩
    · rw [addedAt_append, hat]
    · rw [eraseAt, hi]
      dsimp only
      rw [List.eraseIdx_append_of_length_le (Nat.le_refl _), Nat.sub_self]
      simp
    · obtain hlt | hle := Nat.lt_or_ge xs.length (10 ^ Excess.digitLimit)
      · exact .inl (.item hi (overlongIndex?_toString hlt) List.getElem?_concat_length)
      · exact .inr ⟨rfl, xs, rfl, hle⟩

/-! ## 4. Additions and removals -/

/-- A value that is added at a free place is found there, and its removal gives the document back,
unless the place is behind more items than indices can count. -/
theorem Vacant.exists_add (h : Vacant d p) (v : Value) :
    ∃ e, add p v d = .done e ∧
      (valueAt (addedAt d p) e = .ok (some v) ∧ remove (addedAt d p) e = .done d ∨
        p.last? = some appendKey ∧
          ∃ xs, d.resolve? p.parent = some (.arr xs) ∧ 10 ^ Excess.digitLimit ≤ xs.length) := by
  obtain ⟨s, k, f, c, w, k', rfl, hf, rfl, hc, hw, hplace, herase,
    hheld | ⟨rfl, xs, rfl, hlength⟩⟩ := h.exists_inserted v
  · refine ⟨f w, add_frame hf hc rfl hw, .inl ?_⟩
    rw [hplace, remove_frame hf rfl hheld.overlongAt?_self, herase]
    exact ⟨valueAt_frame hf rfl hheld, rfl⟩
  · refine ⟨f w, add_frame hf hc rfl hw, .inr ⟨List.getLast?_concat, xs, ?_, hlength⟩⟩
    have hat := hf.at?_append (.arr xs) []
    rw [List.append_nil] at hat
    rw [Value.resolve?, Pointer.parent, List.dropLast_concat]
    exact hat

/-- What is removed comes back when it is added at its place. -/
theorem exists_readded (hp : p.isRoot = false) (hd : d.Orderly fun _ => True)
    (hfound : valueAt p d = .ok (some v)) :
    ∃ m e, remove p d = .done m ∧ add p v m = .done e ∧ Reordered e d := by
  obtain ⟨s, k, f, c, hkeys, hf, rfl, hheld⟩ := exists_held hp hfound
  obtain ⟨u, w, hu, -, hw, hreordered⟩ :=
    hheld.exists_overwritten (orderly_of_frame hf hd) p v
  obtain rfl : c = u := Except.ok.inj ((hheld.overwriteIn_self p).symm.trans hu)
  exact ⟨f (eraseAt c [k]), f w, remove_frame hf hkeys hheld.overlongAt?_self,
    add_frame hf hheld.isCollection_eraseAt hkeys hw, hf.reordered hreordered⟩

theorem eraseAt_of_at?_eq_none {t : List String} (h : d.at? t = none) : eraseAt d t = d := by
  induction t generalizing d with
  | nil => cases h
  | cons key t ih =>
    cases d with
    | obj ms =>
      rw [Value.at?_obj] at h
      cases hget : Members.get? ms key with
      | none =>
        cases t with
        | nil => rw [eraseAt, Members.erase_of_get?_none hget]
        | cons next rest => rw [eraseAt_obj, hget]
      | some x =>
        rw [hget, Option.bind_some] at h
        cases t with
        | nil => cases h
        | cons next rest =>
          rw [eraseAt_obj, hget]
          dsimp only
          rw [ih h, Members.set_of_get? hget]
    | arr xs =>
      obtain ⟨ys, hys⟩ := eraseAt_arr_eq xs (key :: t)
      obtain rfl | ⟨i, x, hi, hx, ⟨rfl, -⟩ | ⟨-, rfl⟩⟩ := eraseAt_item hys
      · exact hys
      · rw [Value.at?_item hi hx] at h
        cases h
      · rw [Value.at?_item hi hx] at h
        obtain ⟨hlt, hget⟩ := List.getElem?_eq_some_iff.1 hx
        rw [hys, ih h, ← hget, List.set_getElem_self]
    | _ => exact eraseAt_scalar rfl _

/-- Additions and removals are inverse to one another: at a free place, where the document comes
back as it was, and at a place that is taken, where it comes back up to the order of members.  At a
place that is not there a removal does nothing, provided that no index on the way is too long to be
read.  The first part makes an exception of arrays with more items than indices can count. -/
theorem add_remove_inverse (hp : p.isRoot = false) :
    (Vacant d p → ∀ v, ∃ e, add p v d = .done e ∧
        (remove (addedAt d p) e = .done d ∨ p.last? = some appendKey ∧
          ∃ xs, d.resolve? p.parent = some (.arr xs) ∧ 10 ^ Excess.digitLimit ≤ xs.length)) ∧
      (d.Orderly (fun _ => True) → ∀ v, valueAt p d = .ok (some v) →
        ∃ m e, remove p d = .done m ∧ add p v m = .done e ∧ Reordered e d) ∧
      (d.resolve? p = none → d.overlongAt? p.keys = none → remove p d = .done d) := by
  refine ⟨fun hvacant v => ?_, fun hd v hfound => exists_readded hp hd hfound,
    fun hnone hlong => ?_⟩
  · obtain ⟨e, hadd, ⟨-, hremove⟩ | hlength⟩ := hvacant.exists_add v
    · exact ⟨e, hadd, .inl hremove⟩
    · exact ⟨e, hadd, .inr hlength⟩
  · rw [remove, if_neg (by simp [hp]), hlong, eraseAt_of_at?_eq_none hnone]

/-- A dashboard with charts. -/
def charted (charts : List Value) : Value :=
  .obj [("title", .str "Sales"), ("charts", .arr charts)]

theorem orderly_charted {charts : List Value} (h : ∀ c ∈ charts, c.Orderly fun _ => True) :
    (charted charts).Orderly fun _ => True := by
  refine Value.orderly_obj_iff.2 ⟨by simp [Members.keys], ?_⟩
  simpa [Value.Orderly] using Value.orderly_arr_iff.2 h

/-- A chart in front of another one, the other one taken out and put back, and one that is not
there. -/
theorem add_remove_inverse_charts :
    let bar : Value := .str "bar"
    let line : Value := .str "line"
    (∃ e, add ⟨["charts", "0"]⟩ bar (charted [line]) = .done e ∧
        remove ⟨["charts", "0"]⟩ e = .done (charted [line])) ∧
      (∃ m e, remove ⟨["charts"]⟩ (charted [line]) = .done m ∧
        add ⟨["charts"]⟩ (.arr [line]) m = .done e ∧ Reordered e (charted [line])) ∧
      remove ⟨["charts", "1"]⟩ (charted [line]) = .done (charted [line]) := by
  intro bar line
  have hfree : Vacant (charted [line]) ⟨["charts", "0"]⟩ :=
    .item (i := 0) rfl rfl (by decide) (by decide)
  have hd : (charted [line]).Orderly fun _ => True :=
    orderly_charted fun c hc => by rw [List.mem_singleton.1 hc]; trivial
  obtain ⟨e, hadd, hremove | ⟨hlast, -⟩⟩ := (add_remove_inverse rfl).1 hfree bar
  · exact ⟨⟨e, hadd, hremove⟩, (add_remove_inverse rfl).2.1 hd _ rfl,
      (add_remove_inverse rfl).2.2 rfl rfl⟩
  · exact absurd hlast (by decide)

theorem isSome_overlongIndex?_toString {n : Nat} (h : 10 ^ Excess.digitLimit ≤ n) :
    (overlongIndex? (toString n)).isSome = true := by
  have hlist : (toString n).toList = Nat.toDigits 10 n := Nat.toList_repr
  have hdigits : ∀ d ∈ Nat.toDigits 10 n, d.isDigit = true := fun d hd =>
    Nat.isDigit_of_mem_toDigits (by decide) (by decide) hd
  have hlt : n < 10 ^ (Nat.toDigits 10 n).length := by
    have hvalue := Json.digitsValue_lt hdigits
    rwa [Json.digitsValue_toDigits] at hvalue
  have hlength : Excess.digitLimit < (Nat.toDigits 10 n).length :=
    (Nat.pow_lt_pow_iff_right (by decide)).1 (h.trans_lt hlt)
  unfold overlongIndex?
  rw [hlist, List.filter_eq_self.2 hdigits, indexOf?_toString]
  rw [if_pos ⟨hlength, rfl⟩]
  rfl

theorem not_removed_of_overlong {n : Nat} (h : 10 ^ Excess.digitLimit ≤ n) :
    (charted []).resolve? ⟨["charts", toString n]⟩ = none ∧
      ∀ e, remove ⟨["charts", toString n]⟩ (charted []) ≠ .done e := by
  constructor
  · exact Value.at?_numeral [] n []
  · intro e he
    obtain ⟨digits, hdigits⟩ := Option.isSome_iff_exists.1 (isSome_overlongIndex?_toString h)
    have hlong : (charted []).overlongAt? ["charts", toString n] = some digits := by
      show (Value.arr []).overlongAt? [toString n] = some digits
      rw [Value.overlongAt?, hdigits]
    rw [remove, if_neg (by simp [Pointer.isRoot]), hlong] at he
    cases he

/-- A removal at an index that is too long to be read fails, though there is nothing to remove. -/
theorem unresolved_not_removed :
    (charted []).resolve? ⟨["charts", toString (10 ^ Excess.digitLimit)]⟩ = none ∧
      ∀ e, remove ⟨["charts", toString (10 ^ Excess.digitLimit)]⟩ (charted []) ≠ .done e :=
  not_removed_of_overlong (Nat.le_refl _)

/-! ## 5. Replacements -/

/-- What a pointer resolves to can be replaced.  To remove it and to add the new value at its place
does the same up to the order of members, and the new value is found there from then on. -/
theorem replace_eq_remove_add (hp : p.isRoot = false) (hd : d.Orderly fun _ => True)
    (hfound : valueAt p d = .ok (some v)) (x : Value) :
    ∃ r m e, replace p x d = .done r ∧ remove p d = .done m ∧ add p x m = .done e ∧
      Reordered r e ∧ valueAt p r = .ok (some x) := by
  obtain ⟨s, k, f, c, hkeys, hf, rfl, hheld⟩ := exists_held hp hfound
  obtain ⟨u, w, hu, hheld', hw, hreordered⟩ :=
    hheld.exists_overwritten (orderly_of_frame hf hd) p x
  exact ⟨f u, f (eraseAt c [k]), f w, replace_frame hf hheld.isCollection hkeys hu,
    remove_frame hf hkeys hheld.overlongAt?_self,
    add_frame hf hheld.isCollection_eraseAt hkeys hw, (hf.reordered hreordered).symm,
    valueAt_frame hf hkeys hheld'⟩

/-- A title that is replaced stays in front; removed and added again, it is behind the charts. -/
theorem replace_eq_remove_add_title :
    let titled : Value := .obj [("title", .str "Leads"), ("charts", .arr [])]
    let behind : Value := .obj [("charts", .arr []), ("title", .str "Leads")]
    replace ⟨["title"]⟩ (.str "Leads") (charted []) = .done titled ∧
      (∃ m, remove ⟨["title"]⟩ (charted []) = .done m ∧
        add ⟨["title"]⟩ (.str "Leads") m = .done behind) ∧
      Reordered titled behind ∧ valueAt ⟨["title"]⟩ titled = .ok (some (.str "Leads")) := by
  intro titled behind
  have hd : (charted []).Orderly fun _ => True := orderly_charted (by simp)
  obtain ⟨r, m, e, hreplace, hremove, hadd, hreordered, hfound⟩ :=
    replace_eq_remove_add (p := ⟨["title"]⟩) rfl hd rfl (.str "Leads")
  obtain rfl : titled = r := congrArg Attempt.document hreplace
  have hm : .obj [("charts", .arr [])] = m := congrArg Attempt.document hremove
  subst hm
  obtain rfl : behind = e := congrArg Attempt.document hadd
  exact ⟨hreplace, ⟨_, hremove, hadd⟩, hreordered, hfound⟩

/-! ## 6. Moves -/

/-- An operation that moves the value at `a` to `b`. -/
structure Moves (op : Operation) (a b : Pointer) : Prop where
  verb : op.verb = .move
  source : ∃ text, op.source = some text ∧ pointer text = .ok a
  target : pointer op.path = .ok b

variable {a b : Pointer}

/-- A move to a place that is not below its source is a removal and an addition. -/
theorem move_of_remove (hab : b.startsWith a = false) {m : Value} (hremove : remove a d = .done m) :
    move a b v d = add b v m := by
  have hne : a ≠ b := by
    rintro rfl
    rw [Pointer.startsWith, List.isPrefixOf_iff_prefix.2 (List.prefix_refl _)] at hab
    cases hab
  rw [move, if_neg hne, if_neg (by simp [hab]), hremove]
  rfl

theorem Moves.sourceValue_eq {op : Operation} (h : Moves op a b)
    (hfound : valueAt a d = .ok (some v)) : sourceValue op d = .ok (a, v) := by
  obtain ⟨text, hsource, htext⟩ := h.source
  exact sourceValue_eq_ok_iff.2 ⟨text, hsource, htext, hfound⟩

theorem Moves.attempt_eq {op : Operation} (h : Moves op a b) (hfound : valueAt a d = .ok (some v)) :
    op.attempt d = move a b v d := by
  rw [Operation.attempt, h.target]
  dsimp only [withResult]
  rw [h.verb, h.sourceValue_eq hfound]

theorem Moves.apply_eq_ok {op : Operation} (h : Moves op a b) (hfound : valueAt a d = .ok (some v))
    (hab : b.startsWith a = false) {m : Value} (hremove : remove a d = .done m)
    (hadd : add b v m = .done e) : op.apply d = .ok e := by
  rw [Operation.apply_eq_ok_iff, h.attempt_eq hfound, move_of_remove hab hremove]
  exact hadd

/-- A move to a free place is undone by the move back.  Neither pointer is the root, for neither
goes on where the other ends. -/
theorem move_undone {forth back : Operation} (hforth : Moves forth a b) (hback : Moves back b a)
    (hd : d.Orderly fun _ => True) (hfound : valueAt a d = .ok (some v))
    (hab : b.startsWith a = false) (hba : a.startsWith b = false)
    (hlast : b.last? ≠ some appendKey) (hfree : Vacant (remove a d).document b) :
    ∃ e f, forth.apply d = .ok e ∧ back.apply e = .ok f ∧ Reordered f d := by
  have ha : a.isRoot = false := by
    cases hroot : a.isRoot with
    | false => rfl
    | true =>
      rw [Pointer.startsWith, List.isEmpty_iff.1 hroot] at hab
      cases hab
  obtain ⟨m, f, hremove, hreadd, hreordered⟩ := exists_readded ha hd hfound
  rw [hremove] at hfree
  change Vacant m b at hfree
  obtain ⟨e, hadd, ⟨hat, hundo⟩ | ⟨hbehind, -⟩⟩ := hfree.exists_add v
  · -- The place of `b` does not change, for it is not behind the items of an array.
    have hplace : addedAt m b = b := if_neg hlast
    rw [hplace] at hat hundo
    exact ⟨e, f, hforth.apply_eq_ok hfound hab hremove hadd,
      hback.apply_eq_ok hat hba hundo hreadd, hreordered⟩
  · exact absurd hbehind hlast

/-- A chart with a list of series. -/
def plotted (series : List Value) : Value := .obj [("series", .arr series)]

/-- A chart goes into the series of another one, which has moved on by then, and comes back. -/
theorem move_undone_charts :
    let charts := charted [.str "line", plotted [.str "bar"], plotted [.str "pie"]]
    let moved := charted [plotted [.str "bar"], plotted [.str "line", .str "pie"]]
    let forth : Operation := ⟨.move, "/charts/1/series/0", .null, some "/charts/0"⟩
    let back : Operation := ⟨.move, "/charts/0", .null, some "/charts/1/series/0"⟩
    forth.apply charts = .ok moved ∧ ∃ f, back.apply moved = .ok f ∧ Reordered f charts := by
  intro charts moved forth back
  have hchart : pointer "/charts/0" = .ok ⟨["charts", "0"]⟩ := by decide +kernel
  have hseries : pointer "/charts/1/series/0" = .ok ⟨["charts", "1", "series", "0"]⟩ := by
    decide +kernel
  have hplotted : ∀ name, (plotted [.str name]).Orderly fun _ => True := fun name =>
    Value.orderly_obj_iff.2 ⟨by simp [Members.keys], by simp [Value.Orderly, Value.OrderlyItems]⟩
  have hd : charts.Orderly fun _ => True := by
    refine orderly_charted fun c hc => ?_
    simp only [List.mem_cons, List.not_mem_nil, or_false] at hc
    rcases hc with rfl | rfl | rfl
    · trivial
    · exact hplotted _
    · exact hplotted _
  have hparent : valueAt ⟨["charts", "1", "series"]⟩ (remove ⟨["charts", "0"]⟩ charts).document =
      .ok (some (.arr [.str "pie"])) := rfl
  have hfree : Vacant (remove ⟨["charts", "0"]⟩ charts).document ⟨["charts", "1", "series", "0"]⟩ :=
    .item (i := 0) rfl hparent (by decide) (by decide)
  have hmoves : Moves forth ⟨["charts", "0"]⟩ ⟨["charts", "1", "series", "0"]⟩ :=
    ⟨rfl, ⟨_, rfl, hchart⟩, hseries⟩
  have hmoved : forth.apply charts = .ok moved := hmoves.apply_eq_ok rfl (by decide) rfl rfl
  have hmoves' : Moves back ⟨["charts", "1", "series", "0"]⟩ ⟨["charts", "0"]⟩ :=
    ⟨rfl, ⟨_, rfl, hseries⟩, hchart⟩
  obtain ⟨e, f, hforth, hback, hreordered⟩ :=
    move_undone hmoves hmoves' hd rfl (by decide) (by decide) (by decide) hfree
  obtain rfl : moved = e := Except.ok.inj (hmoved.symm.trans hforth)
  exact ⟨hmoved, f, hback, hreordered⟩

end Patch

end Dashboards
