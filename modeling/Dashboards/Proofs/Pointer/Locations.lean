import Mathlib.Data.List.Forall2
import Dashboards.Proofs.Patch.Frames

/-!
# Pointers and the locations they name

A location is where a value stands in a tree: the members and items on the way to it.  A pointer names
it by keys, and on an array a key has to be a numeral.  Every number has one numeral, so a location
would have one pointer; but a line break behind a numeral is let through, and with it a location has
one more pointer for each array on the way.  Among the other pointers, those with the same keys are
those to the same location, and the keys of one begin the keys of another exactly if the one location
lies on the way to the other.
-/

namespace Dashboards

/-! ## 1. Numerals -/

theorem digitChar_of_isDigit {c : Char} (h : c.isDigit = true) :
    Nat.digitChar (c.toNat - 48) = c := by
  obtain ⟨hlow, hhigh⟩ := isDigit_iff_toNat.1 h
  apply Char.toNat_inj.1
  rw [Nat.toNat_digitChar_of_lt_ten (by omega)]
  omega

/-- Digits that are read on after a positive number stand behind its numeral. -/
theorem toDigits_foldl {n : Nat} (hn : 0 < n) {ds : List Char} (hds : ∀ d ∈ ds, d.isDigit = true) :
    Nat.toDigits 10 (ds.foldl (fun n d => n * 10 + (d.toNat - 48)) n) = Nat.toDigits 10 n ++ ds := by
  induction ds generalizing n with
  | nil => rw [List.foldl_nil, List.append_nil]
  | cons d ds ih =>
    obtain ⟨hd, hds⟩ := List.forall_mem_cons.1 hds
    have hlt : d.toNat - 48 < 10 := by
      have := isDigit_iff_toNat.1 hd
      omega
    have hlast : Nat.toDigits 10 n ++ [d] = Nat.toDigits 10 (n * 10 + (d.toNat - 48)) := by
      rw [Nat.mul_comm, ← Nat.toDigits_append_toDigits (by decide) hn hlt,
        Nat.toDigits_of_lt_base hlt, digitChar_of_isDigit hd]
    rw [List.foldl_cons, ih (by omega) hds, ← hlast, List.append_assoc, List.singleton_append]

/-- What is read as a number is its numeral. -/
theorem canonicalNumber?_eq_some_iff {cs : List Char} {n : Nat} :
    canonicalNumber? cs = some n ↔ cs = Nat.toDigits 10 n := by
  refine ⟨fun h => ?_, fun h => h ▸ canonicalNumber?_toDigits n⟩
  unfold canonicalNumber? at h
  split at h
  · cases h
    rfl
  · rename_i c rest _
    split at h
    · rename_i hdigits
      obtain ⟨hlow, hhigh, hrest⟩ := hdigits
      have hlow' : 49 ≤ c.toNat := hlow
      have hc : c.isDigit = true := isDigit_iff_toNat.2 ⟨by omega, hhigh⟩
      have hlt : c.toNat - 48 < 10 := by
        have := (isDigit_iff_toNat.1 hc).2
        omega
      have hfirst : Nat.toDigits 10 (c.toNat - 48) = [c] := by
        rw [Nat.toDigits_of_lt_base hlt, digitChar_of_isDigit hc]
      have hread := toDigits_foldl (n := c.toNat - 48) (by omega) (List.all_eq_true.1 hrest)
      cases h
      rw [List.foldl_cons, Nat.zero_mul, Nat.zero_add, hread, hfirst, List.singleton_append]
    · cases h
  · cases h

/-- The ways to write a number as a key: its numeral, and its numeral with a line break behind. -/
def Spelled (n : Nat) (key : String) : Prop := key = toString n ∨ key = toString n ++ "\n"

theorem toList_numeral (n : Nat) : (toString n).toList = Nat.toDigits 10 n := Nat.toList_repr

theorem lineBreak_not_mem_toDigits (n : Nat) : '\n' ∉ Nat.toDigits 10 n := by
  intro h
  cases Nat.isDigit_of_mem_toDigits (by decide) (by decide) h

/-- A key stands for an index exactly if it is a spelling of the index. -/
theorem indexOf?_eq_some_iff {key : String} {n : Nat} : indexOf? key = some n ↔ Spelled n key := by
  have hspelled : Spelled n key ↔
      key.toList = Nat.toDigits 10 n ∨ key.toList = Nat.toDigits 10 n ++ ['\n'] := by
    rw [Spelled, ← String.toList_inj, ← String.toList_inj, String.toList_append, toList_numeral]
    rfl
  rw [hspelled]
  unfold indexOf?
  split
  · rename_i front hreverse
    have hkey : key.toList = front.reverse ++ ['\n'] := by
      rw [← List.reverse_reverse key.toList, hreverse, List.reverse_cons]
    rw [canonicalNumber?_eq_some_iff, hkey, List.append_left_inj]
    -- A numeral alone has no line break.
    refine ⟨.inr, fun h => h.resolve_left fun hnumeral => ?_⟩
    exact lineBreak_not_mem_toDigits n (hnumeral ▸ List.mem_append_right _ List.mem_cons_self)
  · rename_i hlast
    rw [canonicalNumber?_eq_some_iff]
    refine ⟨.inl, fun h => h.resolve_right fun hbreak => ?_⟩
    exact hlast (Nat.toDigits 10 n).reverse (by rw [hbreak, List.reverse_append]; rfl)

/-- The spellings of a number are overlong together. -/
theorem overlongIndex?_eq_none_iff {key : String} {n : Nat} (h : Spelled n key) :
    overlongIndex? key = none ↔ (toString n).length ≤ Excess.digitLimit := by
  have hdigits : (Nat.toDigits 10 n).filter Char.isDigit = Nat.toDigits 10 n :=
    List.filter_eq_self.2 fun _ hd => Nat.isDigit_of_mem_toDigits (by decide) (by decide) hd
  have hfilter : key.toList.filter Char.isDigit = Nat.toDigits 10 n := by
    rcases h with rfl | rfl
    · rw [toList_numeral, hdigits]
    · have hbreak : "\n".toList.filter Char.isDigit = [] := by decide
      rw [String.toList_append, toList_numeral, List.filter_append, hdigits, hbreak,
        List.append_nil]
  rw [overlongIndex?, hfilter, indexOf?_eq_some_iff.2 h, ← String.length_toList, toList_numeral]
  simp

/-- A key is read as an index exactly if it is a spelling of the index that has not too many digits. -/
theorem Patch.indexIn_eq_ok_iff {p : Pointer} {key : String} {n : Nat} :
    indexIn p key = .ok n ↔ Spelled n key ∧ (toString n).length ≤ Excess.digitLimit := by
  constructor
  · intro h
    have hspelled := indexOf?_eq_some_iff.1 (indexIn_eq_ok h)
    exact ⟨hspelled, (overlongIndex?_eq_none_iff hspelled).1 (overlongIndex?_of_indexIn h)⟩
  · rintro ⟨hspelled, hshort⟩
    exact indexIn_of_index (indexOf?_eq_some_iff.2 hspelled)
      ((overlongIndex?_eq_none_iff hspelled).2 hshort)

/-- A key that is no numeral with a line break behind it. -/
def Tight (key : String) : Prop := ∀ n : Nat, key ≠ toString n ++ "\n"

theorem spelled_iff_of_tight {key : String} {n : Nat} (h : Tight key) :
    Spelled n key ↔ key = toString n :=
  ⟨fun hspelled => hspelled.resolve_right (h n), .inl⟩

/-! ## 2. Locations -/

/-- One way down in a tree: to a member of an object, or to an item of an array. -/
inductive Branch where
  | member (name : String)
  | item (index : Nat)
  deriving DecidableEq

namespace Branch

/-- The key of a branch as it is written without a line break. -/
def key : Branch → String
  | .member name => name
  | .item i => toString i

/-- The keys that a branch can be taken by. -/
def SpelledAs : Branch → String → Prop
  | .member name, key => key = name
  | .item i, key => Spelled i key ∧ (toString i).length ≤ Excess.digitLimit

/-- A key that has no line break behind a numeral where it is read as an index. -/
def TightAt : Branch → String → Prop
  | .member _, _ => True
  | .item _, key => Tight key

theorem SpelledAs.eq_key {b : Branch} {key : String} (h : b.SpelledAs key) (hkey : b.TightAt key) :
    b.key = key := by
  cases b with
  | member name => exact h.symm
  | item i => exact ((spelled_iff_of_tight hkey).1 h.1).symm

end Branch

namespace Value

/-- The value at the end of a branch. -/
def child? : Value → Branch → Option Value
  | .obj ms, .member name => Members.get? ms name
  | .arr xs, .item i => xs[i]?
  | _, _ => none

/-- The value at a location. -/
def follow? : Value → List Branch → Option Value
  | v, [] => some v
  | v, b :: bs => (v.child? b).bind (·.follow? bs)
termination_by structural _ bs => bs

/-- The keys lead through a tree to a value, which stands at the location. -/
inductive Leads : Value → List String → List Branch → Value → Prop
  | here (v : Value) : Leads v [] [] v
  | member {ms : Members Value} {name : String} {keys : List String} {bs : List Branch}
      {v w : Value} (h : ms.get? name = some v) (rest : Leads v keys bs w) :
      Leads (.obj ms) (name :: keys) (.member name :: bs) w
  | item {xs : List Value} {key : String} {i : Nat} {keys : List String} {bs : List Branch}
      {v w : Value} (hi : indexOf? key = some i) (hlong : overlongIndex? key = none)
      (hx : xs[i]? = some v) (rest : Leads v keys bs w) :
      Leads (.arr xs) (key :: keys) (.item i :: bs) w

variable {d v w : Value} {keys s t : List String} {bs l m : List Branch}

/-- Keys lead to a value by a location exactly if they are a spelling of the location, and the value
stands there. -/
theorem leads_iff :
    Leads d keys bs v ↔ d.follow? bs = some v ∧ List.Forall₂ Branch.SpelledAs bs keys := by
  constructor
  · intro h
    induction h with
    | here v => exact ⟨rfl, .nil⟩
    | member h rest ih =>
      refine ⟨?_, .cons rfl ih.2⟩
      rw [follow?, child?, h]
      exact ih.1
    | item hi hlong hx rest ih =>
      have hspelled := indexOf?_eq_some_iff.1 hi
      refine ⟨?_, .cons ⟨hspelled, (overlongIndex?_eq_none_iff hspelled).1 hlong⟩ ih.2⟩
      rw [follow?, child?, hx]
      exact ih.1
  · rintro ⟨hfollow, hspelled⟩
    induction hspelled generalizing d with
    | nil =>
      obtain rfl : d = v := by simpa [follow?] using hfollow
      exact .here d
    | @cons b key bs keys hkey _ ih =>
      obtain ⟨u, hchild, hrest⟩ := Option.bind_eq_some_iff.1 hfollow
      cases d with
      | obj ms =>
        cases b with
        | member name =>
          obtain rfl : key = name := hkey
          exact .member hchild (ih hrest)
        | item i => cases hchild
      | arr xs =>
        cases b with
        | member name => cases hchild
        | item i =>
          exact .item (indexOf?_eq_some_iff.2 hkey.1) ((overlongIndex?_eq_none_iff hkey.1).2 hkey.2)
            hchild (ih hrest)
      | _ => cases hchild

/-- A value is found along keys exactly if they lead to it, by whatever location. -/
theorem exists_leads_iff :
    (∃ bs, Leads d keys bs v) ↔ d.overlongAt? keys = none ∧ d.at? keys = some v := by
  constructor
  · rintro ⟨bs, h⟩
    induction h with
    | here v => cases v <;> exact ⟨rfl, rfl⟩
    | member h rest ih =>
      rw [overlongAt?, at?, h]
      exact ih
    | item hi hlong hx rest ih =>
      rw [overlongAt?, at?, hlong, hi]
      dsimp only [Option.bind_some]
      rw [hx]
      exact ih
  · rintro ⟨hlong, hfound⟩
    induction keys generalizing d with
    | nil =>
      obtain rfl : d = v := by simpa [at?] using hfound
      exact ⟨[], .here d⟩
    | cons key keys ih =>
      cases d with
      | obj ms =>
        obtain ⟨u, hu, hrest⟩ := Option.bind_eq_some_iff.1 hfound
        rw [overlongAt?, hu] at hlong
        obtain ⟨bs, hbs⟩ := ih hlong hrest
        exact ⟨_, .member hu hbs⟩
      | arr xs =>
        obtain ⟨u, hu, hrest⟩ := Option.bind_eq_some_iff.1 hfound
        obtain ⟨i, hi, hx⟩ := Option.bind_eq_some_iff.1 hu
        rw [overlongAt?] at hlong
        cases hkey : overlongIndex? key with
        | some digits => rw [hkey] at hlong; cases hlong
        | none =>
          rw [hkey, hu] at hlong
          obtain ⟨bs, hbs⟩ := ih hlong hrest
          exact ⟨_, .item hi hkey hx hbs⟩
      | _ => cases hfound

namespace Leads

/-- Keys that go on lead on from where the first ones lead to. -/
theorem prefix_of_prefix (hl : Leads d s l v) (hm : Leads d t m w) (h : s <+: t) : l <+: m := by
  induction hl generalizing t m with
  | here v => exact List.nil_prefix
  | member hv _ ih =>
    cases hm with
    | here => exact absurd (List.prefix_nil.1 h) (List.cons_ne_nil _ _)
    | member hw hrest =>
      obtain ⟨rfl, htail⟩ := List.cons_prefix_cons.1 h
      obtain rfl := Option.some.inj (hv.symm.trans hw)
      exact List.cons_prefix_cons.2 ⟨rfl, ih hrest htail⟩
  | item hi _ hx _ ih =>
    cases hm with
    | here => exact absurd (List.prefix_nil.1 h) (List.cons_ne_nil _ _)
    | item hj _ hy hrest =>
      obtain ⟨rfl, htail⟩ := List.cons_prefix_cons.1 h
      obtain rfl := Option.some.inj (hi.symm.trans hj)
      obtain rfl := Option.some.inj (hx.symm.trans hy)
      exact List.cons_prefix_cons.2 ⟨rfl, ih hrest htail⟩

/-- Where no index has a line break behind it, the keys to a location are the keys of its branches. -/
theorem keys_eq (h : Leads d s l v) (hs : List.Forall₂ Branch.TightAt l s) :
    l.map Branch.key = s := by
  have hspelled := (leads_iff.1 h).2
  clear h
  induction hs with
  | nil => rfl
  | cons htight _ ih =>
    obtain ⟨hkey, hrest⟩ := List.forall₂_cons.1 hspelled
    rw [List.map_cons, hkey.eq_key htight, ih hrest]

theorem prefix_iff (hl : Leads d s l v) (hm : Leads d t m w)
    (hs : List.Forall₂ Branch.TightAt l s) (ht : List.Forall₂ Branch.TightAt m t) :
    s <+: t ↔ l <+: m := by
  refine ⟨hl.prefix_of_prefix hm, fun h => ?_⟩
  rw [← hl.keys_eq hs, ← hm.keys_eq ht]
  exact h.map _

theorem eq_iff (hl : Leads d s l v) (hm : Leads d t m w)
    (hs : List.Forall₂ Branch.TightAt l s) (ht : List.Forall₂ Branch.TightAt m t) :
    s = t ↔ l = m := by
  constructor
  · rintro rfl
    exact List.IsPrefix.eq_of_length_le (hl.prefix_of_prefix hm List.prefix_rfl)
      (hm.prefix_of_prefix hl List.prefix_rfl).length_le
  · rintro rfl
    rw [← hl.keys_eq hs, ← hm.keys_eq ht]

end Leads

end Value

/-! ## 3. Pointers -/

namespace Patch

open Value (Leads)

/-- A key is read as an index exactly if it is the numeral of the index, of no more digits than can be
read, or this with one line break behind.  A pointer resolves to a value exactly if it spells a
location of the value in this way.  So of two pointers that both resolve, and have no line break behind
an index, both are the same exactly if they name the same location, and one starts with the other exactly
if the location of the other lies on the way to its own. -/
theorem locations_of_pointers (d : Value) (p q : Pointer) :
    (∀ key n, indexIn p key = .ok n ↔ Spelled n key ∧ (toString n).length ≤ Excess.digitLimit) ∧
      (∀ v, valueAt p d = .ok (some v) ↔
        ∃ l, d.follow? l = some v ∧ List.Forall₂ Branch.SpelledAs l p.keys) ∧
      ∀ v w, valueAt p d = .ok (some v) → valueAt q d = .ok (some w) →
        ∃ l m, Leads d p.keys l v ∧ Leads d q.keys m w ∧
          (List.Forall₂ Branch.TightAt l p.keys → List.Forall₂ Branch.TightAt m q.keys →
            (p = q ↔ l = m) ∧ (p.startsWith q = true ↔ m <+: l)) := by
  refine ⟨fun key n => indexIn_eq_ok_iff, fun v => ?_, fun v w hv hw => ?_⟩
  · simp only [valueAt_eq_ok_iff, Value.resolve?, ← Value.exists_leads_iff, Value.leads_iff]
  · obtain ⟨l, hl⟩ := Value.exists_leads_iff.2 (valueAt_eq_ok_iff.1 hv)
    obtain ⟨m, hm⟩ := Value.exists_leads_iff.2 (valueAt_eq_ok_iff.1 hw)
    refine ⟨l, m, hl, hm, fun hp hq => ⟨?_, ?_⟩⟩
    · rw [← hl.eq_iff hm hp hq]
      obtain ⟨s⟩ := p
      obtain ⟨t⟩ := q
      exact Pointer.mk.injEq s t ▸ Iff.rfl
    · rw [Pointer.startsWith, List.isPrefixOf_iff_prefix, hm.prefix_iff hl hq hp]

/-- Two pointers that name the same chart, the one by a numeral and the other with a line break behind
it. -/
theorem sameLocation_of_lineBreak :
    let d : Value := .obj [("charts", .arr [.str "bar"])]
    let p : Pointer := ⟨["charts", "0"]⟩
    let q : Pointer := ⟨["charts", "0\n"]⟩
    indexIn q "0\n" = .ok 0 ∧ "0\n" ≠ toString 0 ∧ Pointer.parse "/charts/0\n" = .ok q ∧ p ≠ q ∧
      valueAt p d = .ok (some (.str "bar")) ∧ valueAt q d = .ok (some (.str "bar")) ∧
      ∃ l, Leads d p.keys l (.str "bar") ∧ Leads d q.keys l (.str "bar") := by
  intro d p q
  have hleads : ∀ key, indexOf? key = some 0 → overlongIndex? key = none →
      Leads d ["charts", key] [.member "charts", .item 0] (.str "bar") := fun key hi hlong =>
    .member rfl (.item hi hlong rfl (.here _))
  have hfound : ∀ {r : Pointer} {l v}, Leads d r.keys l v → valueAt r d = .ok (some v) := fun h =>
    valueAt_eq_ok_iff.2 (Value.exists_leads_iff.1 ⟨_, h⟩)
  have hp : Leads d p.keys [.member "charts", .item 0] (.str "bar") :=
    hleads "0" (by decide +kernel) (by decide +kernel)
  have hq : Leads d q.keys [.member "charts", .item 0] (.str "bar") :=
    hleads "0\n" (by decide +kernel) (by decide +kernel)
  exact ⟨by decide +kernel, by decide +kernel, by decide +kernel, by decide +kernel, hfound hp,
    hfound hq, _, hp, hq⟩

end Patch

end Dashboards
