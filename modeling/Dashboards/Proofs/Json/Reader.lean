import Dashboards.Json.Reader
import Dashboards.Proofs.Json.Equality
import Dashboards.Proofs.Json.Numerals

/-!
# Trees that are read

Whatever a JSON text says, the tree that is read from it has each key of an object once, no integer
of too many digits and no collections that are nested too deeply.
-/

namespace Dashboards

/-! ## 1. Members that are written -/

namespace Members

variable {α : Type} {ms : Members α} {m : String × α} {key : String} {v : α}

theorem mem_set (h : m ∈ ms.set key v) : m = (key, v) ∨ m ∈ ms := by
  induction ms with
  | nil => exact .inl (by simpa [set] using h)
  | cons e ms ih =>
    rw [set] at h
    split at h
    · rename_i hk
      subst hk
      rcases List.mem_cons.1 h with rfl | hmem
      · exact .inl rfl
      · exact .inr (List.mem_cons_of_mem _ hmem)
    · rcases List.mem_cons.1 h with rfl | hmem
      · exact .inr List.mem_cons_self
      · exact (ih hmem).imp_right (List.mem_cons_of_mem _)

/-- A new key comes last. -/
theorem set_of_not_mem (h : key ∉ ms.keys) (v : α) : ms.set key v = ms ++ [(key, v)] := by
  induction ms with
  | nil => rfl
  | cons e ms ih =>
    obtain ⟨hne, hrest⟩ := not_or.1 fun hmem => h (List.mem_cons.2 hmem)
    rw [set, if_neg (Ne.symm hne), ih hrest]
    rfl

theorem nodup_keys_set (h : ms.keys.Nodup) (key : String) (v : α) : (ms.set key v).keys.Nodup := by
  induction ms with
  | nil => simp [set, keys]
  | cons e ms ih =>
    obtain ⟨hfirst, hrest⟩ := List.nodup_cons.1 h
    rw [set]
    split
    · exact List.nodup_cons.2 ⟨hfirst, hrest⟩
    · rename_i hk
      refine List.nodup_cons.2 ⟨fun hmem => ?_, ih hrest⟩
      obtain ⟨m, hm, hme⟩ := List.mem_map.1 hmem
      rcases mem_set hm with rfl | hold
      · exact hk hme.symm
      · exact hfirst (List.mem_map.2 ⟨m, hold, hme⟩)

end Members

/-! ## 2. Legible trees -/

namespace Value

/-- A scalar that one token can stand for. -/
def Plain : Value → Prop
  | .num n => n.Short
  | .arr _ | .obj _ => False
  | _ => True

/-- Each key of an object is there once, no integer has too many digits, and there is room for the
collections that are nested. -/
inductive Legible : Nat → Value → Prop
  | scalar {room : Nat} {v : Value} (h : v.Plain) : Legible room v
  | arr {room : Nat} {xs : List Value} (h : ∀ x ∈ xs, Legible room x) : Legible (room + 1) (.arr xs)
  | obj {room : Nat} {ms : Members Value} (hkeys : ms.keys.Nodup)
      (h : ∀ m ∈ ms, Legible room m.2) : Legible (room + 1) (.obj ms)

theorem Legible.distinct {room : Nat} {v : Value} (h : v.Legible room) :
    v.Orderly fun _ => True := by
  induction h with
  | @scalar room v h => cases v <;> trivial
  | arr _ ih => exact orderly_arr_iff.2 ih
  | obj hkeys _ ih => exact orderly_obj_iff.2 ⟨hkeys, ih⟩

end Value

namespace Json

/-! ## 3. Tokens -/

/-- What a token stands for by itself is a scalar. -/
def Token.Plain (t : Token) : Prop := ∀ v, t = .scalar v → v.Plain

theorem plain_of_splitWord? {cs : List Char} {v : Value} {n : Nat}
    (h : splitWord? cs = some (v, n)) : v.Plain := by
  have hwords : ∀ w ∈ words, w.2.Plain := by simp [words, Value.Plain, Value.ofFloat, Number.Short]
  obtain ⟨w, hw, hfound⟩ := List.exists_of_findSome?_eq_some h
  rw [Option.ite_none_right_eq_some, Option.some.injEq, Prod.mk.injEq] at hfound
  obtain ⟨-, rfl, -⟩ := hfound
  exact hwords w hw

theorem isDigit_of_mem_splitWhole {cs : List Char} : ∀ d ∈ (splitWhole cs).1, d.isDigit = true := by
  unfold splitWhole
  split
  · simp
  · exact List.all_eq_true.1 List.all_takeWhile

theorem plain_integerToken (negative : Bool) {digits : List Char}
    (hdigits : ∀ d ∈ digits, d.isDigit = true) : (integerToken negative digits).Plain := by
  intro v hv
  unfold integerToken at hv
  split at hv
  · cases hv
  · rename_i hlength
    cases hv
    show (Nat.toDigits 10 (Int.natAbs _)).length ≤ Excess.digitLimit
    rw [Nat.length_toDigits_le_iff (by decide) (by decide)]
    have hlt : digitsValue digits < 10 ^ Excess.digitLimit :=
      Nat.lt_of_lt_of_le (digitsValue_lt hdigits)
        (Nat.pow_le_pow_right (by decide) (Nat.not_lt.1 hlength))
    split <;> omega

theorem plain_of_splitNumber? {cs : List Char} {t : Token} {n : Nat}
    (h : splitNumber? cs = some (t, n)) : t.Plain := by
  unfold splitNumber? at h
  dsimp only at h
  rw [Option.ite_none_left_eq_some, ite_eq_iff] at h
  obtain ⟨-, ⟨-, hsome⟩ | ⟨-, hsome⟩⟩ := h
  · rw [Option.some.injEq, Prod.mk.injEq] at hsome
    rw [← hsome.1]
    exact plain_integerToken _ isDigit_of_mem_splitWhole
  · rw [Option.some.injEq, Prod.mk.injEq] at hsome
    rw [← hsome.1]
    intro v hv
    cases hv
    trivial

theorem plain_of_punctuation? {c : Char} {t : Token} (h : punctuation? c = some t) : t.Plain := by
  rintro v rfl
  unfold punctuation? at h
  split at h <;> cases h

theorem plain_of_mem_tokens {position : Nat} {cs : List Char} :
    ∀ l ∈ tokens position cs, l.token.Plain := by
  fun_induction tokens position cs with
  | case1 position => exact List.forall_mem_singleton.2 fun v hv => by cases hv
  | case2 position c rest hspace ih => exact ih
  | case3 position c rest hspace t ht ih =>
    exact List.forall_mem_cons.2 ⟨plain_of_punctuation? ht, ih⟩
  | case4 position c rest hspace hpunctuation hquote q hq hlt ih =>
    exact List.forall_mem_cons.2 ⟨fun v hv => (by cases hv), ih⟩
  | case5 => exact List.forall_mem_singleton.2 fun v hv => by cases hv
  | case6 position c rest hspace hpunctuation hquote v n hword ih =>
    refine List.forall_mem_cons.2 ⟨fun w hw => ?_, ih⟩
    cases hw
    exact plain_of_splitWord? hword
  | case7 position c rest hspace hpunctuation hquote hword t n hnumber ih =>
    exact List.forall_mem_cons.2 ⟨plain_of_splitNumber? hnumber, ih⟩
  | case8 => exact List.forall_mem_singleton.2 fun v hv => by cases hv

/-! ## 4. The reader -/

/-- Members that may become an object. -/
def LegibleMembers (room : Nat) (ms : Members Value) : Prop :=
  ms.keys.Nodup ∧ ∀ m ∈ ms, m.2.Legible room

variable {room : Nat}

theorem LegibleMembers.nil : LegibleMembers room [] := ⟨List.nodup_nil, fun m hm => by cases hm⟩

theorem LegibleMembers.set {ms : Members Value} (h : LegibleMembers room ms) (key : String)
    {v : Value} (hv : v.Legible room) : LegibleMembers room (ms.set key v) := by
  refine ⟨Members.nodup_keys_set h.1 key v, fun m hm => ?_⟩
  rcases Members.mem_set hm with rfl | hold
  · exact hv
  · exact h.2 m hold

def Frame.Legible (room : Nat) : Frame → Prop
  | .items done => ∀ x ∈ done, x.Legible room
  | .member done _ => LegibleMembers room done

/-- The open collections, and the room that is left inside the innermost one. -/
inductive Opened : Nat → List Frame → Prop
  | nil : Opened Excess.textDepth []
  | cons {room : Nat} {f : Frame} {outer : List Frame} (hf : f.Legible room)
      (h : Opened (room + 1) outer) : Opened room (f :: outer)

/-- An object that waits for a key is not among the open collections, so it takes up room of its
own. -/
def Mode.Legible (room : Nat) : Mode → Prop
  | .key done | .colon done _ => ∃ inner, room = inner + 1 ∧ LegibleMembers inner done
  | .firstKey => 0 < room
  | .after v => v.Legible room
  | .value | .firstItem => True

theorem Opened.add_length {stack : List Frame} (h : Opened room stack) :
    room + stack.length = Excess.textDepth := by
  induction h with
  | nil => rfl
  | cons _ _ ih =>
    rw [List.length_cons]
    omega

theorem Opened.pos {stack : List Frame} (h : Opened room stack) (hfull : ¬ isFull stack = true) :
    0 < room := by
  have hadd := h.add_length
  have hlt : ¬ Excess.textDepth ≤ stack.length := fun hle => hfull (decide_eq_true hle)
  omega

section Step

variable {rest : List Located} {stack : List Frame} {t : Token} {position : Nat} {v : Value}

/-- From whatever is legible so far, the rest of the tokens is read to a legible tree. -/
def Continues (rest : List Located) (v : Value) : Prop :=
  ∀ ⦃room : Nat⦄ ⦃stack : List Frame⦄ ⦃mode : Mode⦄, Opened room stack → mode.Legible room →
    readTokens rest stack mode = .ok v → v.Legible Excess.textDepth

/-- A token at which a value is expected. -/
theorem legible_of_value (hplain : t.Plain) (hstack : Opened room stack) (hrest : Continues rest v)
    (h : readTokens (⟨t, position⟩ :: rest) stack .value = .ok v) :
    v.Legible Excess.textDepth := by
  cases t with
  | openObject =>
    change (if isFull stack = true then _ else _) = _ at h
    split at h
    · cases h
    · rename_i hfull
      exact @hrest _ _ .firstKey hstack (hstack.pos hfull) h
  | openArray =>
    change (if isFull stack = true then _ else _) = _ at h
    split at h
    · cases h
    · rename_i hfull
      obtain ⟨inner, rfl⟩ := Nat.exists_eq_add_one.2 (hstack.pos hfull)
      have hopen : Opened inner (.items [] :: stack) := .cons (fun x hx => (by cases hx)) hstack
      exact @hrest _ _ .firstItem hopen trivial h
  | scalar w => exact @hrest _ _ (.after w) hstack (.scalar (hplain w rfl)) h
  | text s =>
    have htext : (Value.str s).Legible room := .scalar trivial
    exact @hrest _ _ (.after (.str s)) hstack htext h
  | _ => cases h

theorem legible_of_key {inner : Nat} {done : Members Value} (hdone : LegibleMembers inner done)
    (hstack : Opened (inner + 1) stack) (hrest : Continues rest v)
    (h : readTokens (⟨t, position⟩ :: rest) stack (.key done) = .ok v) :
    v.Legible Excess.textDepth := by
  cases t with
  | text s => exact @hrest _ _ (.colon done s) hstack ⟨inner, rfl, hdone⟩ h
  | _ => cases h

/-- A token behind a value: the value goes into the collection that is open. -/
theorem legible_of_after {w : Value} (hw : w.Legible room) (hstack : Opened room stack)
    (hrest : Continues rest v)
    (h : readTokens (⟨t, position⟩ :: rest) stack (.after w) = .ok v) :
    v.Legible Excess.textDepth := by
  cases hstack with
  | nil =>
    cases t with
    | ending =>
      cases h
      exact hw
    | _ => cases h
  | @cons _ f outer hf houter =>
    cases f with
    | items done =>
      have hitems : ∀ x ∈ w :: done, x.Legible room := List.forall_mem_cons.2 ⟨hw, hf⟩
      cases t with
      | comma =>
        have hopen : Opened room (.items (w :: done) :: outer) := .cons hitems houter
        exact @hrest _ _ .value hopen trivial h
      | closeArray =>
        have harr : (Value.arr (w :: done).reverse).Legible (room + 1) :=
          .arr fun x hx => hitems x (List.mem_reverse.1 hx)
        exact @hrest _ _ (.after (.arr _)) houter harr h
      | _ => cases h
    | member done key =>
      have hmembers : LegibleMembers room (done.set key w) := hf.set key hw
      cases t with
      | comma => exact @hrest _ _ (.key _) houter ⟨room, rfl, hmembers⟩ h
      | closeObject =>
        have hobj : (Value.obj (done.set key w)).Legible (room + 1) := .obj hmembers.1 hmembers.2
        exact @hrest _ _ (.after (.obj _)) houter hobj h
      | _ => cases h

/-- An empty array is closed together with its frame. -/
theorem legible_of_firstItem (hplain : t.Plain) (hstack : Opened room stack)
    (hrest : Continues rest v)
    (h : readTokens (⟨t, position⟩ :: rest) stack .firstItem = .ok v) :
    v.Legible Excess.textDepth := by
  by_cases hclose : t = .closeArray
  · subst hclose
    have hempty (room : Nat) : (Value.arr []).Legible (room + 1) := .arr fun x hx => by cases hx
    cases hstack with
    | nil => exact @hrest _ _ (.after (.arr [])) .nil (hempty 984) h
    | cons _ houter => exact @hrest _ _ (.after (.arr [])) houter (hempty _) h
  · -- Any other token is read as one at which a value is expected.
    have hvalue : readTokens (⟨t, position⟩ :: rest) stack .value = .ok v := by
      cases t <;> first | exact h | exact absurd rfl hclose
    exact legible_of_value hplain hstack hrest hvalue

theorem legible_of_firstKey {inner : Nat} (hstack : Opened (inner + 1) stack)
    (hrest : Continues rest v)
    (h : readTokens (⟨t, position⟩ :: rest) stack .firstKey = .ok v) :
    v.Legible Excess.textDepth := by
  by_cases hclose : t = .closeObject
  · subst hclose
    have hempty : (Value.obj []).Legible (inner + 1) := .obj List.nodup_nil fun m hm => by cases hm
    exact @hrest _ _ (.after (.obj [])) hstack hempty h
  · have hkey : readTokens (⟨t, position⟩ :: rest) stack (.key []) = .ok v := by
      cases t <;> first | exact h | exact absurd rfl hclose
    exact legible_of_key .nil hstack hrest hkey

end Step

/-- Whatever the reader has open stays legible from token to token, and so does what it ends with. -/
theorem legible_of_readTokens {ts : List Located} {v : Value} (hts : ∀ l ∈ ts, l.token.Plain) :
    Continues ts v := by
  induction ts with
  | nil => exact fun _ _ _ _ _ h => by cases h
  | cons l rest ih =>
    obtain ⟨t, position⟩ := l
    obtain ⟨hplain, hrest⟩ := List.forall_mem_cons.1 hts
    intro room stack mode hstack hmode h
    cases mode with
    | value => exact legible_of_value hplain hstack (ih hrest) h
    | firstItem => exact legible_of_firstItem hplain hstack (ih hrest) h
    | firstKey =>
      obtain ⟨inner, rfl⟩ := Nat.exists_eq_add_one.2 hmode
      exact legible_of_firstKey hstack (ih hrest) h
    | key done =>
      obtain ⟨inner, rfl, hdone⟩ := hmode
      exact legible_of_key hdone hstack (ih hrest) h
    | colon done k =>
      obtain ⟨inner, rfl, hdone⟩ := hmode
      cases t with
      | colon =>
        have hopen : Opened inner (.member done k :: stack) := .cons hdone hstack
        exact @ih hrest _ _ .value hopen trivial h
      | _ => cases h
    | after w => exact legible_of_after hmode hstack (ih hrest) h

/-- A tree that is read from a text is legible. -/
theorem legible_of_read {text : String} {v : Value} (h : read text = .ok v) :
    v.Legible Excess.textDepth := by
  unfold read at h
  split at h
  · cases h
  · exact @legible_of_readTokens _ _ plain_of_mem_tokens _ _ .value .nil trivial h

end Json

end Dashboards
