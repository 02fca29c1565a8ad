import Mathlib.Algebra.Order.Group.Defs
import Mathlib.Data.List.Pairwise
import Mathlib.Order.Interval.Set.Defs
import Dashboards.Proofs.Json.Reader
import Dashboards.RateLimit

/-!
# What the rate limiter lets in

Time is exact here, and it does not run backwards.  Windows that are over are forgotten whenever a
request is let in, and nobody can tell: a caller is judged as if there were no other callers and no
window were ever forgotten.  The windows of one caller lie apart, and in each of them no more requests
are let in than the budget says, so in any time of the length of a window at most twice as many are.
-/

namespace Dashboards

/-- A request as it was judged: who made it and when, when the window began that it fell into, and
whether it was within the budget. -/
structure Judged (τ : Type) where
  key : String
  time : τ
  opened : τ
  accepted : Bool

namespace Judged

variable {τ : Type}

/-- How many requests were let in that fell into the window that began at `start`. -/
def acceptedFrom [DecidableEq τ] (start : τ) (es : List (Judged τ)) : Nat :=
  es.countP fun e => e.accepted && e.opened = start

/-- How many requests were let in at the moments of a set. -/
def acceptedDuring (moments : Set τ) [DecidablePred (· ∈ moments)] (es : List (Judged τ)) : Nat :=
  es.countP fun e => e.accepted && e.time ∈ moments

/-- Requests whose windows are the same or begin at least the length of a window apart. -/
def Apart [Sub τ] [LE τ] (length : τ) (a b : Judged τ) : Prop :=
  a.opened = b.opened ∨ length ≤ b.opened - a.opened ∨ length ≤ a.opened - b.opened

instance [Sub τ] [LE τ] (length : τ) : Std.Symm (Apart length : Judged τ → Judged τ → Prop) :=
  ⟨fun _ _ h => h.imp Eq.symm Or.symm⟩

/-- Requests that fell into windows which had begun and were not over, and which lie apart. -/
structure Spaced [Sub τ] [LE τ] [LT τ] (length : τ) (es : List (Judged τ)) : Prop where
  within : ∀ e ∈ es, e.opened ≤ e.time ∧ e.time - e.opened < length
  apart : ∀ a ∈ es, ∀ b ∈ es, Apart length a b

/-- Where requests of two windows only were let in, they are counted by their windows. -/
theorem acceptedDuring_le_add [DecidableEq τ] {moments : Set τ} [DecidablePred (· ∈ moments)]
    {es : List (Judged τ)} {s t : τ}
    (h : ∀ e ∈ es, e.accepted = true → e.time ∈ moments → e.opened = s ∨ e.opened = t) :
    acceptedDuring moments es ≤ acceptedFrom s es + acceptedFrom t es := by
  induction es with
  | nil => exact Nat.zero_le _
  | cons e es ih =>
    obtain ⟨hfirst, hrest⟩ := List.forall_mem_cons.1 h
    have hcount := ih hrest
    unfold acceptedDuring acceptedFrom at hcount ⊢
    rw [List.countP_cons, List.countP_cons, List.countP_cons]
    by_cases hin : e.accepted = true ∧ e.time ∈ moments
    · have hone : 1 ≤ (if (e.accepted && decide (e.opened = s)) = true then 1 else 0) +
          (if (e.accepted && decide (e.opened = t)) = true then 1 else 0) := by
        obtain hs | ht := hfirst hin.1 hin.2
        · simp [hin.1, hs]
        · simp [hin.1, ht]
      have hcounted : (if (e.accepted && decide (e.time ∈ moments)) = true then 1 else 0) = 1 := by
        simp [hin]
      omega
    · have hnone : (if (e.accepted && decide (e.time ∈ moments)) = true then 1 else 0) = 0 := by
        simpa using hin
      omega

end Judged

/-! ## 1. Tables of windows -/

namespace Members

variable {α : Type} {ms : Members α}

/-- Where every key occurs once, dropping entries takes away what was found under their keys. -/
theorem get?_filter (hkeys : ms.keys.Nodup) (keep : String × α → Bool) (key : String) :
    Members.get? (ms.filter keep) key = (ms.get? key).filter fun v => keep (key, v) := by
  induction ms with
  | nil => rfl
  | cons e ms ih =>
    obtain ⟨hfirst, hrest⟩ := List.nodup_cons.1 hkeys
    rw [List.filter_cons, get?]
    by_cases hkey : e.1 = key
    · subst hkey
      have hgone : Members.get? ms e.1 = none := by
        cases hget : Members.get? ms e.1 with
        | none => rfl
        | some v => exact absurd (List.mem_map.2 ⟨_, mem_of_get? hget, rfl⟩) hfirst
      rw [if_pos rfl, Option.filter_some]
      cases keep e with
      | true => simp [get?]
      | false => simp [ih hrest, hgone]
    · rw [if_neg hkey, ← ih hrest]
      cases keep e with
      | true => simp [get?, hkey]
      | false => rfl

theorem nodup_keys_filter (hkeys : ms.keys.Nodup) (keep : String × α → Bool) :
    (Members.keys (ms.filter keep)).Nodup := hkeys.sublist (List.filter_sublist.map _)

end Members

variable {τ : Type}

/-! ## 2. One caller alone -/

namespace Window

/-- A window with one more request in it, where the budget has room for it. -/
def counted (budget : Int) (w : Window τ) : Window τ :=
  if budget ≤ w.count then w else ⟨w.start, w.count + 1⟩

@[simp] theorem start_counted (budget : Int) (w : Window τ) : (w.counted budget).start = w.start := by
  rw [counted]
  split <;> rfl

theorem count_counted_le {budget : Int} {w : Window τ} (h : (w.count : Int) ≤ budget) :
    ((w.counted budget).count : Int) ≤ budget := by
  rw [counted]
  split
  · exact h
  · push_cast
    omega

section

variable [Sub τ] [LE τ] [DecidableLE τ]

/-- The window that a request falls into whose caller has had `latest` as its latest window. -/
def next (length : τ) (latest : Option (Window τ)) (now : τ) : Window τ :=
  match latest with
  | some w => if length ≤ now - w.start then ⟨now, 0⟩ else w
  | none => ⟨now, 0⟩

/-- The requests of a caller who is judged alone, and none of whose windows is forgotten. -/
def judge (budget : Int) (length : τ) (key : String) : Option (Window τ) → List τ → List (Judged τ)
  | _, [] => []
  | latest, now :: rest =>
    let w := next length latest now
    ⟨key, now, w.start, !decide (budget ≤ w.count)⟩ ::
      judge budget length key (some (w.counted budget)) rest

end

end Window

/-! ## 3. What a limiter knows of a caller -/

namespace Limiter

section

variable [Sub τ] [LE τ] [DecidableLE τ]

/-- The requests of any callers, judged one after another. -/
def judge (l : Limiter τ) : List (String × τ) → List (Judged τ)
  | [] => []
  | (key, now) :: rest =>
    ⟨key, now, (l.windowFor key now).start, (l.hit key now).1⟩ :: (l.hit key now).2.judge rest

/-- Only callers are judged who made a request. -/
theorem key_of_mem_judge {key : String} {l : Limiter τ} {hits : List (String × τ)}
    (hkeys : ∀ hit ∈ hits, hit.1 = key) {e : Judged τ} (he : e ∈ l.judge hits) : e.key = key := by
  induction hits generalizing l with
  | nil => cases he
  | cons hit hits ih =>
    obtain ⟨hfirst, hrest⟩ := List.forall_mem_cons.1 hkeys
    rcases List.mem_cons.1 he with rfl | he
    · exact hfirst
    · exact ih hrest he

theorem windowFor_eq_next (l : Limiter τ) (key : String) (now : τ) :
    l.windowFor key now = Window.next l.length (l.windows.get? key) now := by
  rw [windowFor]
  cases l.windows.get? key with
  | none => rfl
  | some w => simp [isOver, Window.next]

theorem hit_eq (l : Limiter τ) (key : String) (now : τ) :
    l.hit key now =
      (!decide (l.budget ≤ (l.windowFor key now).count),
        let entered := { l with
          windows := l.windows.set key ((l.windowFor key now).counted l.budget) }
        if l.budget ≤ (l.windowFor key now).count then entered else entered.prune now) := by
  rw [hit, Window.counted]
  dsimp only
  split <;> simp [*]

@[simp] theorem budget_hit (l : Limiter τ) (key : String) (now : τ) :
    (l.hit key now).2.budget = l.budget := by
  rw [hit_eq]
  dsimp only
  split <;> rfl

@[simp] theorem length_hit (l : Limiter τ) (key : String) (now : τ) :
    (l.hit key now).2.length = l.length := by
  rw [hit_eq]
  dsimp only
  split <;> rfl

end

section

variable [AddCommGroup τ] [LinearOrder τ]

/-- Everything that a limiter still knows of a caller from some moment on is the latest window. -/
structure Knows (l : Limiter τ) (key : String) (now : τ) (latest : Option (Window τ)) : Prop where
  distinct : l.windows.keys.Nodup
  windowFor : ∀ t, now ≤ t → l.windowFor key t = Window.next l.length latest t

namespace Knows

variable {l : Limiter τ} {key other : String} {now t : τ} {latest : Option (Window τ)}

theorem new (budget : Int) (length : τ) (key : String) (now : τ) :
    (Limiter.new budget length).Knows key now none := ⟨List.nodup_nil, fun _ _ => rfl⟩

theorem later (h : l.Knows key now latest) (ht : now ≤ t) : l.Knows key t latest :=
  ⟨h.distinct, fun t' ht' => h.windowFor t' (ht.trans ht')⟩

theorem set_self (h : l.windows.keys.Nodup) (key : String) (now : τ) (w : Window τ) :
    Knows { l with windows := l.windows.set key w } key now (some w) := by
  refine ⟨Members.nodup_keys_set h _ _, fun t _ => ?_⟩
  rw [windowFor_eq_next, Members.get?_set_self]

theorem set_of_ne (h : l.Knows key now latest) (hne : key ≠ other) (w : Window τ) :
    Knows { l with windows := l.windows.set other w } key now latest := by
  refine ⟨Members.nodup_keys_set h.distinct _ _, fun t ht => ?_⟩
  show _ = Window.next l.length latest t
  rw [← h.windowFor t ht, windowFor_eq_next, windowFor_eq_next, Members.get?_set_of_ne _ _ hne]

variable [IsOrderedAddMonoid τ]

/-- A window that is forgotten was over, and stays over. -/
theorem prune (h : l.Knows key now latest) : (l.prune now).Knows key now latest := by
  refine ⟨Members.nodup_keys_filter h.distinct _, fun t ht => ?_⟩
  have hget : (l.prune now).windows.get? key =
      (l.windows.get? key).filter fun w => !l.isOver now w := Members.get?_filter h.distinct _ key
  show (l.prune now).windowFor key t = Window.next l.length latest t
  rw [← h.windowFor t ht, windowFor_eq_next, windowFor_eq_next, hget]
  cases l.windows.get? key with
  | none => rfl
  | some w =>
    rw [Option.filter_some]
    cases hover : l.isOver now w with
    | false => rfl
    | true =>
      have hlater : l.length ≤ t - w.start := by
        have : l.length ≤ now - w.start := of_decide_eq_true hover
        grind
      exact (if_pos hlater).symm

/-- A request leaves the window that it was counted in. -/
theorem hit_self (h : l.Knows key now latest) :
    (l.hit key now).2.Knows key now
      (some ((Window.next l.length latest now).counted l.budget)) := by
  rw [hit_eq, h.windowFor now le_rfl]
  dsimp only
  split
  · exact set_self h.distinct key now _
  · exact (set_self h.distinct key now _).prune

/-- A request of another caller leaves everything as it is. -/
theorem hit_of_ne (h : l.Knows key now latest) (hne : key ≠ other) :
    (l.hit other now).2.Knows key now latest := by
  rw [hit_eq]
  dsimp only
  split
  · exact h.set_of_ne hne _
  · exact (h.set_of_ne hne _).prune

end Knows

/-! ## 4. Callers apart -/

/-- From the requests of all callers, those of one are judged as if there were no others. -/
theorem filter_judge [IsOrderedAddMonoid τ] {l : Limiter τ} {key : String} {now : τ}
    {latest : Option (Window τ)} {hits : List (String × τ)} (h : l.Knows key now latest)
    (hclock : (now :: hits.map Prod.snd).Pairwise (· ≤ ·)) :
    (l.judge hits).filter (fun e => e.key = key) =
      Window.judge l.budget l.length key latest
        ((hits.filter fun hit => hit.1 = key).map Prod.snd) := by
  induction hits generalizing l now latest with
  | nil => rfl
  | cons hit hits ih =>
    obtain ⟨other, t⟩ := hit
    obtain ⟨hnow, hrest⟩ := List.pairwise_cons.1 hclock
    have ht : now ≤ t := hnow t List.mem_cons_self
    rw [judge]
    by_cases hkey : other = key
    · subst hkey
      have hrest' := ih (h.later ht).hit_self hrest
      rw [budget_hit, length_hit] at hrest'
      rw [List.filter_cons_of_pos (by simp), List.filter_cons_of_pos (by simp), hrest', hit_eq,
        h.windowFor t ht]
      rfl
    · have hrest' := ih ((h.later ht).hit_of_ne (Ne.symm hkey)) hrest
      rw [budget_hit, length_hit] at hrest'
      rw [List.filter_cons_of_neg (by simpa using hkey), List.filter_cons_of_neg (by simpa using hkey)]
      exact hrest'

end

end Limiter

/-! ## 5. The windows of a caller -/

namespace Window

variable [AddCommGroup τ] [LinearOrder τ] {budget : Int} {length : τ} {key : String}
  {w : Window τ} {latest : Option (Window τ)} {times : List τ} {e : Judged τ}

/-- A request falls into the latest window unless that is over, and else begins one. -/
theorem next_cases (length : τ) (latest : Option (Window τ)) (now : τ) :
    (∃ w, latest = some w ∧ now - w.start < length ∧ next length latest now = w) ∨
      (∀ w, latest = some w → length ≤ now - w.start) ∧ next length latest now = ⟨now, 0⟩ := by
  cases latest with
  | none => exact .inr ⟨fun w h => (by cases h), rfl⟩
  | some w =>
    by_cases hover : length ≤ now - w.start
    · refine .inr ⟨fun w' h => ?_, if_pos hover⟩
      cases h
      exact hover
    · exact .inl ⟨w, rfl, not_le.1 hover, if_neg hover⟩

theorem next_next (hlength : 0 < length) (latest : Option (Window τ)) (now : τ) :
    next length (some (next length latest now)) now = next length latest now := by
  obtain ⟨w, -, hin, hnext⟩ | ⟨-, hnext⟩ := next_cases length latest now
  · rw [hnext]
    exact if_neg (not_le.2 hin)
  · rw [hnext]
    refine if_neg (not_le.2 ?_)
    rwa [sub_self]

theorem count_next_le (hbudget : 0 ≤ budget) (h : ∀ w, latest = some w → (w.count : Int) ≤ budget)
    (now : τ) : ((next length latest now).count : Int) ≤ budget := by
  obtain ⟨w, hw, -, hnext⟩ | ⟨-, hnext⟩ := next_cases length latest now
  · rw [hnext]
    exact h w hw
  · rw [hnext]
    exact hbudget

/-- Where time does not run backwards, a request falls into a window that has begun and is not over. -/
theorem within_of_mem_judge (hlength : 0 < length) (hclock : times.Pairwise (· ≤ ·))
    (hstart : ∀ w, latest = some w → ∀ t ∈ times, w.start ≤ t)
    (he : e ∈ judge budget length key latest times) :
    e.opened ≤ e.time ∧ e.time - e.opened < length := by
  induction times generalizing latest with
  | nil => cases he
  | cons now rest ih =>
    obtain ⟨hnow, hrest⟩ := List.pairwise_cons.1 hclock
    have hfalls : (next length latest now).start ≤ now ∧
        now - (next length latest now).start < length := by
      obtain ⟨w, hw, hin, hnext⟩ | ⟨-, hnext⟩ := next_cases length latest now
      · rw [hnext]
        exact ⟨hstart w hw now List.mem_cons_self, hin⟩
      · rw [hnext]
        exact ⟨le_rfl, by rwa [sub_self]⟩
    rcases List.mem_cons.1 he with rfl | he
    · exact hfalls
    · refine ih hrest (fun w hw t ht => ?_) he
      cases hw
      rw [start_counted]
      exact hfalls.1.trans (hnow t ht)

/-- A window begins at the request that is the first one in it. -/
theorem first_of_mem_judge (he : e ∈ judge budget length key latest times) :
    (∃ w, latest = some w ∧ w.start = e.opened) ∨
      ∃ first ∈ judge budget length key latest times,
        first.opened = e.opened ∧ first.time = e.opened := by
  induction times generalizing latest with
  | nil => cases he
  | cons now rest ih =>
    set opening : Judged τ := ⟨key, now, (next length latest now).start,
      !decide (budget ≤ (next length latest now).count)⟩ with hopening
    -- The latest window, or the one that this request begins.
    have hbegins : ∀ start, (next length latest now).start = start →
        (∃ w, latest = some w ∧ w.start = start) ∨
          ∃ first ∈ judge budget length key latest (now :: rest),
            first.opened = start ∧ first.time = start := by
      intro start hstart
      obtain ⟨w, hw, -, hnext⟩ | ⟨-, hnext⟩ := next_cases length latest now
      · exact .inl ⟨w, hw, hnext ▸ hstart⟩
      · refine .inr ⟨opening, List.mem_cons_self, hstart, ?_⟩
        rw [hnext] at hstart
        exact hstart
    rcases List.mem_cons.1 he with rfl | he
    · exact hbegins _ rfl
    · obtain ⟨w, hw, hstart⟩ | ⟨first, hfirst, hopened⟩ := ih he
      · cases hw
        exact hbegins _ (by rwa [start_counted] at hstart)
      · exact .inr ⟨first, List.mem_cons_of_mem _ hfirst, hopened⟩

/-- Every window of a caller who is new begins at a request of theirs. -/
theorem exists_first_of_mem_judge (he : e ∈ judge budget length key none times) :
    ∃ first ∈ judge budget length key none times,
      first.opened = e.opened ∧ first.time = e.opened :=
  (first_of_mem_judge he).resolve_left nofun

variable [IsOrderedAddMonoid τ]

/-- A request falls into the latest window or into one that begins after it was over. -/
theorem apart_of_mem_judge (hlength : 0 < length) (he : e ∈ judge budget length key (some w) times) :
    e.opened = w.start ∨ length ≤ e.opened - w.start := by
  induction times generalizing w with
  | nil => cases he
  | cons now rest ih =>
    obtain ⟨w', hw', -, hnext⟩ | ⟨hover, hnext⟩ := next_cases length (some w) now
    · cases hw'
      rw [judge, hnext] at he
      rcases List.mem_cons.1 he with rfl | he
      · exact .inl rfl
      · simpa using ih he
    · have hlater : length ≤ now - w.start := hover w rfl
      rw [judge, hnext] at he
      rcases List.mem_cons.1 he with rfl | he
      · exact .inr hlater
      · have hrest := ih he
        rw [start_counted] at hrest
        dsimp only at hrest
        grind

theorem pairwise_judge (hlength : 0 < length) :
    (judge budget length key latest times).Pairwise (Judged.Apart length) := by
  induction times generalizing latest with
  | nil => exact .nil
  | cons now rest ih =>
    refine .cons (fun e he => ?_) ih
    obtain hsame | happart := apart_of_mem_judge hlength he
    · exact .inl (by simpa using hsame.symm)
    · exact .inr (.inl (by simpa using happart))

/-- Where time does not run backwards, the windows of one caller lie apart. -/
theorem spaced_judge (hlength : 0 < length) (hclock : times.Pairwise (· ≤ ·))
    (hstart : ∀ w, latest = some w → ∀ t ∈ times, w.start ≤ t) :
    Judged.Spaced length (judge budget length key latest times) where
  within _ he := within_of_mem_judge hlength hclock hstart he
  apart _ ha _ hb := List.Pairwise.forall_of_forall (fun _ _ => .inl rfl) (pairwise_judge hlength) ha hb

/-! ## 6. Windows and the budget -/

open Judged

/-- Within the latest window, no more requests are let in than the budget has room for. -/
theorem acceptedFrom_latest (hlength : 0 < length) (hcount : (w.count : Int) ≤ budget) :
    (acceptedFrom w.start (judge budget length key (some w) times) : Int) + w.count ≤ budget := by
  induction times generalizing w with
  | nil => simpa [judge, acceptedFrom] using hcount
  | cons now rest ih =>
    obtain ⟨w', hw', -, hnext⟩ | ⟨hover, hnext⟩ := next_cases length (some w) now
    · cases hw'
      have hrest := ih (count_counted_le hcount)
      rw [judge, hnext, acceptedFrom, List.countP_cons, ← acceptedFrom]
      rw [counted] at hrest ⊢
      by_cases hfull : budget ≤ w.count
      · rw [if_pos hfull] at hrest ⊢
        simpa [hfull] using hrest
      · rw [if_neg hfull] at hrest ⊢
        simp [hfull] at hrest ⊢
        omega
    · have hlater : length ≤ now - w.start := hover w rfl
      have hnone : acceptedFrom w.start (judge budget length key (some w) (now :: rest)) = 0 := by
        rw [judge, hnext]
        refine List.countP_eq_zero.2 fun e he => ?_
        have hopened : e.opened ≠ w.start := by
          rcases List.mem_cons.1 he with rfl | he
          · dsimp only
            grind
          · obtain hsame | happart := apart_of_mem_judge hlength he
            · rw [hsame, start_counted]
              dsimp only
              grind
            · rw [start_counted] at happart
              dsimp only at happart
              grind
        simp [hopened]
      rw [hnone]
      simpa using hcount

/-- In no window are more requests let in than the budget says. -/
theorem acceptedFrom_le (hlength : 0 < length) (hbudget : 0 ≤ budget)
    (hcount : ∀ w, latest = some w → (w.count : Int) ≤ budget) (start : τ) :
    (acceptedFrom start (judge budget length key latest times) : Int) ≤ budget := by
  induction times generalizing latest with
  | nil => simpa [judge, acceptedFrom] using hbudget
  | cons now rest ih =>
    have hfalls : ((next length latest now).count : Int) ≤ budget := count_next_le hbudget hcount now
    by_cases hopened : (next length latest now).start = start
    · have hlatest : (acceptedFrom (next length latest now).start (judge budget length key
          (some (next length latest now)) (now :: rest)) : Int) + _ ≤ budget :=
        acceptedFrom_latest hlength hfalls
      rw [judge, next_next hlength, hopened] at hlatest
      rw [judge, hopened]
      omega
    · have hrest : (acceptedFrom start (judge budget length key
          (some ((next length latest now).counted budget)) rest) : Int) ≤ budget := ih fun w hw => by
        cases hw
        exact count_counted_le hfalls
      rw [judge, acceptedFrom, List.countP_cons, ← acceptedFrom]
      simpa [hopened] using hrest

end Window

namespace Judged

variable [AddCommGroup τ] [LinearOrder τ] [IsOrderedAddMonoid τ] {budget : Int} {length : τ}

/-- In moments that are less than the length of a window apart, requests of two windows at most are
let in. -/
theorem Spaced.acceptedDuring_le {es : List (Judged τ)} (h : Spaced length es) {moments : Set τ}
    [DecidablePred (· ∈ moments)] (hmoments : ∀ s ∈ moments, ∀ t ∈ moments, s - t < length)
    (hfrom : ∀ start, (acceptedFrom start es : Int) ≤ budget) :
    (acceptedDuring moments es : Int) ≤ 2 * budget := by
  suffices htwo : ∃ s t, ∀ e ∈ es, e.accepted = true → e.time ∈ moments →
      e.opened = s ∨ e.opened = t by
    obtain ⟨s, t, htwo⟩ := htwo
    have hsum := acceptedDuring_le_add htwo
    have hs := hfrom s
    have ht := hfrom t
    omega
  by_cases hfirst : ∃ a ∈ es, a.accepted = true ∧ a.time ∈ moments
  · obtain ⟨a, ha, -, hatime⟩ := hfirst
    by_cases hsecond : ∃ b ∈ es, (b.accepted = true ∧ b.time ∈ moments) ∧ b.opened ≠ a.opened
    · obtain ⟨b, hb, ⟨-, hbtime⟩, hne⟩ := hsecond
      refine ⟨a.opened, b.opened, fun c hc _ hctime => ?_⟩
      -- Of three windows the last begins two lengths after the first one: too late to be in time
      -- with a request of the first.
      by_contra hthird
      obtain ⟨hca, hcb⟩ := not_or.1 hthird
      have hab := (h.apart a ha b hb).resolve_left (Ne.symm hne)
      have hac := (h.apart a ha c hc).resolve_left (Ne.symm hca)
      have hbc := (h.apart b hb c hc).resolve_left (Ne.symm hcb)
      have := h.within a ha
      have := h.within b hb
      have := h.within c hc
      have := hmoments _ hatime _ hbtime
      have := hmoments _ hbtime _ hatime
      have := hmoments _ hatime _ hctime
      have := hmoments _ hctime _ hatime
      have := hmoments _ hbtime _ hctime
      have := hmoments _ hctime _ hbtime
      grind
    · refine ⟨a.opened, a.opened, fun c hc haccepted hctime => .inl ?_⟩
      by_contra hne
      exact hsecond ⟨c, hc, ⟨haccepted, hctime⟩, hne⟩
  · exact ⟨0, 0, fun c hc haccepted hctime => absurd ⟨c, hc, haccepted, hctime⟩ hfirst⟩

/-- From the beginning of a window on, and for its length, requests of that window only are let in. -/
theorem Spaced.acceptedDuring_window {es : List (Judged τ)} (h : Spaced length es) {e : Judged τ}
    (he : e ∈ es) :
    acceptedDuring (Set.Ico e.opened (e.opened + length)) es ≤ acceptedFrom e.opened es := by
  refine List.countP_mono_left fun c hc hcounted => ?_
  obtain ⟨haccepted, htime⟩ := Bool.and_eq_true_iff.1 hcounted
  obtain ⟨hlow, hhigh⟩ := of_decide_eq_true htime
  have hsame : c.opened = e.opened := by
    have := h.within c hc
    obtain hsame | hlater | hearlier := h.apart e he c hc
    · exact hsame.symm
    · grind
    · grind
  simp [haccepted, hsame]

end Judged

/-! ## 7. Callers and their budget -/

namespace Limiter

variable [AddCommGroup τ] [LinearOrder τ] [IsOrderedAddMonoid τ]

/-- What a new limiter makes of the requests of one caller. -/
theorem filter_judge_new (budget : Int) (length : τ) (key : String) {hits : List (String × τ)}
    (hclock : (hits.map Prod.snd).Pairwise (· ≤ ·)) :
    ((new budget length).judge hits).filter (fun e => e.key = key) =
      Window.judge budget length key none ((hits.filter fun hit => hit.1 = key).map Prod.snd) := by
  cases hits with
  | nil => rfl
  | cons hit hits =>
    have hnow : (hit.2 :: (hit :: hits).map Prod.snd).Pairwise (· ≤ ·) := by
      refine List.pairwise_cons.2 ⟨fun t ht => ?_, hclock⟩
      rcases List.mem_cons.1 ht with rfl | ht
      · exact le_rfl
      · exact (List.pairwise_cons.1 hclock).1 t ht
    exact filter_judge (.new budget length key hit.2) hnow

/-- What a new limiter makes of requests that are all of one caller. -/
theorem judge_of_keys (budget : Int) (length : τ) {key : String} {hits : List (String × τ)}
    (hkeys : ∀ hit ∈ hits, hit.1 = key) (hclock : (hits.map Prod.snd).Pairwise (· ≤ ·)) :
    (new budget length).judge hits =
      Window.judge budget length key none (hits.map Prod.snd) := by
  have hhits : hits.filter (fun hit => hit.1 = key) = hits :=
    List.filter_eq_self.2 fun hit hhit => decide_eq_true (hkeys hit hhit)
  have hjudged : ((new budget length).judge hits).filter (fun e => e.key = key) =
      (new budget length).judge hits :=
    List.filter_eq_self.2 fun e he => decide_eq_true (key_of_mem_judge hkeys he)
  rw [← hjudged, filter_judge_new budget length key hclock, hhits]

/-- The requests of a caller are judged as if there were no other callers, and no window were ever
forgotten.  In any time of the length of a window at most twice as many of them are let in as the
budget says, and from the request on that a window begins with, at most as many as the budget says. -/
theorem fair_of_monotone {budget : Int} {length : τ} (hbudget : 0 ≤ budget) (hlength : 0 < length)
    {hits : List (String × τ)} (hclock : (hits.map Prod.snd).Pairwise (· ≤ ·)) (key : String) :
    let mine := ((new budget length).judge hits).filter fun e => e.key = key
    mine = (new budget length).judge (hits.filter fun hit => hit.1 = key) ∧
      (∀ t, (Judged.acceptedDuring (Set.Ico t (t + length)) mine : Int) ≤ 2 * budget ∧
        (Judged.acceptedDuring (Set.Ioc t (t + length)) mine : Int) ≤ 2 * budget) ∧
      ∀ e ∈ mine, (∃ first ∈ mine, first.opened = e.opened ∧ first.time = e.opened) ∧
        (Judged.acceptedDuring (Set.Ico e.opened (e.opened + length)) mine : Int) ≤ budget := by
  intro mine
  set times := (hits.filter fun hit => hit.1 = key).map Prod.snd with htimes
  have hmine : mine = Window.judge budget length key none times :=
    filter_judge_new budget length key hclock
  have htimes_clock : times.Pairwise (· ≤ ·) := hclock.sublist (List.filter_sublist.map _)
  have hspaced : Judged.Spaced length mine :=
    hmine ▸ Window.spaced_judge hlength htimes_clock nofun
  have hfrom : ∀ start, (Judged.acceptedFrom start mine : Int) ≤ budget :=
    hmine ▸ Window.acceptedFrom_le hlength hbudget nofun
  refine ⟨?_, fun t => ⟨?_, ?_⟩, fun e he => ⟨?_, ?_⟩⟩
  · rw [hmine, judge_of_keys budget length fun hit hhit => of_decide_eq_true (List.mem_filter.1 hhit).2]
    exact htimes_clock
  · exact hspaced.acceptedDuring_le (fun a ha b hb => by grind) hfrom
  · exact hspaced.acceptedDuring_le (fun a ha b hb => by grind) hfrom
  · rw [hmine] at he ⊢
    exact Window.exists_first_of_mem_judge he
  · have hwindow := hspaced.acceptedDuring_window he
    have hopened := hfrom e.opened
    omega

/-- Two requests a window, for two callers, one of whom comes back when the first window is over and
was forgotten: two of the six requests of that caller are refused. -/
theorem fair_of_two_callers :
    let hits : List (String × ℤ) :=
      [("a", 0), ("a", 3), ("b", 4), ("a", 5), ("b", 11), ("a", 12), ("a", 13), ("a", 14)]
    let mine := ((new 2 10).judge hits).filter fun e => e.key = "a"
    (mine.map (·.accepted) = [true, true, false, true, true, false] ∧
      mine = (new 2 10).judge (hits.filter fun hit => hit.1 = "a")) ∧
      (∀ t, (Judged.acceptedDuring (Set.Ico t (t + 10)) mine : Int) ≤ 2 * 2 ∧
        (Judged.acceptedDuring (Set.Ioc t (t + 10)) mine : Int) ≤ 2 * 2) ∧
      ∀ e ∈ mine, (∃ first ∈ mine, first.opened = e.opened ∧ first.time = e.opened) ∧
        (Judged.acceptedDuring (Set.Ico e.opened (e.opened + 10)) mine : Int) ≤ 2 := by
  intro hits mine
  have hclock : (hits.map Prod.snd).Pairwise (· ≤ ·) := by decide
  have hlength : (0 : ℤ) < 10 := by decide
  obtain ⟨halone, htwice, honce⟩ := fair_of_monotone (by decide : (0 : Int) ≤ 2) hlength hclock "a"
  exact ⟨⟨by decide +kernel, halone⟩, htwice, honce⟩

end Limiter

end Dashboards
