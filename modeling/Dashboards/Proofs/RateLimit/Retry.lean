import Dashboards.Proofs.RateLimit

/-!
# How long to wait

What a limiter answers a caller who asks how long to wait.  Time is exact and does not run backwards.
Right after a refused request the answer is exact: until then every request of the caller is refused,
and the next one is accepted, whatever others do meanwhile.  Later the answer may depend on others:
a window that is over counts as one with no time left, until a request that is accepted makes the
limiter forget it; then the caller is told to wait for the full length of a window.
-/

namespace Dashboards

variable {τ : Type}

/-! ## 1. The latest window of a caller -/

namespace Window

theorem counted_of_full {budget : Int} {w : Window τ} (hfull : budget ≤ w.count) :
    w.counted budget = w := if_pos hfull

section

variable [Sub τ] [LE τ] [DecidableLE τ]

/-- The latest window of a caller who is judged alone, and none of whose windows is forgotten. -/
def latest (budget : Int) (length : τ) : Option (Window τ) → List τ → Option (Window τ)
  | before, [] => before
  | before, now :: rest => latest budget length (some ((next length before now).counted budget)) rest

theorem time_mem_of_mem_judge {budget : Int} {length : τ} {key : String}
    {before : Option (Window τ)} {times : List τ} {e : Judged τ}
    (he : e ∈ judge budget length key before times) : e.time ∈ times := by
  induction times generalizing before with
  | nil => cases he
  | cons now rest ih =>
    rcases List.mem_cons.1 he with rfl | he
    · exact List.mem_cons_self
    · exact List.mem_cons_of_mem _ (ih he)

end

section

variable [AddCommGroup τ] [LinearOrder τ] {budget : Int} {length : τ} {key : String}
  {w : Window τ} {times : List τ}

theorem next_of_lt {now : τ} (h : now - w.start < length) : next length (some w) now = w :=
  if_neg (not_le.2 h)

theorem next_of_le {now : τ} (h : length ≤ now - w.start) : next length (some w) now = ⟨now, 0⟩ :=
  if_pos h

/-- The window that a request falls into is not over. -/
theorem sub_start_next_lt (hlength : 0 < length) (before : Option (Window τ)) (now : τ) :
    now - (next length before now).start < length := by
  obtain ⟨w, -, hin, hnext⟩ | ⟨-, hnext⟩ := next_cases length before now
  · rwa [hnext]
  · rwa [hnext, sub_self]

/-- A full window stays the latest one until it is over. -/
theorem latest_of_full (hfull : budget ≤ w.count) (htimes : ∀ t ∈ times, t - w.start < length) :
    latest budget length (some w) times = some w := by
  induction times with
  | nil => rfl
  | cons now rest ih =>
    obtain ⟨hnow, hrest⟩ := List.forall_mem_cons.1 htimes
    rw [latest, next_of_lt hnow, counted_of_full hfull]
    exact ih hrest

/-- Until a full window is over, every request is refused. -/
theorem refused_of_full [IsOrderedAddMonoid τ] (hfull : budget ≤ w.count)
    (hclock : times.Pairwise (· ≤ ·)) {e : Judged τ}
    (he : e ∈ judge budget length key (some w) times) (htime : e.time - w.start < length) :
    e.accepted = false := by
  induction times with
  | nil => cases he
  | cons now rest ih =>
    obtain ⟨hfirst, hrest⟩ := List.pairwise_cons.1 hclock
    have hnow : now - w.start < length := by
      rcases List.mem_cons.1 he with rfl | he
      · exact htime
      · exact (sub_le_sub_right (hfirst _ (time_mem_of_mem_judge he)) _).trans_lt htime
    rw [judge, next_of_lt hnow, counted_of_full hfull] at he
    rcases List.mem_cons.1 he with rfl | he
    · simpa using hfull
    · exact ih hrest he

end

end Window

/-! ## 2. One request after another -/

namespace Limiter

section

variable [Sub τ] [LE τ] [DecidableLE τ]

/-- A limiter after some requests. -/
def after (l : Limiter τ) : List (String × τ) → Limiter τ
  | [] => l
  | (key, now) :: rest => (l.hit key now).2.after rest

@[simp] theorem budget_after (l : Limiter τ) (hits : List (String × τ)) :
    (l.after hits).budget = l.budget := by
  induction hits generalizing l with
  | nil => rfl
  | cons hit hits ih => exact (ih _).trans (budget_hit ..)

@[simp] theorem length_after (l : Limiter τ) (hits : List (String × τ)) :
    (l.after hits).length = l.length := by
  induction hits generalizing l with
  | nil => rfl
  | cons hit hits ih => exact (ih _).trans (length_hit ..)

theorem accepted_hit (l : Limiter τ) (key : String) (now : τ) :
    (l.hit key now).1 = !decide (l.budget ≤ (l.windowFor key now).count) := by
  rw [hit_eq]

end

variable [AddCommGroup τ] [LinearOrder τ]

theorem nodup_keys_hit {l : Limiter τ} (h : l.windows.keys.Nodup) (key : String) (now : τ) :
    (l.hit key now).2.windows.keys.Nodup := by
  rw [hit_eq]
  dsimp only
  split
  · exact Members.nodup_keys_set h _ _
  · exact Members.nodup_keys_filter (Members.nodup_keys_set h _ _) _

/-- The states that a limiter comes to while time does not run backwards, with the moment of the
latest call. -/
inductive Reached (budget : Int) (length : τ) : Limiter τ → τ → Prop
  | new (now : τ) : Reached budget length (new budget length) now
  | hit {l : Limiter τ} {now t : τ} (key : String) (h : Reached budget length l now) (ht : now ≤ t) :
      Reached budget length (l.hit key t).2 t
  | reset {l : Limiter τ} {now t : τ} (h : Reached budget length l now) (ht : now ≤ t) :
      Reached budget length l.reset t

theorem Reached.holds {budget : Int} {length : τ} {l : Limiter τ} {now : τ}
    (h : Reached budget length l now) :
    l.budget = budget ∧ l.length = length ∧ l.windows.keys.Nodup := by
  induction h with
  | new now => exact ⟨rfl, rfl, List.nodup_nil⟩
  | hit key h ht ih =>
    obtain ⟨hbudget, hlength, hdistinct⟩ := ih
    exact ⟨(budget_hit ..).trans hbudget, (length_hit ..).trans hlength, nodup_keys_hit hdistinct _ _⟩
  | reset h ht ih => exact ⟨ih.1, ih.2.1, List.nodup_nil⟩

/-! ## 3. The table of windows after a request -/

section

variable {l : Limiter τ} {key other : String} {now : τ}

/-- A request leaves the window that it was counted in, which is not over. -/
theorem get?_hit_self (hlength : 0 < l.length) (hdistinct : l.windows.keys.Nodup) (key : String)
    (now : τ) :
    (l.hit key now).2.windows.get? key = some ((l.windowFor key now).counted l.budget) := by
  have hset := Members.get?_set_self l.windows key ((l.windowFor key now).counted l.budget)
  rw [hit_eq]
  dsimp only
  split
  · exact hset
  · have hin : now - (l.windowFor key now).start < l.length := by
      rw [windowFor_eq_next]
      exact Window.sub_start_next_lt hlength _ _
    rw [prune, Members.get?_filter (Members.nodup_keys_set hdistinct _ _), hset, Option.filter_some]
    simp [isOver, hin]

/-- A request of another caller takes away a window that is over if it is accepted. -/
theorem get?_hit_of_ne (hdistinct : l.windows.keys.Nodup) (hne : key ≠ other) :
    (l.hit other now).2.windows.get? key =
      (l.windows.get? key).filter fun w => !((l.hit other now).1 && l.isOver now w) := by
  have hset := Members.get?_set_of_ne l.windows ((l.windowFor other now).counted l.budget) hne
  rw [accepted_hit, hit_eq]
  dsimp only
  split
  · rename_i hfull
    rw [hset, decide_eq_true hfull]
    cases l.windows.get? key <;> rfl
  · rename_i hroom
    rw [prune, Members.get?_filter (Members.nodup_keys_set hdistinct _ _), hset]
    simp [hroom, isOver]

end

/-! ## 4. Windows that are forgotten -/

/-- Whether a request was accepted when a window was over, so that the window is forgotten. -/
def Forgotten (length : τ) (w : Window τ) (es : List (Judged τ)) : Prop :=
  ∃ e ∈ es, e.accepted = true ∧ length ≤ e.time - w.start

instance (length : τ) (w : Window τ) (es : List (Judged τ)) : Decidable (Forgotten length w es) :=
  inferInstanceAs (Decidable (∃ e ∈ es, e.accepted = true ∧ length ≤ e.time - w.start))

theorem forgotten_append {length : τ} {w : Window τ} {es more : List (Judged τ)} :
    Forgotten length w (es ++ more) ↔ Forgotten length w es ∨ Forgotten length w more := by
  simp only [Forgotten, List.mem_append, or_and_right, exists_or]

theorem forgotten_judge_singleton {length : τ} {w : Window τ} {l : Limiter τ} {key : String} {now : τ} :
    Forgotten length w (l.judge [(key, now)]) ↔ (l.hit key now).1 = true ∧ length ≤ now - w.start := by
  simp [Forgotten, judge]

/-- A limiter that has judged some requests before a moment knows the latest window of a caller, and
its table holds that window unless it is forgotten. -/
structure Remembers (l : Limiter τ) (key : String) (now : τ) (latest : Option (Window τ))
    (es : List (Judged τ)) : Prop extends Knows l key now latest where
  past : ∀ e ∈ es, e.time ≤ now
  held : ∀ w, l.windows.get? key = some w ↔ latest = some w ∧ ¬ Forgotten l.length w es

namespace Remembers

variable {l : Limiter τ} {key other : String} {now t : τ} {latest : Option (Window τ)}
  {es : List (Judged τ)} {w : Window τ}

theorem new (budget : Int) (length : τ) (key : String) (now : τ) :
    (Limiter.new budget length).Remembers key now none [] where
  toKnows := .new budget length key now
  past _ he := nomatch he
  held _ := ⟨nofun, fun h => nomatch h.1⟩

theorem past_append (h : l.Remembers key now latest es) (ht : now ≤ t) (other : String) :
    ∀ e ∈ es ++ l.judge [(other, t)], e.time ≤ t := by
  refine List.forall_mem_append.2 ⟨fun e he => (h.past e he).trans ht, fun e he => ?_⟩
  obtain rfl := List.mem_singleton.1 he
  exact le_rfl

variable [IsOrderedAddMonoid τ]

/-- A window is forgotten only when it is over. -/
theorem le_of_forgotten (h : l.Remembers key now latest es) {length : τ}
    (hforgotten : Forgotten length w es) : length ≤ now - w.start := by
  obtain ⟨e, he, -, hover⟩ := hforgotten
  exact hover.trans (sub_le_sub_right (h.past e he) _)

theorem hit_self (h : l.Remembers key now latest es) (hlength : 0 < l.length) (ht : now ≤ t) :
    (l.hit key t).2.Remembers key t
      (some ((Window.next l.length latest t).counted l.budget)) (es ++ l.judge [(key, t)]) where
  toKnows := (h.later ht).hit_self
  past := h.past_append ht key
  held w := by
    rw [get?_hit_self hlength h.distinct, h.windowFor t ht, length_hit]
    refine ⟨fun hw => ⟨hw, fun hforgotten => ?_⟩, And.left⟩
    -- The request falls into a window that is not over.
    obtain rfl := Option.some.inj hw
    have hin := Window.sub_start_next_lt hlength latest t
    rw [← Window.start_counted l.budget] at hin
    rcases forgotten_append.1 hforgotten with hforgotten | hforgotten
    · exact absurd ((h.le_of_forgotten hforgotten).trans (sub_le_sub_right ht _)) (not_le.2 hin)
    · exact absurd (forgotten_judge_singleton.1 hforgotten).2 (not_le.2 hin)

theorem hit_of_ne (h : l.Remembers key now latest es) (hne : key ≠ other) (ht : now ≤ t) :
    (l.hit other t).2.Remembers key t latest (es ++ l.judge [(other, t)]) where
  toKnows := (h.later ht).hit_of_ne hne
  past := h.past_append ht other
  held w := by
    have hkept : (!((l.hit other t).1 && l.isOver t w)) = true ↔
        ¬ Forgotten l.length w (l.judge [(other, t)]) := by
      rw [forgotten_judge_singleton, isOver, Bool.not_eq_true', Bool.and_eq_false_iff, not_and_or]
      simp
    rw [get?_hit_of_ne h.distinct hne, Option.filter_eq_some_iff, h.held, hkept, length_hit,
      forgotten_append, not_or, and_assoc]

/-- What a limiter remembers of a caller after more requests. -/
theorem after {hits : List (String × τ)} (h : l.Remembers key now latest es)
    (hlength : 0 < l.length) (hclock : (now :: hits.map Prod.snd).Pairwise (· ≤ ·)) (hnow : now ≤ t)
    (ht : ∀ hit ∈ hits, hit.2 ≤ t) :
    (l.after hits).Remembers key t (Window.latest l.budget l.length latest
      ((hits.filter fun hit => hit.1 = key).map Prod.snd)) (es ++ l.judge hits) := by
  induction hits generalizing l now latest es with
  | nil =>
    rw [judge, List.append_nil]
    exact ⟨h.later hnow, fun e he => (h.past e he).trans hnow, h.held⟩
  | cons hit hits ih =>
    obtain ⟨other, s⟩ := hit
    obtain ⟨hfirst, hrest⟩ := List.pairwise_cons.1 hclock
    obtain ⟨hs, hlast⟩ := List.forall_mem_cons.1 ht
    have hnows : now ≤ s := hfirst s List.mem_cons_self
    have hlength' : 0 < (l.hit other s).2.length := by rwa [length_hit]
    have hjudge : es ++ l.judge ((other, s) :: hits) =
        (es ++ l.judge [(other, s)]) ++ (l.hit other s).2.judge hits := by
      rw [List.append_assoc]
      rfl
    rw [hjudge]
    by_cases hkey : other = key
    · subst hkey
      have hafter := ih (h.hit_self hlength hnows) hlength' hrest hs hlast
      rw [budget_hit, length_hit] at hafter
      rw [List.filter_cons_of_pos (by simp)]
      exact hafter
    · have hafter := ih (h.hit_of_ne (Ne.symm hkey) hnows) hlength' hrest hs hlast
      rw [budget_hit, length_hit] at hafter
      rw [List.filter_cons_of_neg (by simpa using hkey)]
      exact hafter

end Remembers

/-! ## 5. The answer -/

theorem retryAfter_eq_max (l : Limiter τ) (key : String) (now : τ) :
    l.retryAfter key now =
      max 0 (l.length - (now - ((l.windows.get? key).map (·.start)).getD now)) :=
  (max_def_lt _ _).symm

theorem retryAfter_of_some {l : Limiter τ} {key : String} {w : Window τ}
    (h : l.windows.get? key = some w) (now : τ) :
    l.retryAfter key now = max 0 (l.length - (now - w.start)) := by
  rw [retryAfter_eq_max, h]
  rfl

/-- A caller without a window is told its full length. -/
theorem retryAfter_of_ne_some {l : Limiter τ} {key : String} (hlength : 0 < l.length)
    (h : ∀ w, l.windows.get? key ≠ some w) (now : τ) : l.retryAfter key now = l.length := by
  rw [retryAfter_eq_max, Option.eq_none_iff_forall_ne_some.2 h]
  show max 0 (l.length - (now - now)) = _
  rw [sub_self, sub_zero, max_eq_right hlength.le]

namespace Remembers

variable {l : Limiter τ} {key : String} {now : τ} {es : List (Judged τ)} {w : Window τ}

theorem retryAfter_of_latest_none (h : l.Remembers key now none es) (hlength : 0 < l.length) :
    l.retryAfter key now = l.length :=
  retryAfter_of_ne_some hlength (fun w hw => absurd ((h.held w).1 hw).1 nofun) now

variable [IsOrderedAddMonoid τ]

/-- In a window the caller is told when it is over. -/
theorem retryAfter_of_lt (h : l.Remembers key now (some w) es) (hin : now - w.start < l.length) :
    l.retryAfter key now = l.length - (now - w.start) := by
  have hheld : l.windows.get? key = some w :=
    (h.held w).2 ⟨rfl, fun hforgotten => absurd (h.le_of_forgotten hforgotten) (not_le.2 hin)⟩
  rw [retryAfter_of_some hheld, max_eq_right (sub_pos.2 hin).le]

/-- After a window that is over, the caller is told not to wait if it is still there, and else to wait
for the full length of a window. -/
theorem retryAfter_of_le (h : l.Remembers key now (some w) es) (hlength : 0 < l.length)
    (hover : l.length ≤ now - w.start) :
    (Forgotten l.length w es ∧ l.retryAfter key now = l.length) ∨
      (¬ Forgotten l.length w es ∧ l.retryAfter key now = 0) := by
  by_cases hforgotten : Forgotten l.length w es
  · refine .inl ⟨hforgotten, retryAfter_of_ne_some hlength (fun v hv => ?_) now⟩
    obtain ⟨hlatest, hkept⟩ := (h.held v).1 hv
    obtain rfl := Option.some.inj hlatest
    exact hkept hforgotten
  · refine .inr ⟨hforgotten, ?_⟩
    rw [retryAfter_of_some ((h.held w).2 ⟨rfl, hforgotten⟩), max_eq_left (sub_nonpos.2 hover)]

end Remembers

/-! ## 6. Right after a refused request -/

/-- A request that is refused leaves a window that is full and not over. -/
theorem exists_full_of_refused {l : Limiter τ} {key : String} {t : τ} (hlength : 0 < l.length)
    (hdistinct : l.windows.keys.Nodup) (hrefused : (l.hit key t).1 = false) :
    ∃ w, l.budget ≤ w.count ∧ t - w.start < l.length ∧
      (l.hit key t).2.Remembers key t (some w) [] := by
  have hfull : l.budget ≤ (l.windowFor key t).count := by simpa [accepted_hit] using hrefused
  have hget := get?_hit_self hlength hdistinct key t
  rw [Window.counted_of_full hfull] at hget
  refine ⟨l.windowFor key t, hfull, ?_, ⟨nodup_keys_hit hdistinct _ _, fun s _ => ?_⟩, nofun,
    fun w => ?_⟩
  · rw [windowFor_eq_next]
    exact Window.sub_start_next_lt hlength _ _
  · rw [windowFor_eq_next, hget]
  · rw [hget]
    exact ⟨fun h => ⟨h, nofun⟩, And.left⟩

variable [IsOrderedAddMonoid τ] {budget : Int} {length : τ}

/-- The answer after a refused request is exact: it is positive, every request of the caller is
refused until then, and the one at that moment is accepted, whatever others ask for meanwhile. -/
theorem retryAfter_of_refused (hbudget : 1 ≤ budget) (hlength : 0 < length) {l : Limiter τ}
    {now t : τ} (hreached : Reached budget length l now) (key : String)
    (hrefused : (l.hit key t).1 = false) :
    let refusing := (l.hit key t).2
    let wait := refusing.retryAfter key t
    0 < wait ∧ ∀ later : List (String × τ), (t :: later.map Prod.snd).Pairwise (· ≤ ·) →
      (∀ e ∈ refusing.judge later, e.key = key → e.time < t + wait → e.accepted = false) ∧
      ((∀ hit ∈ later, hit.2 ≤ t + wait ∧ (hit.1 = key → hit.2 < t + wait)) →
        ((refusing.after later).hit key (t + wait)).1 = true) := by
  intro refusing wait
  obtain ⟨rfl, rfl, hdistinct⟩ := hreached.holds
  obtain ⟨w, hfull, hin, hremembers⟩ := exists_full_of_refused hlength hdistinct hrefused
  have hlen : refusing.length = l.length := length_hit ..
  have hwait : wait = l.length - (t - w.start) := by
    rw [← hlen]
    exact hremembers.retryAfter_of_lt (by rwa [length_hit])
  have hpos : 0 < wait := hwait ▸ sub_pos.2 hin
  -- The caller is told to wait until the window is over.
  have hend : t + wait - w.start = l.length := by
    rw [hwait]
    abel
  refine ⟨hpos, fun later hclock => ⟨fun e he hkey htime => ?_, fun hlater => ?_⟩⟩
  · have hmine : e ∈ (refusing.judge later).filter fun e => e.key = key :=
      List.mem_filter.2 ⟨he, decide_eq_true hkey⟩
    rw [filter_judge hremembers.toKnows hclock, budget_hit, length_hit] at hmine
    refine Window.refused_of_full hfull ?_ hmine ?_
    · exact (List.pairwise_cons.1 hclock).2.sublist (List.filter_sublist.map _)
    · rw [← hend]
      exact sub_lt_sub_right htime _
  · have hafter := hremembers.after (by rwa [length_hit]) hclock (le_add_of_nonneg_right hpos.le)
      fun hit hhit => (hlater hit hhit).1
    have hlatest : Window.latest refusing.budget refusing.length (some w)
        ((later.filter fun hit => hit.1 = key).map Prod.snd) = some w := by
      rw [budget_hit, length_hit]
      refine Window.latest_of_full hfull fun s hs => ?_
      obtain ⟨hit, hmem, rfl⟩ := List.mem_map.1 hs
      obtain ⟨hmem, hkey⟩ := List.mem_filter.1 hmem
      rw [← hend]
      exact sub_lt_sub_right ((hlater hit hmem).2 (of_decide_eq_true hkey)) _
    rw [hlatest] at hafter
    rw [accepted_hit, hafter.windowFor _ le_rfl, length_after, budget_after, length_hit, budget_hit,
      Window.next_of_le hend.ge]
    simpa using Int.lt_of_lt_of_le Int.one_pos hbudget

/-- Two requests within ten seconds, and one more at five: the caller is told to wait five seconds.
Another request at seven is refused, and the one at ten accepted, just after another caller has made
the limiter forget the window. -/
theorem retryAfter_of_refused_third :
    let l : Limiter ℤ := (new 2 10).after [("a", 0), ("a", 3), ("b", 4)]
    let later : List (String × ℤ) := [("b", 6), ("a", 7), ("c", 10)]
    Reached 2 10 l 4 ∧ (l.hit "a" 5).1 = false ∧ (l.hit "a" 5).2.retryAfter "a" 5 = 5 ∧
      (((l.hit "a" 5).2.judge later).map (·.accepted) = [true, false, true] ∧
        ((l.hit "a" 5).2.after later).windows.get? "a" = none) ∧
      (((l.hit "a" 5).2.after later).hit "a" 10).1 = true := by
  intro l later
  have hreached : Reached 2 10 l 4 :=
    (((Reached.new 0).hit "a" (by decide : (0 : ℤ) ≤ 0)).hit "a" (by decide : (0 : ℤ) ≤ 3)).hit "b"
      (by decide : (3 : ℤ) ≤ 4)
  have hrefused : (l.hit "a" 5).1 = false := by decide
  have hwait : (l.hit "a" 5).2.retryAfter "a" 5 = 5 := by decide
  obtain ⟨-, hexact⟩ := retryAfter_of_refused (by decide : (1 : Int) ≤ 2) (by decide : (0 : ℤ) < 10)
    hreached "a" hrefused
  obtain ⟨-, hnext⟩ := hexact later (by decide)
  rw [hwait] at hnext
  exact ⟨hreached, hrefused, hwait, by decide, hnext (by decide)⟩

/-! ## 7. The answer and other callers -/

/-- The latest window of a caller, from the requests of all. -/
def latestOf (budget : Int) (length : τ) (key : String) (hits : List (String × τ)) :
    Option (Window τ) :=
  Window.latest budget length none ((hits.filter fun hit => hit.1 = key).map Prod.snd)

/-- What a new limiter remembers of a caller after the requests of all. -/
theorem remembers_latestOf (budget : Int) (hlength : 0 < length) (key : String)
    {hits : List (String × τ)} {t : τ} (hclock : (hits.map Prod.snd).Pairwise (· ≤ ·))
    (ht : ∀ hit ∈ hits, hit.2 ≤ t) :
    ((new budget length).after hits).Remembers key t (latestOf budget length key hits)
      ((new budget length).judge hits) := by
  cases hits with
  | nil => exact .new budget length key t
  | cons hit hits =>
    have hnow : (hit.2 :: (hit :: hits).map Prod.snd).Pairwise (· ≤ ·) :=
      List.pairwise_cons_cons_iff_of_trans.2 ⟨le_rfl, hclock⟩
    exact (Remembers.new budget length key hit.2).after hlength hnow (ht hit List.mem_cons_self) ht

/-- Two sequences of requests with the same ones of a caller, at the same times, lead to the same
answer, unless the latest window of the caller is over: then they do exactly if both of them or none
made the limiter forget that window. -/
theorem retryAfter_eq_iff_of_same (budget : Int) {length : τ} (hlength : 0 < length) {key : String}
    {hits hits' : List (String × τ)} (hclock : (hits.map Prod.snd).Pairwise (· ≤ ·))
    (hclock' : (hits'.map Prod.snd).Pairwise (· ≤ ·))
    (hsame : (hits.filter fun hit => hit.1 = key) = hits'.filter fun hit => hit.1 = key)
    {t : τ} (ht : ∀ hit ∈ hits, hit.2 ≤ t) (ht' : ∀ hit ∈ hits', hit.2 ≤ t) :
    ((new budget length).after hits).retryAfter key t =
        ((new budget length).after hits').retryAfter key t ↔
      ∀ w, latestOf budget length key hits = some w → length ≤ t - w.start →
        (Forgotten length w ((new budget length).judge hits) ↔
          Forgotten length w ((new budget length).judge hits')) := by
  have hmine := remembers_latestOf budget hlength key hclock ht
  have hother := remembers_latestOf budget hlength key hclock' ht'
  have hlatest : latestOf budget length key hits' = latestOf budget length key hits := by
    rw [latestOf, latestOf, hsame]
  rw [hlatest] at hother
  have hlen : ∀ hits, ((new budget length).after hits).length = length := fun hits =>
    length_after (new budget length) hits
  cases hw : latestOf budget length key hits with
  | none =>
    rw [hw] at hmine hother
    rw [hmine.retryAfter_of_latest_none (by rwa [hlen]),
      hother.retryAfter_of_latest_none (by rwa [hlen]), hlen, hlen]
    exact iff_of_true rfl nofun
  | some w =>
    rw [hw] at hmine hother
    simp only [Option.some.injEq, forall_eq']
    rcases lt_or_ge (t - w.start) length with hin | hover
    · rw [hmine.retryAfter_of_lt (by rwa [hlen]), hother.retryAfter_of_lt (by rwa [hlen]), hlen, hlen]
      exact iff_of_true rfl fun hover => absurd hover (not_le.2 hin)
    · have hmine := hmine.retryAfter_of_le (by rwa [hlen]) (by rwa [hlen])
      have hother := hother.retryAfter_of_le (by rwa [hlen]) (by rwa [hlen])
      rw [hlen] at hmine hother
      -- A window has a length, so that the two answers differ.
      rcases hmine with ⟨hforgot, hanswer⟩ | ⟨hkept, hanswer⟩ <;>
        rcases hother with ⟨hforgot', hanswer'⟩ | ⟨hkept', hanswer'⟩ <;>
        rw [hanswer, hanswer']
      · exact iff_of_true rfl fun _ => iff_of_true hforgot hforgot'
      · exact iff_of_false hlength.ne' fun h => hkept' ((h hover).1 hforgot)
      · exact iff_of_false hlength.ne fun h => hkept ((h hover).2 hforgot')
      · exact iff_of_true rfl fun _ => iff_of_false hkept hkept'

/-- Another caller asks at twelve or at eleven, when the window that began at zero is over: either way
the caller is told to wait ten seconds. -/
theorem retryAfter_eq_of_forgotten :
    let hits : List (String × ℤ) := [("a", 0), ("b", 12)]
    let hits' : List (String × ℤ) := [("b", -3), ("a", 0), ("c", 11)]
    (hits.filter fun hit => hit.1 = "a") = (hits'.filter fun hit => hit.1 = "a") ∧
      ((new 1 10).after hits).retryAfter "a" 20 = 10 ∧
      ((new 1 10).after hits).retryAfter "a" 20 = ((new 1 10).after hits').retryAfter "a" 20 := by
  intro hits hits'
  refine ⟨by decide, by decide, ?_⟩
  refine (retryAfter_eq_iff_of_same 1 (by decide : (0 : ℤ) < 10) (by decide) (by decide) (by decide)
    (by decide) (by decide)).2 fun w hw _ => ?_
  obtain rfl : (⟨0, 1⟩ : Window ℤ) = w := Option.some.inj hw
  exact iff_of_true (by decide) (by decide)

/-- Twenty seconds after a request of their own a caller is told not to wait, but to wait ten seconds
if another caller has made a request meanwhile, five seconds ago or just now. -/
theorem retryAfter_reveals :
    let alone : List (String × ℤ) := [("a", 0)]
    ((new 1 10).after alone).retryAfter "a" 20 = 0 ∧ ∀ s ∈ ([15, 20] : List ℤ),
      let among : List (String × ℤ) := [("a", 0), ("b", s)]
      ((alone.map Prod.snd).Pairwise (· ≤ ·) ∧ (among.map Prod.snd).Pairwise (· ≤ ·) ∧
        (alone.filter fun hit => hit.1 = "a") = (among.filter fun hit => hit.1 = "a")) ∧
      ((new 1 10).after among).retryAfter "a" 20 = 10 := by
  decide

end Limiter

end Dashboards
