import Dashboards.Dialogue

/-!
# Dialogues that write little

Of the questions that are asked in a dialogue some only read, and leave what is kept by whoever answers
as it is.  A dialogue that asks no other question leaves it as it is too, and one that asks a single
other question leaves what the answer to that question leaves.
-/

namespace Dashboards

namespace Dialogue

variable {Q P α β ε σ τ : Type} {Answer : Q → Type} {Reply : P → Type}
  {reads writes : Q → Prop} {m n : Nat}

/-! ## 1. Counting the questions that write -/

/-- A dialogue that asks, apart from questions that read, at most so many that write. -/
def Within (reads writes : Q → Prop) : Nat → Dialogue Answer α → Prop
  | _, done _ => True
  | n, ask q next =>
    (reads q ∧ ∀ a, Within reads writes n (next a)) ∨
      ∃ m, n = m + 1 ∧ writes q ∧ ∀ a, Within reads writes m (next a)

@[simp] theorem within_done (a : α) : Within reads writes n (done a : Dialogue Answer α) := trivial

theorem within_read {q : Q} (h : reads q) :
    Within reads writes n (question q : Dialogue Answer (Answer q)) := .inl ⟨h, within_done⟩

theorem within_write {q : Q} (h : writes q) :
    Within reads writes 1 (question q : Dialogue Answer (Answer q)) := .inr ⟨0, rfl, h, within_done⟩

/-- What was allowed stays allowed where more is. -/
theorem Within.mono {d : Dialogue Answer α} (h : d.Within reads writes m) (hle : m ≤ n) :
    d.Within reads writes n := by
  induction d generalizing m n with
  | done a => exact within_done a
  | ask q next ih =>
    obtain ⟨hq, hnext⟩ | ⟨m', rfl, hq, hnext⟩ := h
    · exact .inl ⟨hq, fun a => ih a (hnext a) hle⟩
    · obtain ⟨n', rfl⟩ : ∃ n', n = n' + 1 := ⟨n - 1, by omega⟩
      exact .inr ⟨n', rfl, hq, fun a => ih a (hnext a) (by omega)⟩

theorem Within.imp {writes' : Q → Prop} {d : Dialogue Answer α} (h : d.Within reads writes n)
    (himp : ∀ q, writes q → writes' q) : d.Within reads writes' n := by
  induction d generalizing n with
  | done a => exact within_done a
  | ask q next ih =>
    obtain ⟨hq, hnext⟩ | ⟨m, rfl, hq, hnext⟩ := h
    · exact .inl ⟨hq, fun a => ih a (hnext a)⟩
    · exact .inr ⟨m, rfl, himp q hq, fun a => ih a (hnext a)⟩

/-- Of two dialogues in a row each may use up its share. -/
theorem Within.bind {d : Dialogue Answer α} {f : α → Dialogue Answer β}
    (h : d.Within reads writes m) (hf : ∀ a, (f a).Within reads writes n) :
    (d >>= f).Within reads writes (m + n) := by
  induction d generalizing m with
  | done a => exact (hf a).mono (Nat.le_add_left n m)
  | ask q next ih =>
    obtain ⟨hq, hnext⟩ | ⟨m', rfl, hq, hnext⟩ := h
    · exact .inl ⟨hq, fun a => ih a (hnext a)⟩
    · exact .inr ⟨m' + n, by omega, hq, fun a => ih a (hnext a)⟩

theorem Within.map {d : Dialogue Answer α} (h : d.Within reads writes n) (f : α → β) :
    (f <$> d).Within reads writes n := h.bind (n := 0) fun _ => within_done _

theorem Within.lift {d : Dialogue Answer α} (h : d.Within reads writes n) :
    (ExceptT.lift d : ExceptT ε (Dialogue Answer) α).run.Within reads writes n := h.map _

/-- A computation that may end early asks no more than one that goes on. -/
theorem Within.andThen {c : ExceptT ε (Dialogue Answer) α} {f : α → ExceptT ε (Dialogue Answer) β}
    (h : c.run.Within reads writes m) (hf : ∀ a, (f a).run.Within reads writes n) :
    (c >>= f).run.Within reads writes (m + n) := by
  refine Within.bind h fun result => ?_
  cases result with
  | ok a => exact hf a
  | error e => exact within_done _

theorem Within.mapResult {c : ExceptT ε (Dialogue Answer) α} (h : c.run.Within reads writes n)
    (f : α → β) : (f <$> c).run.Within reads writes n := by
  refine Within.bind (n := 0) h fun result => ?_
  cases result <;> exact within_done _

theorem Within.mapM {f : α → ExceptT ε (Dialogue Answer) β}
    (h : ∀ a, (f a).run.Within reads writes 0) (as : List α) :
    (as.mapM f).run.Within reads writes 0 := by
  have hloop : ∀ (as : List α) (done : List β),
      (List.mapM.loop f as done).run.Within reads writes 0 := by
    intro as
    induction as with
    | nil => exact fun done => within_done _
    | cons a as ih => exact fun done => (h a).andThen (n := 0) fun b => ih (b :: done)
  exact hloop as []

/-- Where somebody else is asked in turn, a question that writes is asked once for each one here. -/
theorem Within.relay {reads' writes' : P → Prop} {through : (q : Q) → Dialogue Reply (Answer q)}
    {d : Dialogue Answer α} (h : d.Within reads writes n)
    (hread : ∀ q, reads q → (through q).Within reads' writes' 0)
    (hwrite : ∀ q, writes q → (through q).Within reads' writes' 1) :
    (d.relay through).Within reads' writes' n := by
  induction d generalizing n with
  | done a => exact within_done a
  | ask q next ih =>
    obtain ⟨hq, hnext⟩ | ⟨m, rfl, hq, hnext⟩ := h
    · exact ((hread q hq).bind fun a => ih a (hnext a)).mono (Nat.le_of_eq (Nat.zero_add n))
    · exact ((hwrite q hq).bind fun a => ih a (hnext a)).mono (Nat.le_of_eq (Nat.add_comm 1 m))

/-! ## 2. What is left behind -/

variable {respond : (q : Q) → σ → Answer q × σ} (kept : σ → τ)

/-- A dialogue that only reads leaves everything as it is. -/
theorem Within.kept_run (hread : ∀ q s, reads q → kept (respond q s).2 = kept s)
    {d : Dialogue Answer α} (h : d.Within reads writes 0) (s : σ) :
    kept (run respond d s).2 = kept s := by
  induction d generalizing s with
  | done a => rfl
  | ask q next ih =>
    obtain ⟨hq, hnext⟩ | ⟨m, hm, -, -⟩ := h
    · rw [run_ask, ih _ (hnext _), hread q s hq]
    · omega

/-- A dialogue that writes once at most leaves everything as it is, or as the answer to its question
left it. -/
theorem Within.kept_run_once (hread : ∀ q s, reads q → kept (respond q s).2 = kept s)
    {d : Dialogue Answer α} (h : d.Within reads writes 1) (s : σ) :
    kept (run respond d s).2 = kept s ∨
      ∃ q s', writes q ∧ kept s' = kept s ∧ kept (run respond d s).2 = kept (respond q s').2 := by
  induction d generalizing s with
  | done a => exact .inl rfl
  | ask q next ih =>
    rw [run_ask]
    obtain ⟨hq, hnext⟩ | ⟨m, hm, hq, hnext⟩ := h
    · obtain hsame | ⟨q', s', hq', hs', hleft⟩ := ih _ (hnext _) (respond q s).2
      · exact .inl (hsame.trans (hread q s hq))
      · exact .inr ⟨q', s', hq', hs'.trans (hread q s hq), hleft⟩
    · obtain rfl : m = 0 := by omega
      exact .inr ⟨q, s, hq, rfl, (hnext _).kept_run kept hread _⟩

/-! ## 3. Running what is put together -/

/-- Where whoever is asked in turn answers as the state of a first one does, so does the whole. -/
theorem run_relay {respond : (q : Q) → σ → Answer q × σ} {respond' : (p : P) → τ → Reply p × τ}
    {through : (q : Q) → Dialogue Reply (Answer q)} (embed : σ → τ)
    (h : ∀ q s, run respond' (through q) (embed s) = ((respond q s).1, embed (respond q s).2))
    (d : Dialogue Answer α) (s : σ) :
    run respond' (d.relay through) (embed s) = ((run respond d s).1, embed (run respond d s).2) := by
  induction d generalizing s with
  | done a => rfl
  | ask q next ih =>
    show run respond' (through q >>= fun a => (next a).relay through) (embed s) = _
    rw [run_bind, h, run_ask]
    exact ih _ _

theorem run_map (respond : (q : Q) → σ → Answer q × σ) (f : α → β) (d : Dialogue Answer α) (s : σ) :
    run respond (f <$> d) s = (f (run respond d s).1, (run respond d s).2) := run_bind respond d _ s

theorem run_mapResult (respond : (q : Q) → σ → Answer q × σ) (f : α → β)
    (c : ExceptT ε (Dialogue Answer) α) (s : σ) :
    run respond (f <$> c).run s = ((run respond c.run s).1.map f, (run respond c.run s).2) := by
  show run respond (c.run >>= _) s = _
  rw [run_bind]
  rcases run respond c.run s with ⟨e | a, s'⟩ <;> rfl

end Dialogue

end Dashboards
