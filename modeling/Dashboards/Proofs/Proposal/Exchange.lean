import Dashboards.Proofs.Json.Line
import Dashboards.Proofs.Outcomes
import Dashboards.Proposal.Completion

/-!
# Asking until a reply is decisive

The same request is sent again after every reply that is not decisive, and never after one that is.
Which replies those are is said here by what they hold, without the order in which they are looked
through: a refusal because of a rate limit, or a success with a message content.  One kind of reply is
neither decisive nor asked again after: a success whose body is nested too deeply to be read.
-/

namespace Dashboards

/-! ## 1. The content of a payload -/

namespace Value

/-- A payload whose first choice is a message with this content. -/
def HoldsContent (payload content : Value) : Prop :=
  ∃ choice others message, payload.member? "choices" = some (.arr (choice :: others)) ∧
    choice.member? "message" = some message ∧ message.member? "content" = some content

theorem partUnder_eq_ok_iff {key : String} {v w : Value} :
    v.partUnder key = .ok w ↔ v.member? key = some w := by
  cases v with
  | obj ms =>
    rw [partUnder, member?]
    cases Members.get? ms key <;> simp
  | _ => exact ⟨nofun, nofun⟩

/-- The first part of what has members only in lists is the first item of a list. -/
theorem front_eq_ok {v w x : Value} {key : String} (hfront : v.front = .ok w)
    (hpart : w.member? key = some x) : ∃ others, v = .arr (w :: others) := by
  cases v with
  | arr xs =>
    cases xs with
    | nil => cases hfront
    | cons first others =>
      obtain rfl := Except.ok.inj hfront
      exact ⟨others, rfl⟩
  | str s =>
    -- The first part of a text is a text, and that has no members.
    rw [front] at hfront
    cases hchars : s.toList with
    | nil =>
      rw [hchars] at hfront
      cases hfront
    | cons c cs =>
      rw [hchars] at hfront
      obtain rfl := Except.ok.inj hfront
      cases hpart
  | _ => cases hfront

theorem messageContent_eq_ok_iff {payload v : Value} :
    payload.messageContent = .ok v ↔ payload.HoldsContent v := by
  constructor
  · intro h
    obtain ⟨choices, hchoices, h⟩ := exists_of_bind_eq_ok h
    obtain ⟨choice, hchoice, h⟩ := exists_of_bind_eq_ok h
    obtain ⟨message, hmessage, hcontent⟩ := exists_of_bind_eq_ok h
    rw [partUnder_eq_ok_iff] at hchoices hmessage hcontent
    obtain ⟨others, rfl⟩ := front_eq_ok hchoice hmessage
    exact ⟨choice, others, message, hchoices, hmessage, hcontent⟩
  · rintro ⟨choice, others, message, hchoices, hmessage, hcontent⟩
    rw [← partUnder_eq_ok_iff] at hchoices hmessage hcontent
    show (payload.partUnder "choices" >>= fun choices => choices.front >>= fun choice =>
      choice.partUnder "message" >>= fun message => message.partUnder "content") = _
    rw [hchoices]
    show (choice.partUnder "message" >>= fun message => message.partUnder "content") = _
    rw [hmessage]
    exact hcontent

end Value

namespace Completion

/-! ## 2. Replies -/

/-- A success, whose status is one of the two hundreds, and what its body is read as. -/
def Reply.Bears (reply : Reply) (outcome : Except Json.Unreadable Value) : Prop :=
  ∃ status body, reply = .answered status body ∧ 200 ≤ status ∧ status < 300 ∧
    Json.read (Json.withoutMark body) = outcome

/-- A reply that decides the result, and what it says. -/
inductive Decides : Reply → Verdict → Prop
  | limited (body : String) : Decides (.answered 429 body) .limited
  | content {reply : Reply} {payload v : Value} (hbody : reply.Bears (.ok payload))
      (hv : payload.HoldsContent v) : Decides reply (.content v)

def Decisive (reply : Reply) : Prop := ∃ verdict, Decides reply verdict

/-- A success whose body is given up because it is nested too deeply. -/
def Overdeep (reply : Reply) (excess : Excess) : Prop :=
  reply.Bears (.error (.beyond excess)) ∧ excess.isDeep = true

/-- A reply after which the request is sent again. -/
structure Inconclusive (reply : Reply) : Prop where
  notDecisive : ¬ Decisive reply
  notOverdeep : ∀ excess, ¬ Overdeep reply excess

variable {reply : Reply} {verdict : Verdict} {address : String}

theorem isSuccess_iff {status : Nat} : isSuccess status = true ↔ 200 ≤ status ∧ status < 300 := by
  rw [isSuccess, beq_iff_eq]
  omega

theorem judge_of_decides (h : Decides reply verdict) : reply.judge address = .ok verdict := by
  cases h with
  | limited body => rfl
  | content hbody hv =>
    obtain ⟨status, body, rfl, hlow, hhigh, hread⟩ := hbody
    rw [Reply.judge, if_pos (isSuccess_iff.2 ⟨hlow, hhigh⟩)]
    dsimp only
    rw [hread]
    dsimp only
    rw [Value.messageContent_eq_ok_iff.2 hv]

theorem judge_of_overdeep {excess : Excess} (h : Overdeep reply excess) :
    reply.judge address = .ok (.beyond excess) := by
  obtain ⟨⟨status, body, rfl, hlow, hhigh, hread⟩, hdeep⟩ := h
  rw [Reply.judge, if_pos (isSuccess_iff.2 ⟨hlow, hhigh⟩)]
  dsimp only
  rw [hread]
  exact if_pos hdeep

/-- No other reply has a verdict. -/
theorem decides_of_judge (h : reply.judge address = .ok verdict) :
    Decides reply verdict ∨ ∃ excess, Overdeep reply excess := by
  cases reply with
  | lost reason => cases h
  | answered status body =>
    rw [Reply.judge] at h
    split at h
    · rename_i hsuccess
      obtain ⟨hlow, hhigh⟩ := isSuccess_iff.1 hsuccess
      have hbears : (Reply.answered status body).Bears (Json.read (Json.withoutMark body)) :=
        ⟨status, body, rfl, hlow, hhigh, rfl⟩
      dsimp only at h
      cases hread : Json.read (Json.withoutMark body) with
      | ok payload =>
        rw [hread] at h hbears
        dsimp only at h
        cases hcontent : payload.messageContent with
        | ok v =>
          rw [hcontent] at h
          obtain rfl := Except.ok.inj h
          exact .inl (.content hbears (Value.messageContent_eq_ok_iff.1 hcontent))
        | error absence =>
          rw [hcontent] at h
          cases h
      | error cause =>
        rw [hread] at h hbears
        cases cause with
        | malformed fault => cases h
        | beyond excess =>
          dsimp only at h
          split at h
          · rename_i hdeep
            exact .inr ⟨excess, hbears, hdeep⟩
          · cases h
    · split at h
      · rename_i hlimited
        obtain rfl := Except.ok.inj h
        subst hlimited
        exact .inl (.limited body)
      · cases h

/-- After an inconclusive reply there is something to report in case it is the last one. -/
theorem inconclusive_iff (address : String) :
    Inconclusive reply ↔ ∃ setback, reply.judge address = .error setback := by
  constructor
  · intro h
    cases hjudge : reply.judge address with
    | error setback => exact ⟨setback, rfl⟩
    | ok verdict =>
      rcases decides_of_judge hjudge with hdecides | ⟨excess, hdeep⟩
      · exact absurd ⟨verdict, hdecides⟩ h.notDecisive
      · exact absurd hdeep (h.notOverdeep excess)
  · rintro ⟨setback, hsetback⟩
    refine ⟨fun ⟨verdict, hdecides⟩ => ?_, fun excess hdeep => ?_⟩
    · cases hsetback.symm.trans (judge_of_decides hdecides)
    · cases hsetback.symm.trans (judge_of_overdeep hdeep)

/-! ## 3. Nested bodies -/

/-- Opening brackets are read until too many are open. -/
theorem readTokens_brackets {n : ℕ} {stack : List Json.Frame} {mode : Json.Mode}
    (hmode : mode = .value ∨ mode = .firstItem) (p : ℕ) (hopen : stack.length ≤ Excess.textDepth)
    (hmany : Excess.textDepth < stack.length + n) :
    Json.readTokens (Json.tokens p (List.replicate n '[')) stack mode =
      .error (.beyond .deepArray) := by
  induction n generalizing stack mode p with
  | zero => omega
  | succ n ih =>
    have hstep (ts : List Json.Located) : Json.readTokens (⟨.openArray, p⟩ :: ts) stack mode =
        if Json.isFull stack then .error (.beyond .deepArray)
        else Json.readTokens ts (.items [] :: stack) .firstItem := by
      rcases hmode with rfl | rfl <;> rfl
    rw [List.replicate_succ, Json.tokens_mark (t := .openArray) rfl, hstep]
    split
    · rfl
    · rename_i hfull
      have hroom : stack.length < Excess.textDepth := by simpa [Json.isFull] using hfull
      exact ih (.inr rfl) _ hroom (by rw [List.length_cons]; omega)

/-- A success whose body only opens lists. -/
def bracketsReply (n : ℕ) : Reply := .answered 200 (String.ofList (List.replicate n '['))

theorem overdeep_bracketsReply {n : ℕ} (h : Excess.textDepth < n) :
    Overdeep (bracketsReply n) .deepArray := by
  refine ⟨⟨200, _, rfl, by decide, by decide, ?_⟩, rfl⟩
  obtain ⟨n, rfl⟩ : ∃ n', n = n' + 1 := ⟨n - 1, by omega⟩
  have hchars : (String.ofList (List.replicate (n + 1) '[')).toList =
      '[' :: List.replicate n '[' := by rw [String.toList_ofList, List.replicate_succ]
  have hmark : Json.withoutMark (String.ofList (List.replicate (n + 1) '[')) =
      String.ofList (List.replicate (n + 1) '[') := by
    rw [Json.withoutMark, hchars]
    rfl
  rw [hmark, Json.read, hchars]
  show Json.readTokens (Json.tokens 0 ('[' :: List.replicate n '[')) [] .value = _
  rw [← List.replicate_succ]
  exact readTokens_brackets (.inl rfl) 0 (Nat.zero_le _) (by simpa using h)

/-! ## 4. The exchange -/

/-- The replies that are still to come, in their order, and the requests that were sent. -/
structure Script where
  replies : ℕ → Reply
  sent : List Request

namespace Script

/-- Gives the next reply, whatever is sent. -/
def answer (r : Request) (s : Script) : Reply × Script :=
  (s.replies 0, ⟨fun i => s.replies (i + 1), s.sent ++ [r]⟩)

/-- What is left after a request was sent so many times. -/
def after (s : Script) (n : ℕ) (r : Request) : Script :=
  ⟨fun i => s.replies (i + n), s.sent ++ List.replicate n r⟩

theorem after_zero (s : Script) (r : Request) : s.after 0 r = s := by
  rw [after, List.replicate_zero, List.append_nil]
  rfl

theorem after_answer (s : Script) (r : Request) (n : ℕ) :
    (answer r s).2.after n r = s.after (n + 1) r := by
  rw [after, after, List.replicate_succ]
  show Script.mk (fun i => s.replies (i + n + 1)) (s.sent ++ [r] ++ List.replicate n r) = _
  rw [List.append_assoc]
  rfl

end Script

open Script

variable {r : Request} {k n : ℕ}

/-- One request: the exchange ends with a verdict, or it goes on with the replies that are left. -/
theorem run_send_succ (r : Request) (n : ℕ) (last : Option Setback) (s : Script) :
    (send r (n + 1) last).run answer s =
      match (s.replies 0).judge r.address with
      | .ok verdict => (.ok verdict, s.after 1 r)
      | .error setback => (send r n (some setback)).run answer (answer r s).2 := by
  rw [send, Dialogue.run_ask]
  show Dialogue.run answer (match (s.replies 0).judge r.address with
    | .ok verdict => _
    | .error setback => _) _ = _
  cases (s.replies 0).judge r.address <;> rfl

/-- The exchange ends with the first reply that has a verdict. -/
theorem run_send_of_judge (hk : k < n) (last : Option Setback) (s : Script)
    (hbefore : ∀ j < k, Inconclusive (s.replies j))
    (hverdict : (s.replies k).judge r.address = .ok verdict) :
    (send r n last).run answer s = (.ok verdict, s.after (k + 1) r) := by
  obtain ⟨n, rfl⟩ : ∃ n', n = n' + 1 := ⟨n - 1, by omega⟩
  induction k generalizing n last s with
  | zero => rw [run_send_succ, hverdict]
  | succ k ih =>
    obtain ⟨n, rfl⟩ : ∃ n', n = n' + 1 := ⟨n - 1, by omega⟩
    obtain ⟨setback, hsetback⟩ := (inconclusive_iff r.address).1 (hbefore 0 (Nat.succ_pos k))
    have hrest : ∀ j < k, Inconclusive ((answer r s).2.replies j) :=
      fun j hj => hbefore (j + 1) (Nat.succ_lt_succ hj)
    rw [run_send_succ, hsetback]
    dsimp only
    rw [ih _ _ hrest hverdict _ (by omega), after_answer]

/-- Without such a reply the request is sent as often as it may be. -/
theorem run_send_of_inconclusive (n : ℕ) (last : Option Setback) (s : Script)
    (hall : ∀ j < n, Inconclusive (s.replies j)) :
    ∃ left, (send r n last).run answer s = (.error left, s.after n r) := by
  induction n generalizing last s with
  | zero => exact ⟨last, by rw [send, Dialogue.run_done, after_zero]⟩
  | succ n ih =>
    obtain ⟨setback, hsetback⟩ := (inconclusive_iff r.address).1 (hall 0 (Nat.succ_pos n))
    obtain ⟨left, hleft⟩ := ih (some setback) (answer r s).2 fun j hj =>
      hall (j + 1) (Nat.succ_lt_succ hj)
    refine ⟨left, ?_⟩
    rw [run_send_succ, hsetback]
    dsimp only
    rw [hleft, after_answer]

/-! ## 5. The completion -/

/-- A result that is reported as a failure with this code. -/
def Reports (result : Except Fault String) (code : ErrorCode) : Prop :=
  ∃ fault failure, result = .error fault ∧ fault.failure? = some failure ∧ failure.code = code

/-- The result that a decisive reply leads to. -/
inductive Settles : Verdict → Except Fault String → Prop
  | limited {result : Except Fault String} (h : Reports result .rateLimited) :
      Settles .limited result
  | text (s : String) : Settles (.content (.str s)) (.ok s)
  | null : Settles (.content .null) (.ok "")
  | other {v : Value} {result : Except Fault String} (htext : ∀ s, v ≠ .str s) (hnull : v ≠ .null)
      (h : Reports result .parseError) : Settles (.content v) result

theorem settles_outcome (e : Endpoint) (h : Decides reply verdict) :
    Settles verdict (outcome e (.ok verdict)) := by
  cases h with
  | limited body => exact .limited ⟨_, _, rfl, rfl, rfl⟩
  | @content _ payload v hbody hv =>
    cases v with
    | str s => exact .text s
    | null => exact .null
    | _ => exact .other nofun nofun ⟨_, _, rfl, rfl, rfl⟩

theorem run_complete (e : Endpoint) (instruction message : String) (s : Script) :
    (complete e instruction message).run answer s =
      (outcome e ((send (e.request instruction message) e.attempts.toNat none).run answer s).1,
        ((send (e.request instruction message) e.attempts.toNat none).run answer s).2) :=
  Dialogue.run_bind _ _ _ _

/-- With `m` retries the request is sent up to the first decisive reply, but at most `m + 1` times.
That reply decides the result, whatever comes after it; without one the collaborator is reported to
have failed.  Only a body that is nested too deeply ends the exchange otherwise: the result is then
reported as no failure at all. -/
theorem complete_of_replies (e : Endpoint) {m : ℕ} (hm : e.retries = m)
    (instruction message : String) (s : Script) :
    (∀ k ≤ m, (∀ j < k, Inconclusive (s.replies j)) → ∀ verdict, Decides (s.replies k) verdict →
      ∃ result, Settles verdict result ∧
        ∀ s' : Script, (∀ j ≤ k, s'.replies j = s.replies j) →
          (complete e instruction message).run answer s' =
            (result, s'.after (k + 1) (e.request instruction message))) ∧
    ((∀ j ≤ m, Inconclusive (s.replies j)) →
      ∃ result, Reports result .aiError ∧
        (complete e instruction message).run answer s =
          (result, s.after (m + 1) (e.request instruction message))) ∧
    ∀ k ≤ m, (∀ j < k, Inconclusive (s.replies j)) → ∀ excess, Overdeep (s.replies k) excess →
      ∃ fault, fault.failure? = none ∧ (complete e instruction message).run answer s =
        (.error fault, s.after (k + 1) (e.request instruction message)) := by
  have hattempts : e.attempts.toNat = m + 1 := by
    rw [Endpoint.attempts, hm]
    rfl
  refine ⟨fun k hk hbefore verdict hdecides => ?_, fun hall => ?_, fun k hk hbefore excess hdeep => ?_⟩
  · refine ⟨outcome e (.ok verdict), settles_outcome e hdecides, fun s' hsame => ?_⟩
    have hbefore' : ∀ j < k, Inconclusive (s'.replies j) := fun j hj =>
      hsame j hj.le ▸ hbefore j hj
    have hjudge : (s'.replies k).judge (e.request instruction message).address = .ok verdict :=
      hsame k (Nat.le_refl k) ▸ judge_of_decides hdecides
    rw [run_complete, hattempts,
      run_send_of_judge (Nat.lt_succ_of_le hk) none s' hbefore' hjudge]
  · obtain ⟨left, hleft⟩ := run_send_of_inconclusive (r := e.request instruction message) (m + 1)
      none s fun j hj => hall j (Nat.le_of_lt_succ hj)
    refine ⟨outcome e (.error left), ⟨_, _, rfl, rfl, rfl⟩, ?_⟩
    rw [run_complete, hattempts, hleft]
  · refine ⟨.noProposal (.beyond excess), rfl, ?_⟩
    rw [run_complete, hattempts,
      run_send_of_judge (Nat.lt_succ_of_le hk) none s hbefore (judge_of_overdeep hdeep)]
    rfl

/-- A collaborator that is asked twice more. -/
def patient : Endpoint := ⟨"http://ai.test/v1", none, "small", 0.3, 4000, 2⟩

/-- A reply with a message content. -/
def contentReply : Reply :=
  .answered 200 "\x7b\"choices\": [\x7b\"message\": \x7b\"content\": \"yes\"\x7d\x7d]\x7d"

theorem decides_contentReply : Decides contentReply (.content (.str "yes")) := by
  have hread : Json.read (Json.withoutMark
      "\x7b\"choices\": [\x7b\"message\": \x7b\"content\": \"yes\"\x7d\x7d]\x7d") =
      .ok (.obj [("choices", .arr [.obj [("message", .obj [("content", .str "yes")])]])]) := by
    with_unfolding_all rfl
  exact .content ⟨200, _, rfl, by decide, by decide, hread⟩ ⟨_, _, _, rfl, rfl, rfl⟩

/-- A lost request, an object without choices, and then a content. -/
def lateScript : Script where
  replies
    | 0 => .lost "connection refused"
    | 1 => .answered 200 "\x7b\x7d"
    | _ => contentReply
  sent := []

/-- The third request is the last one that is sent. -/
theorem complete_of_replies_late :
    patient.retries = (2 : ℕ) ∧ (∀ j < 2, Inconclusive (lateScript.replies j)) ∧
      Decides (lateScript.replies 2) (.content (.str "yes")) ∧
      (complete patient "Answer." "Is it?").run answer lateScript =
        (.ok "yes", lateScript.after 3 (patient.request "Answer." "Is it?")) := by
  have hbefore : ∀ j < 2, Inconclusive (lateScript.replies j) := by
    intro j hj
    obtain rfl | rfl : j = 0 ∨ j = 1 := by omega
    · exact (inconclusive_iff "").2 ⟨_, rfl⟩
    · have hread : Json.read (Json.withoutMark "\x7b\x7d") = .ok (.obj []) := by
        with_unfolding_all rfl
      refine (inconclusive_iff "").2 ⟨.noContent (.missingKey "choices"), ?_⟩
      show Reply.judge "" (.answered 200 "\x7b\x7d") = _
      rw [Reply.judge, if_pos (by decide)]
      dsimp only
      rw [hread]
      rfl
  obtain ⟨result, hsettles, hrun⟩ :=
    (complete_of_replies patient (m := 2) rfl "Answer." "Is it?" lateScript).1 2 (Nat.le_refl 2)
      hbefore _ decides_contentReply
  have hresult : result = .ok "yes" := by
    cases hsettles with
    | text => rfl
    | other htext => exact absurd rfl (htext "yes")
  exact ⟨rfl, hbefore, decides_contentReply, hresult ▸ hrun lateScript fun j hj => rfl⟩

/-- A body of brackets only, and then a content. -/
def nestedScript : Script where
  replies
    | 0 => bracketsReply (Excess.textDepth + 1)
    | _ => contentReply
  sent := []

/-- Such a body has no content, and yet the request is not sent again. -/
theorem complete_of_nested :
    ¬ Decisive (nestedScript.replies 0) ∧
      Decides (nestedScript.replies 1) (.content (.str "yes")) ∧
      (complete patient "Answer." "Is it?").run answer nestedScript ≠
        (.ok "yes", nestedScript.after 2 (patient.request "Answer." "Is it?")) ∧
      ((complete patient "Answer." "Is it?").run answer nestedScript).2.sent =
        [patient.request "Answer." "Is it?"] := by
  have hdeep : Overdeep (nestedScript.replies 0) .deepArray :=
    overdeep_bracketsReply (Nat.lt_succ_self _)
  have hrun : (complete patient "Answer." "Is it?").run answer nestedScript =
      (.error (.noProposal (.beyond .deepArray)),
        nestedScript.after 1 (patient.request "Answer." "Is it?")) := by
    rw [run_complete, run_send_of_judge (k := 0) (by decide) none nestedScript
      (fun j hj => absurd hj (Nat.not_lt_zero j)) (judge_of_overdeep hdeep)]
    rfl
  refine ⟨fun ⟨verdict, hdecides⟩ => ?_, decides_contentReply, ?_, ?_⟩
  · have hbeyond : verdict = .beyond .deepArray := Except.ok.inj <|
      (@judge_of_decides _ _ "" hdecides).symm.trans (judge_of_overdeep hdeep)
    subst hbeyond
    cases hdecides
  · rw [hrun]
    exact fun heq => nomatch (Prod.mk.inj heq).1
  · rw [hrun]
    rfl

end Completion

end Dashboards
