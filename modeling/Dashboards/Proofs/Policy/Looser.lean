import Dashboards.Proofs.Patch.Steps
import Dashboards.Proofs.Policy.Documents

/-!
# Looser policies

A policy that allows more paths, blocks and protects less, has higher ceilings and lets tabs come and
go more freely lets through every patch that the stricter one lets through.  Each check is carried over
on its own: what it finds under the looser policy it also finds under the stricter one.
-/

namespace Dashboards

namespace Policy

/-! ## 1. The order of policies -/

/-- The second policy permits all that the first one does.  The lists count as sets. -/
structure Loosens (strict loose : Policy) : Prop where
  ceilings : ∀ c, strict.limit c ≤ loose.limit c
  allowed : strict.allowedPaths ⊆ loose.allowedPaths
  blocked : loose.blockedPaths ⊆ strict.blockedPaths
  protected_ : loose.protectedTabs ⊆ strict.protectedTabs
  creating : strict.allowCreateNewTabs = true → loose.allowCreateNewTabs = true
  removing : strict.allowRemoveTabs = true → loose.allowRemoveTabs = true

theorem parsedPaths_subset {paths more : List String} (h : paths ⊆ more) :
    parsedPaths paths ⊆ parsedPaths more := List.filterMap_subset _ h

namespace Loosens

variable {strict loose : Policy} {path : String} {doc value : Value} {holder : Collection}
  {keys : List String} {inserting : Bool} {op : Operation}

/-- What the looser policy protects, the stricter one protects too. -/
theorem protectedAmong_subset (h : strict.Loosens loose) (tabs : List Value) :
    loose.protectedAmong tabs ⊆ strict.protectedAmong tabs := by
  intro name hname
  obtain ⟨hmem, hprotected⟩ := mem_protectedAmong.1 hname
  exact mem_protectedAmong.2 ⟨hmem, h.protected_ hprotected⟩

theorem contains_of_contains (h : strict.Loosens loose) {name : String}
    (hname : loose.protectedTabs.contains name = true) :
    strict.protectedTabs.contains name = true :=
  List.contains_iff_mem.2 (h.protected_ (List.contains_iff_mem.1 hname))

/-- Where the looser policy makes no tabs, the stricter one makes none. -/
theorem not_creating (h : strict.Loosens loose) (hnever : (!loose.allowCreateNewTabs) = true) :
    (!strict.allowCreateNewTabs) = true := by
  rw [Bool.not_eq_true', Bool.eq_false_iff] at hnever ⊢
  exact mt h.creating hnever

/-- Where the looser policy lets no tabs go, the stricter one lets none go. -/
theorem not_removing (h : strict.Loosens loose) (hnever : (!loose.allowRemoveTabs) = true) :
    (!strict.allowRemoveTabs) = true := by
  rw [Bool.not_eq_true', Bool.eq_false_iff] at hnever ⊢
  exact mt h.removing hnever

/-! ## 2. Paths and guardrails -/

theorem classify (h : strict.Loosens loose) (hnone : strict.classify path = none) :
    loose.classify path = none := by
  unfold Policy.classify at hnone ⊢
  cases hparse : Pointer.parse path with
  | error fault => rw [hparse] at hnone; cases hnone
  | ok p =>
    rw [hparse] at hnone
    dsimp only at hnone ⊢
    cases hstrict : strict.blocked.find? p.startsWith with
    | some b => rw [hstrict] at hnone; cases hnone
    | none =>
      -- Every prefix that the looser policy blocks was passed over by the stricter one.
      have hloose : loose.blocked.find? p.startsWith = none :=
        List.find?_eq_none.2 fun b hb =>
          List.find?_eq_none.1 hstrict b (parsedPaths_subset h.blocked hb)
      rw [hstrict] at hnone
      rw [hloose]
      dsimp only at hnone ⊢
      split at hnone
      · rename_i hinside
        refine if_pos ?_
        rcases Bool.or_eq_true_iff.1 hinside with hroot | hallowed
        · rw [hroot, Bool.true_or]
        · obtain ⟨a, ha, hpa⟩ := List.any_eq_true.1 hallowed
          have hany : loose.allowed.any p.startsWith = true :=
            List.any_eq_true.2 ⟨a, parsedPaths_subset h.allowed ha, hpa⟩
          rw [hany, Bool.or_true]
      · cases hnone

theorem addGuardrail (h : strict.Loosens loose) (hnone : strict.addGuardrail path doc value = none) :
    loose.addGuardrail path doc value = none := by
  unfold Policy.addGuardrail at hnone ⊢
  cases hkeys : keys? path with
  | none => rfl
  | some keys =>
    rw [hkeys] at hnone
    dsimp only [bind, Option.bind] at hnone ⊢
    cases hplace : (if keys.isEmpty = true then none else Collection.ofKeys? keys.dropLast) with
    | some c =>
      have hceiling := h.ceilings c
      rw [hplace] at hnone
      dsimp only at hnone ⊢
      -- The collection is not full, and tabs may be made if it is one of tabs.
      split at hnone
      · cases hnone
      · rename_i hcreating
        split at hnone
        · cases hnone
        · rename_i hroom
          rw [if_neg, if_neg (by omega)]
          intro hforbidden
          obtain ⟨htabs, hnever⟩ := Bool.and_eq_true_iff.1 hforbidden
          exact hcreating (Bool.and_eq_true_iff.2 ⟨htabs, h.not_creating hnever⟩)
    | none =>
      rw [hplace] at hnone
      dsimp only at hnone ⊢
      cases hwhole : Collection.ofKeys? keys with
      | none => rfl
      | some c =>
        have hceiling := h.ceilings c
        rw [hwhole] at hnone
        cases value with
        | arr xs =>
          dsimp only at hnone ⊢
          split at hnone
          · cases hnone
          · exact if_neg (by omega)
        | _ => rfl

theorem removalObjection (h : strict.Loosens loose)
    (hnone : strict.removalObjection path keys doc holder = none) :
    loose.removalObjection path keys doc holder = none := by
  unfold Policy.removalObjection at hnone ⊢
  by_cases hparent : keys.dropLast = holder.keys
  · rw [if_pos hparent] at hnone ⊢
    cases hlong : doc.overlongAt? keys with
    | some digits => rw [hlong] at hnone; cases hnone
    | none =>
      rw [hlong] at hnone
      cases hat : doc.at? keys with
      | none => rfl
      | some tab =>
        rw [hat] at hnone
        dsimp only at hnone ⊢
        split at hnone
        · cases hnone
        · rename_i hmay
          rw [if_neg fun hnever => hmay (h.not_removing hnever)]
          cases hname : tabName? tab with
          | none => rfl
          | some name =>
            rw [hname] at hnone
            dsimp only at hnone ⊢
            split at hnone
            · cases hnone
            · rename_i hfree
              exact if_neg fun hkept => hfree (h.contains_of_contains hkept)
  · rw [if_neg hparent] at hnone ⊢
    by_cases habove : keys.isPrefixOf holder.keys = true
    · rw [if_pos habove] at hnone ⊢
      dsimp only at hnone ⊢
      cases hstrict : strict.protectedAmong (holder.itemsIn doc) with
      | cons name names => rw [hstrict] at hnone; cases hnone
      | nil =>
        have hloose : loose.protectedAmong (holder.itemsIn doc) = [] :=
          List.subset_nil.1 (hstrict ▸ h.protectedAmong_subset _)
        rw [hstrict] at hnone
        rw [hloose]
        dsimp only at hnone ⊢
        split at hnone
        · cases hnone
        · rename_i hmay
          refine if_neg fun hlost => hmay ?_
          obtain ⟨htabs, hnever⟩ := Bool.and_eq_true_iff.1 hlost
          exact Bool.and_eq_true_iff.2 ⟨htabs, h.not_removing hnever⟩
    · exact if_neg habove

theorem removeGuardrail (h : strict.Loosens loose) (hnone : strict.removeGuardrail path doc = none) :
    loose.removeGuardrail path doc = none := by
  unfold Policy.removeGuardrail at hnone ⊢
  cases hkeys : keys? path with
  | none => rfl
  | some keys =>
    rw [hkeys] at hnone
    dsimp only [bind, Option.bind] at hnone ⊢
    rw [List.findSome?_eq_none_iff] at hnone ⊢
    exact fun holder hholder => h.removalObjection (hnone holder hholder)

/-- What a write drops of the looser policy's names, it drops of the stricter one's. -/
theorem droppedNames_subset (h : strict.Loosens loose) :
    loose.droppedNames keys doc value inserting holder ⊆
      strict.droppedNames keys doc value inserting holder := by
  have hnames := h.protectedAmong_subset (holder.itemsIn doc)
  unfold droppedNames
  dsimp only
  by_cases hloose : (loose.protectedAmong (holder.itemsIn doc)).isEmpty = true
  · rw [if_pos hloose]
    exact List.nil_subset _
  · have hstrict : ¬ (strict.protectedAmong (holder.itemsIn doc)).isEmpty = true := by
      intro hempty
      rw [List.isEmpty_iff] at hempty hloose
      exact hloose (List.subset_nil.1 (hempty ▸ hnames))
    rw [if_neg hloose, if_neg hstrict]
    by_cases habove : keys.isPrefixOf holder.keys = true
    · rw [if_pos habove, if_pos habove]
      exact List.filter_subset _ hnames
    · rw [if_neg habove, if_neg habove]
      by_cases hbelow : holder.keys.isPrefixOf keys = true
      · rw [if_pos hbelow, if_pos hbelow]
        cases (doc.at? (keys.take (holder.keys.length + 1))).bind tabName? with
        | none => exact List.nil_subset _
        | some old =>
          dsimp only
          by_cases hkept : loose.protectedTabs.contains old = true
          · rw [hkept, h.contains_of_contains hkept]
            exact List.Subset.refl _
          · rw [if_pos (by simpa using hkept)]
            exact List.nil_subset _
      · rw [if_neg hbelow, if_neg hbelow]
        exact List.nil_subset _

theorem overwriteObjection (h : strict.Loosens loose)
    (hnone : strict.overwriteObjection keys doc value inserting holder = none) :
    loose.overwriteObjection keys doc value inserting holder = none := by
  unfold Policy.overwriteObjection at hnone ⊢
  dsimp only at hnone ⊢
  split at hnone
  · cases hnone
  · rename_i hread
    have hdropped : strict.droppedNames keys doc value inserting holder = [] := by
      simpa using hnone
    have hspared : loose.droppedNames keys doc value inserting holder = [] :=
      List.subset_nil.1 (hdropped ▸ h.droppedNames_subset)
    -- Where the looser policy has tabs to lose, so has the stricter one, and both read the same tab.
    split
    · rename_i digits hlong
      split at hlong
      · rename_i hlooks
        obtain ⟨hbelow, hsome⟩ := Bool.and_eq_true_iff.1 hlooks
        have hlost : (!(strict.protectedAmong (holder.itemsIn doc)).isEmpty) = true := by
          cases hstrict : strict.protectedAmong (holder.itemsIn doc) with
          | cons name names => rfl
          | nil =>
            have hnames := h.protectedAmong_subset (holder.itemsIn doc)
            rw [hstrict, List.subset_nil] at hnames
            rw [hnames] at hsome
            cases hsome
        rw [if_pos (Bool.and_eq_true_iff.2 ⟨hbelow, hlost⟩), hlong] at hread
        cases hread
      · cases hlong
    · rw [hspared]
      rfl

theorem overwriteGuardrail (h : strict.Loosens loose)
    (hnone : strict.overwriteGuardrail path doc value inserting = none) :
    loose.overwriteGuardrail path doc value inserting = none := by
  unfold Policy.overwriteGuardrail at hnone ⊢
  cases hkeys : keys? path with
  | none => rfl
  | some keys =>
    rw [hkeys] at hnone
    dsimp only [bind, Option.bind] at hnone ⊢
    rw [List.findSome?_eq_none_iff] at hnone ⊢
    exact fun holder hholder => h.overwriteObjection (hnone holder hholder)

/-! ## 3. Operations and documents -/

theorem pathObjections (h : strict.Loosens loose) (hnil : strict.pathObjections op = []) :
    loose.pathObjections op = [] := by
  obtain ⟨hnames, hsource⟩ := names_of_pathObjections hnil
  have hloose : ∀ text ∈ op.names, loose.classify text = none :=
    fun text htext => h.classify (hnames text htext)
  unfold Policy.pathObjections
  unfold Operation.names at hloose
  cases hverb : op.verb <;> cases hgiven : op.source <;> simp_all

theorem guardrailObjections (h : strict.Loosens loose)
    (hnil : strict.guardrailObjections op doc = []) : loose.guardrailObjections op doc = [] := by
  have adding : ∀ path value, ((strict.addGuardrail path doc value).map (·, path)).toList = [] →
      ((loose.addGuardrail path doc value).map (·, path)).toList = [] := by
    intro path value hlisted
    rw [h.addGuardrail (Patch.eq_none_of_toList hlisted)]
    rfl
  have overwriting : ∀ path value inserting,
      ((strict.overwriteGuardrail path doc value inserting).map (·, path)).toList = [] →
      ((loose.overwriteGuardrail path doc value inserting).map (·, path)).toList = [] := by
    intro path value inserting hlisted
    rw [h.overwriteGuardrail (Patch.eq_none_of_toList hlisted)]
    rfl
  have removing : ∀ path, ((strict.removeGuardrail path doc).map (·, path)).toList = [] →
      ((loose.removeGuardrail path doc).map (·, path)).toList = [] := by
    intro path hlisted
    rw [h.removeGuardrail (Patch.eq_none_of_toList hlisted)]
    rfl
  obtain ⟨verb, path, value, source⟩ := op
  unfold Policy.guardrailObjections at hnil ⊢
  cases verb with
  | add =>
    obtain ⟨hadd, hwrite⟩ := List.append_eq_nil_iff.1 hnil
    exact List.append_eq_nil_iff.2 ⟨adding _ _ hadd, overwriting _ _ _ hwrite⟩
  | replace =>
    obtain ⟨hadd, hwrite⟩ := List.append_eq_nil_iff.1 hnil
    refine List.append_eq_nil_iff.2 ⟨?_, overwriting _ _ _ hwrite⟩
    split at hadd
    · rw [if_pos ‹_›]
      exact adding _ _ hadd
    · exact if_neg ‹_›
  | remove => exact removing _ hnil
  | move =>
    dsimp only at hnil ⊢
    split at hnil
    · exact if_pos ‹_›
    · obtain ⟨hleft, hadd⟩ := List.append_eq_nil_iff.1 hnil
      obtain ⟨hremove, hunread⟩ := List.append_eq_nil_iff.1 hleft
      rw [if_neg ‹_›, removing _ hremove, hunread, adding _ _ hadd]
      rfl
  | copy =>
    obtain ⟨hunread, hadd⟩ := List.append_eq_nil_iff.1 hnil
    exact List.append_eq_nil_iff.2 ⟨hunread, adding _ _ hadd⟩
  | test => rfl

theorem checkOperation (h : strict.Loosens loose) {position : Option Nat}
    (hnil : strict.checkOperation op doc position = []) :
    loose.checkOperation op doc position = [] := by
  have hpaths := pathObjections_of_checkOperation hnil
  unfold Policy.checkOperation at hnil ⊢
  rw [List.map_eq_nil_iff] at hnil ⊢
  rw [hpaths] at hnil
  rw [h.pathObjections hpaths]
  exact h.guardrailObjections hnil

theorem checkDocuments (h : strict.Loosens loose) {before after : Value}
    (hnil : strict.checkDocuments before after = []) : loose.checkDocuments before after = [] := by
  obtain ⟨hsections, hlengths, htabs⟩ := checkDocuments_eq_nil_iff.1 hnil
  refine checkDocuments_eq_nil_iff.2 ⟨fun p hp => ?_, fun c hover => ?_, fun name hname hkept => ?_⟩
  · exact hsections p (parsedPaths_subset h.blocked hp)
  · exact hlengths c (Int.lt_of_le_of_lt (h.ceilings c) hover)
  · exact htabs name hname (h.protected_ hkept)

end Loosens

end Policy

/-! ## 4. Patches -/

namespace Patch

variable {strict loose : Policy} {d e : Value} {ops : List Operation}

/-- A chain under a policy is a chain under every looser one. -/
theorem Chain.loosened (h : strict.Loosens loose) (hchain : Chain strict d ops e) :
    Chain loose d ops e := by
  induction hchain with
  | nil d => exact .nil d
  | cons checked applied _ ih => exact .cons (h.checkOperation checked) applied ih

/-- A patch that a policy accepts, every looser policy accepts with the same document. -/
theorem applied_of_loosens (h : strict.Loosens loose)
    (happlied : (apply (some strict) d ops).applied = true) :
    (apply (some loose) d ops).applied = true ∧
      (apply (some loose) d ops).document = (apply (some strict) d ops).document := by
  obtain ⟨hchain, hdocuments⟩ := applyUnder_iff.1 ⟨happlied, rfl⟩
  exact applyUnder_iff.2 ⟨hchain.loosened h, h.checkDocuments hdocuments⟩

/-- A policy with one more section, fewer blocked ones, higher ceilings and no protected tab. -/
def relaxed : Policy :=
  { Policy.default with
    allowedPaths := "/notes" :: defaultAllowedPaths
    blockedPaths := ["/tenant_id", "/credentials"]
    maxKpis := 12
    maxTabs := 9
    protectedTabs := [] }

theorem loosens_relaxed : Policy.default.Loosens relaxed where
  ceilings c := by cases c <;> decide
  allowed := List.subset_cons_self _ _
  blocked := by decide
  protected_ := List.nil_subset _
  creating := id
  removing := id

/-- A dashboard with a protected tab. -/
def tabbedDashboard : Value :=
  .obj [("title", .str "Sales"), ("tenant_id", .ofInt 7), ("kpis", .arr []),
    ("tabs", .ofStrings ["Details", "More"])]

/-- A new KPI, the tabs in another order, and the title copied into the metadata. -/
def growing : List Operation :=
  [⟨.add, "/kpis/-", .obj [("key", .str "cpl")], none⟩, ⟨.move, "/tabs/0", .null, some "/tabs/1"⟩,
    ⟨.copy, "/metadata/title", .null, some "/title"⟩]

/-- The default policy accepts the patch, and so does the relaxed one. -/
theorem applied_of_loosens_growing :
    Policy.default.Loosens relaxed ∧
      (apply (some .default) tabbedDashboard growing).applied = true ∧
      (apply (some relaxed) tabbedDashboard growing).applied = true ∧
      (apply (some relaxed) tabbedDashboard growing).document =
        .obj [("title", .str "Sales"), ("tenant_id", .ofInt 7),
          ("kpis", .arr [.obj [("key", .str "cpl")]]), ("tabs", .ofStrings ["More", "Details"]),
          ("metadata", .obj [("title", .str "Sales")])] := by
  have happlied : (apply (some .default) tabbedDashboard growing).applied = true := rfl
  obtain ⟨hrelaxed, hsame⟩ := applied_of_loosens loosens_relaxed happlied
  exact ⟨loosens_relaxed, happlied, hrelaxed, hsame.trans rfl⟩

end Patch

end Dashboards
