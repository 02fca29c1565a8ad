import Dashboards.Proofs.Patch.Steps
import Dashboards.Proofs.Policy.Guards

/-!
# Tabs under accepted patches

A document may hold tabs at two places, and reads them from one.  The guardrails of tabs look at the
operations that add, replace, remove or move away tabs, but not at all of them: names that are taken
from a tab by a removal, values that are moved or copied onto a collection, and collections that are
moved within the container they lie in pass by.  Apart from these, protected tabs stay in the
collection that holds them, all tabs stay where removing them is disabled, and none are made where
that is disabled.
-/

namespace Dashboards

/-- The collection that the tabs of a document are read from. -/
def shownTabs (doc : Value) : Collection :=
  match doc.at? Collection.uiTabs.keys with
  | some (.arr _) => .uiTabs
  | _ => .tabs

theorem tabNames_eq_namesIn (doc : Value) : tabNames doc = (shownTabs doc).namesIn doc := by
  unfold tabNames shownTabs Collection.namesIn Collection.itemsIn
  rcases hui : doc.at? Collection.uiTabs.keys with _ | (_ | _ | _ | _ | xs | ms)
  case some.arr =>
    dsimp only
    rw [hui]
  all_goals
    dsimp only
    rcases doc.at? Collection.tabs.keys with _ | (_ | _ | _ | _ | xs | ms) <;> rfl

theorem shownTabs_mem_tabHolders (doc : Value) : shownTabs doc ∈ Collection.tabHolders := by
  unfold shownTabs
  split
  · exact List.mem_cons_of_mem _ List.mem_cons_self
  · exact List.mem_cons_self

/-! ## 1. Operations that are looked at -/

/-- Whatever is written at the path, no item of the collection loses its name. -/
def Collection.SparedAt (c : Collection) (t : List String) : Prop :=
  ¬ t <+: c.keys ∧ ¬ c.NameOfItem t ∧ ¬ c.InsideName t

instance (c : Collection) (t : List String) : Decidable (c.SparedAt t) :=
  inferInstanceAs (Decidable (_ ∧ _ ∧ _))

namespace Operation

/-- The operation does nothing to the tabs of a collection that the guardrails do not look at.  They
do not look inside of a name when something is written, nor at the name or label of a tab when
something is removed; of what a move or a copy is written over they see nothing, and of a move
within one container nothing at all. -/
def Overseen (c : Collection) (op : Operation) : Prop :=
  ∀ t ∈ Policy.keys? op.path,
    match op.verb with
    | .add | .replace => ¬ c.InsideName t
    | .remove => ¬ c.NameOfItem t
    | .copy => c.SparedAt t
    | .move => ∀ s ∈ op.source.bind Policy.keys?, s ≠ t →
        c.SparedAt t ∧ ¬ c.NameOfItem s ∧ (s.dropLast = t.dropLast → ¬ s <+: c.keys)
    | .test => True

instance (c : Collection) : DecidablePred (Overseen c) := fun ⟨verb, path, _, source⟩ =>
  match verb with
  | .add | .replace => inferInstanceAs (Decidable (∀ t ∈ Policy.keys? path, ¬ c.InsideName t))
  | .remove => inferInstanceAs (Decidable (∀ t ∈ Policy.keys? path, ¬ c.NameOfItem t))
  | .copy => inferInstanceAs (Decidable (∀ t ∈ Policy.keys? path, c.SparedAt t))
  | .move => inferInstanceAs (Decidable (∀ t ∈ Policy.keys? path,
      ∀ s ∈ source.bind Policy.keys?, s ≠ t →
        c.SparedAt t ∧ ¬ c.NameOfItem s ∧ (s.dropLast = t.dropLast → ¬ s <+: c.keys)))
  | .test => inferInstanceAs (Decidable (∀ t ∈ Policy.keys? path, True))

/-- An add or a replace leaves the collection a tab of the name `n`: it does not replace a tab nor
write its name or label, and where it writes the whole collection, it writes such a tab. -/
def Restates (c : Collection) (n : String) (op : Operation) : Prop :=
  op.verb = .add ∨ op.verb = .replace → ∀ t ∈ Policy.keys? op.path,
    (t <+: c.keys → n ∈ (c.itemsFrom t op.value).filterMap tabName?) ∧ ¬ c.NameOfItem t ∧
      (op.verb = .replace → t.dropLast ≠ c.keys)

instance (c : Collection) (n : String) : DecidablePred (Restates c n) := fun op =>
  inferInstanceAs (Decidable (op.verb = .add ∨ op.verb = .replace → ∀ t ∈ Policy.keys? op.path, _))

/-- Where the operation writes the whole collection, it is an add or a replace with at most `n` items
for it. -/
def Fits (c : Collection) (n : Nat) (op : Operation) : Prop :=
  ∀ t ∈ Policy.keys? op.path, t <+: c.keys →
    (op.verb = .add ∨ op.verb = .replace → (c.itemsFrom t op.value).length ≤ n) ∧
      (op.verb = .move → op.source.bind Policy.keys? = some t) ∧ op.verb ≠ .copy

instance (c : Collection) (n : Nat) : DecidablePred (Fits c n) := fun op =>
  inferInstanceAs (Decidable (∀ t ∈ Policy.keys? op.path, t <+: c.keys → _))

end Operation

namespace Patch

variable {policy : Policy} {d e v : Value} {c : Collection} {op : Operation} {n : String}
  {s t : List String}

theorem sparesName_of_sparedAt (h : c.SparedAt t) : c.SparesName n d t v true := by
  obtain ⟨habove, hname, hinside⟩ := h
  refine ⟨fun h => absurd h habove, fun h => (by cases h), fun k m ht hm => ?_, hinside⟩
  rcases hm with rfl | rfl
  · exact absurd ⟨k, .inl ht⟩ hname
  · exact absurd ⟨k, .inr ht⟩ hname

theorem sparesName_of_restates {inserting : Bool}
    (habove : t <+: c.keys → n ∈ (c.itemsFrom t v).filterMap tabName?) (hname : ¬ c.NameOfItem t)
    (hitem : inserting = false → t.dropLast ≠ c.keys) (hinside : ¬ c.InsideName t) :
    c.SparesName n d t v inserting := by
  refine ⟨habove, fun h k ht => ?_, fun k m ht hm => ?_, hinside⟩
  · exact absurd (by rw [ht, List.dropLast_concat]) (hitem h)
  rcases hm with rfl | rfl
  · exact absurd ⟨k, .inl ht⟩ hname
  · exact absurd ⟨k, .inr ht⟩ hname

theorem exists_item_of_dropLast (h : s.dropLast = c.keys) : ∃ k, s = c.keys ++ [k] := by
  have hs : s ≠ [] := by
    rintro rfl
    exact c.keys_ne_nil h.symm
  refine ⟨s.getLast hs, ?_⟩
  rw [← h, List.dropLast_concat_getLast hs]

/-! ## 2. One step -/

/-- A step keeps a name in a collection of tabs, if it is overseen there and the name is protected, or
removing tabs is disabled and the name is written again by what is not a removal. -/
theorem mem_namesIn_of_step (hstep : Step policy d op e) (hc : c ∈ Collection.tabHolders)
    (hover : op.Overseen c)
    (hkept : n ∈ policy.protectedTabs ∨ policy.allowRemoveTabs = false ∧ op.Restates c n)
    (hn : n ∈ c.namesIn d) : n ∈ c.namesIn e := by
  cases hstep with
  | @add path v source t e target room kept done =>
    refine Collection.mem_namesIn_add (q := ⟨t⟩) ?_ done hn
    have hinside := hover t target
    rcases hkept with hprotected | ⟨-, hrestates⟩
    · exact Policy.sparesName_of_overwriteGuardrail kept target hc hn hprotected hinside
    · obtain ⟨habove, hname, -⟩ := hrestates (.inl rfl) t target
      exact sparesName_of_restates habove hname (fun h => by cases h) hinside
  | @replace path v source t e target kept done =>
    refine Collection.mem_namesIn_replace (q := ⟨t⟩) ?_ done hn
    have hinside := hover t target
    rcases hkept with hprotected | ⟨-, hrestates⟩
    · exact Policy.sparesName_of_overwriteGuardrail kept target hc hn hprotected hinside
    · obtain ⟨habove, hname, hitem⟩ := hrestates (.inr rfl) t target
      exact sparesName_of_restates habove hname (fun _ => hitem rfl) hinside
  | @remove path v source t target kept below =>
    have hkept := hkept.imp_right And.left
    have habove := Policy.not_above_of_removeGuardrail kept target hc hn hkept
    have hitem := Policy.not_named_of_removeGuardrail kept target hc hkept
    exact Collection.mem_namesIn_eraseAt below habove hitem (hover t target) hn
  | stay => exact hn
  | @move path source v x s t e origin target found apart away done =>
    have hne : s ≠ t := by
      rintro rfl
      exact apart List.prefix_rfl
    have hs := ne_nil_of_not_prefix apart
    obtain ⟨hspared, hname, haside⟩ := hover t target s origin hne
    by_cases hparent : s.dropLast = t.dropLast
    · by_cases hsame : s.dropLast = c.keys
      · -- The tab is moved to another place among the tabs.
        obtain ⟨a, rfl⟩ := exists_item_of_dropLast hsame
        obtain ⟨b, rfl⟩ := exists_item_of_dropLast (hparent.symm.trans hsame)
        have hperm := Collection.perm_itemsIn_of_move found done
        exact (hperm.filterMap tabName?).mem_iff.2 hn
      · -- No guardrail was asked, but what is moved is neither a tab nor above the tabs.
        have hitem : ∀ k, s = c.keys ++ [k] → (d.at? s).bind tabName? ≠ some n := by
          rintro k rfl
          exact absurd List.dropLast_concat hsame
        have hleft := Collection.mem_namesIn_eraseAt hs (haside hparent) hitem hname hn
        exact Collection.mem_namesIn_add (q := ⟨t⟩) (sparesName_of_sparedAt hspared) done hleft
    · obtain ⟨kept, -⟩ := away hparent
      have hkept := hkept.imp_right And.left
      have habove := Policy.not_above_of_removeGuardrail kept origin hc hn hkept
      have hitem := Policy.not_named_of_removeGuardrail kept origin hc hkept
      have hleft := Collection.mem_namesIn_eraseAt hs habove hitem hname hn
      exact Collection.mem_namesIn_add (q := ⟨t⟩) (sparesName_of_sparedAt hspared) done hleft
  | @copy path source v x s t e origin target found room done =>
    exact Collection.mem_namesIn_add (q := ⟨t⟩) (sparesName_of_sparedAt (hover t target)) done hn
  | test => exact hn

/-- Where no tabs may be made, a step leaves a collection of at most `n` tabs within `n`. -/
theorem lengthIn_of_step {n : Nat} (hstep : Step policy d op e) (hc : c ∈ Collection.tabHolders)
    (hcreate : policy.allowCreateNewTabs = false) (hfits : op.Fits c n) (hd : c.lengthIn d ≤ n) :
    c.lengthIn e ≤ n := by
  cases hstep with
  | @add path v source t e target room kept done =>
    have hnew := Policy.not_item_of_addGuardrail room target hcreate hc
    obtain ⟨habove, hitems⟩ | hle := Collection.lengthIn_add (q := ⟨t⟩) hnew done
    · rw [Collection.lengthIn, hitems]
      exact (hfits t target habove).1 (.inl rfl)
    · exact Nat.le_trans hle hd
  | @replace path v source t e target kept done =>
    obtain ⟨habove, hitems⟩ | hle := Collection.lengthIn_replace (c := c) (q := ⟨t⟩) done
    · rw [Collection.lengthIn, hitems]
      exact (hfits t target habove).1 (.inr rfl)
    · exact Nat.le_trans hle hd
  | remove target kept below => exact Nat.le_trans (Collection.lengthIn_eraseAt below) hd
  | stay => exact hd
  | @move path source v x s t e origin target found apart away done =>
    have hs := ne_nil_of_not_prefix apart
    have hleft := Collection.lengthIn_eraseAt (c := c) (d := d) hs
    by_cases hwithin : s.dropLast = t.dropLast ∧ s.dropLast = c.keys
    · -- The tab is moved to another place among the tabs.
      obtain ⟨hparent, hsame⟩ := hwithin
      obtain ⟨a, rfl⟩ := exists_item_of_dropLast hsame
      obtain ⟨b, rfl⟩ := exists_item_of_dropLast (hparent.symm.trans hsame)
      have hperm := Collection.perm_itemsIn_of_move found done
      exact Nat.le_trans (Nat.le_of_eq hperm.length_eq) hd
    · have hnew : ∀ k, t ≠ c.keys ++ [k] := by
        by_cases hparent : s.dropLast = t.dropLast
        · rintro k rfl
          rw [List.dropLast_concat] at hparent
          exact hwithin ⟨hparent.trans List.dropLast_concat.symm, hparent⟩
        · exact Policy.not_item_of_addGuardrail (away hparent).2 target hcreate hc
      obtain ⟨habove, -⟩ | hle := Collection.lengthIn_add (q := ⟨t⟩) hnew done
      · -- A collection that is moved to its own place stays, so this is another one.
        have hsource := (hfits t target habove).2.1 rfl
        obtain rfl : s = t := Option.some.inj (origin.symm.trans hsource)
        exact absurd List.prefix_rfl apart
      · exact Nat.le_trans hle (Nat.le_trans hleft hd)
  | @copy path source v x s t e origin target found room done =>
    have hnew := Policy.not_item_of_addGuardrail room target hcreate hc
    obtain ⟨habove, -⟩ | hle := Collection.lengthIn_add (q := ⟨t⟩) hnew done
    · exact absurd rfl (hfits t target habove).2.2
    · exact Nat.le_trans hle hd
  | test => exact hd

/-! ## 3. Protected tabs -/

/-- Protected tabs stay in the collection that holds them, if the tabs are read from this collection
before and after, or if no operation does to it what the guardrails do not look at. -/
theorem protected_mem_namesIn_of_applied {policy : Policy} {d : Value} {ops : List Operation}
    {c : Collection} (hc : c ∈ Collection.tabHolders)
    (happlied : (apply (some policy) d ops).applied = true)
    (hseen : shownTabs d = c ∧ shownTabs (apply (some policy) d ops).document = c ∨
      ∀ op ∈ ops, op.Overseen c) :
    ∀ name ∈ c.namesIn d, name ∈ policy.protectedTabs →
      name ∈ c.namesIn (apply (some policy) d ops).document := by
  intro name hname hprotected
  obtain ⟨hchain, hdocuments⟩ := applyUnder_iff.1 ⟨happlied, rfl⟩
  rcases hseen with ⟨hbefore, hafter⟩ | hover
  · obtain ⟨-, -, htabs⟩ := Policy.checkDocuments_eq_nil_iff.1 hdocuments
    rw [tabNames_eq_namesIn, hbefore] at htabs
    have hkept := htabs name hname hprotected
    rw [tabNames_eq_namesIn] at hkept
    exact hafter ▸ hkept
  · refine hchain.keeps (fun e => name ∈ c.namesIn e) (fun op hop a b hstep hmem => ?_) hname
    exact mem_namesIn_of_step hstep hc (hover op hop) (.inl hprotected) hmem

/-- A document with a protected tab that is not shown, since the tabs are read from the other
collection.  The tab has its name under `key`. -/
def hiddenTab (key : String) : Value :=
  .obj [("tabs", .arr [.obj [(key, .str "Details")]]),
    ("ui", .obj [("tabs", .ofStrings ["Overview"])]), ("filters", .arr [])]

/-- Tabs come and go around the first one. -/
def rearranging : List Operation :=
  [⟨.add, "/tabs/0", .str "Sales", none⟩, ⟨.replace, "/tabs/0", .str "Returns", none⟩,
    ⟨.move, "/tabs/0", .null, some "/tabs/1"⟩, ⟨.copy, "/tabs/-", .null, some "/ui/tabs/0"⟩,
    ⟨.remove, "/tabs/1", .null, none⟩, ⟨.replace, "/tabs/0/title", .str "All", none⟩]

theorem protected_mem_namesIn_rearranging :
    (apply (some .default) (hiddenTab "label") rearranging).applied = true ∧
      "Details" ∈ Collection.tabs.namesIn
        (apply (some .default) (hiddenTab "label") rearranging).document := by
  have applied : (apply (some .default) (hiddenTab "label") rearranging).applied = true := by
    decide +kernel
  refine ⟨applied, ?_⟩
  exact protected_mem_namesIn_of_applied (by decide +kernel) applied (.inr (by decide +kernel))
    "Details" (by decide +kernel) (by decide +kernel)

/-- Protected tabs that are not shown can go from the collection that holds them: the collection is
moved within its container, or something is moved or copied over it, over a tab or over its name, or
the name is removed or moved away, or something is written into a name that is not there yet. -/
theorem protected_not_mem_namesIn :
    "Details" ∈ Collection.tabs.namesIn (hiddenTab "name") ∧
      (∀ op ∈ [⟨.move, "/metadata", .null, some "/tabs"⟩, ⟨.move, "/tabs", .null, some "/filters"⟩,
          ⟨.copy, "/tabs", .null, some "/filters"⟩,
          ⟨.copy, "/tabs/0/name", .null, some "/ui/tabs/0"⟩,
          ⟨.remove, "/tabs/0/name", .null, none⟩,
          ⟨.move, "/metadata", .null, some "/tabs/0/name"⟩],
        (apply (some .default) (hiddenTab "name") [op]).applied = true ∧
          "Details" ∉ Collection.tabs.namesIn
            (apply (some .default) (hiddenTab "name") [op]).document) ∧
      "Details" ∈ Collection.tabs.namesIn (hiddenTab "label") ∧
      (apply (some .default) (hiddenTab "label")
        [⟨.add, "/tabs/0/name/text", .str "Details", none⟩]).applied = true ∧
      "Details" ∉ Collection.tabs.namesIn (apply (some .default) (hiddenTab "label")
        [⟨.add, "/tabs/0/name/text", .str "Details", none⟩]).document := by
  decide +kernel

/-! ## 4. Policies under which no tabs are removed -/

/-- Where no tabs may be removed, all tabs stay, if they are read from one collection before and
after, no operation does to it what the guardrails do not look at, and what is added or replaced
leaves it a tab of every name. -/
theorem mem_tabNames_of_applied {policy : Policy} {d : Value} {ops : List Operation}
    (hremove : policy.allowRemoveTabs = false)
    (happlied : (apply (some policy) d ops).applied = true)
    (hshown : shownTabs (apply (some policy) d ops).document = shownTabs d)
    (hover : ∀ op ∈ ops, op.Overseen (shownTabs d))
    (hrestates : ∀ name ∈ tabNames d, ∀ op ∈ ops, op.Restates (shownTabs d) name) :
    ∀ name ∈ tabNames d, name ∈ tabNames (apply (some policy) d ops).document := by
  intro name hname
  obtain ⟨hchain, -⟩ := applyUnder_iff.1 ⟨happlied, rfl⟩
  have hrestates := hrestates name hname
  rw [tabNames_eq_namesIn] at hname
  rw [tabNames_eq_namesIn, hshown]
  refine hchain.keeps (fun e => name ∈ (shownTabs d).namesIn e)
    (fun op hop a b hstep hmem => ?_) hname
  exact mem_namesIn_of_step hstep (shownTabs_mem_tabHolders d) (hover op hop)
    (.inr ⟨hremove, hrestates op hop⟩) hmem

def keepingTabs : Policy := { Policy.default with allowRemoveTabs := false, protectedTabs := [] }

def oneTab : Value := .obj [("tabs", .arr [.obj [("name", .str "Sales")]]), ("filters", .arr [])]

/-- The tabs of a document are extended and brought into another order. -/
def extending : List Operation :=
  [⟨.add, "/tabs/0", .str "Overview", none⟩, ⟨.move, "/tabs/0", .null, some "/tabs/1"⟩,
    ⟨.replace, "/tabs/0/title", .str "All", none⟩, ⟨.copy, "/tabs/-", .null, some "/tabs/1"⟩,
    ⟨.replace, "/tabs", .ofStrings ["Returns", "Sales"], none⟩, ⟨.remove, "/filters", .null, none⟩]

theorem mem_tabNames_extending :
    (apply (some keepingTabs) oneTab extending).applied = true ∧
      "Sales" ∈ tabNames (apply (some keepingTabs) oneTab extending).document := by
  have applied : (apply (some keepingTabs) oneTab extending).applied = true := by
    decide +kernel
  refine ⟨applied, ?_⟩
  exact mem_tabNames_of_applied rfl applied (by decide +kernel) (by decide +kernel)
    (by decide +kernel) "Sales" (by decide +kernel)

/-- Tabs can be removed where this is disabled: the list, a tab or its name is replaced, another
value is moved or copied over the list, the list is moved to another section, the name is removed,
or tabs at the other place are shown instead. -/
theorem not_mem_tabNames_keepingTabs :
    keepingTabs.allowRemoveTabs = false ∧ "Sales" ∈ tabNames oneTab ∧
      ∀ op ∈ [⟨.replace, "/tabs", .arr [], none⟩, ⟨.replace, "/tabs/0", .str "Overview", none⟩,
          ⟨.replace, "/tabs/0/name", .str "Overview", none⟩,
          ⟨.copy, "/tabs", .null, some "/filters"⟩, ⟨.move, "/tabs", .null, some "/filters"⟩,
          ⟨.move, "/metadata", .null, some "/tabs"⟩, ⟨.remove, "/tabs/0/name", .null, none⟩,
          ⟨.add, "/ui/tabs/-", .str "Overview", none⟩, ⟨.replace, "", .obj [], none⟩],
        (apply (some keepingTabs) oneTab [op]).applied = true ∧
          "Sales" ∉ tabNames (apply (some keepingTabs) oneTab [op]).document := by
  decide +kernel

/-! ## 5. Policies under which no tabs are made -/

/-- Where no tabs may be made, a collection of tabs does not become longer, if whatever is written as
the whole collection has no more items than it had at first. -/
theorem lengthIn_of_applied {policy : Policy} {d : Value} {ops : List Operation} {c : Collection}
    (hcreate : policy.allowCreateNewTabs = false) (hc : c ∈ Collection.tabHolders)
    (happlied : (apply (some policy) d ops).applied = true)
    (hfits : ∀ op ∈ ops, op.Fits c (c.lengthIn d)) :
    c.lengthIn (apply (some policy) d ops).document ≤ c.lengthIn d := by
  obtain ⟨hchain, -⟩ := applyUnder_iff.1 ⟨happlied, rfl⟩
  refine hchain.keeps (fun e => c.lengthIn e ≤ c.lengthIn d)
    (fun op hop a b hstep hle => ?_) (Nat.le_refl _)
  exact lengthIn_of_step hstep hc hcreate (hfits op hop) hle

def fixedTabs : Policy := { Policy.default with allowCreateNewTabs := false }

def twoTabs : Value :=
  .obj [("tabs", .ofStrings ["Sales", "Overview"]), ("filters", .ofStrings ["a", "b", "c"])]

/-- The tabs are brought into another order, one is removed and one renamed, and then two others are
written in their place. -/
def shrinking : List Operation :=
  [⟨.move, "/tabs/0", .null, some "/tabs/1"⟩, ⟨.remove, "/tabs/0", .null, none⟩,
    ⟨.replace, "/tabs/0", .str "Returns", none⟩, ⟨.add, "/tabs", .ofStrings ["x", "y"], none⟩,
    ⟨.move, "/metadata", .null, some "/filters"⟩]

theorem lengthIn_shrinking :
    (apply (some fixedTabs) twoTabs shrinking).applied = true ∧
      Collection.tabs.lengthIn (apply (some fixedTabs) twoTabs shrinking).document ≤
        Collection.tabs.lengthIn twoTabs := by
  have applied : (apply (some fixedTabs) twoTabs shrinking).applied = true := by
    decide +kernel
  exact ⟨applied, lengthIn_of_applied rfl (by decide +kernel) applied (by decide +kernel)⟩

/-- Tabs can be made where this is disabled: a longer list is written at the place of the tabs or
above it, or copied or moved there, or tabs are written at the other place. -/
theorem lengthIn_lt_fixedTabs :
    fixedTabs.allowCreateNewTabs = false ∧
      (∀ op ∈ [⟨.add, "/tabs", .ofStrings ["Sales", "Overview", "Returns"], none⟩,
          ⟨.replace, "", .obj [("tabs", .ofStrings ["Sales", "Overview", "Returns"])], none⟩,
          ⟨.copy, "/tabs", .null, some "/filters"⟩, ⟨.move, "/tabs", .null, some "/filters"⟩],
        (apply (some fixedTabs) twoTabs [op]).applied = true ∧
          Collection.tabs.lengthIn twoTabs <
            Collection.tabs.lengthIn (apply (some fixedTabs) twoTabs [op]).document) ∧
      (apply (some fixedTabs) twoTabs [⟨.add, "/ui/tabs", .ofStrings ["Sales"], none⟩]).applied =
        true ∧
      Collection.uiTabs.lengthIn twoTabs <
        Collection.uiTabs.lengthIn (apply (some fixedTabs) twoTabs
          [⟨.add, "/ui/tabs", .ofStrings ["Sales"], none⟩]).document := by
  decide +kernel

end Patch

end Dashboards
