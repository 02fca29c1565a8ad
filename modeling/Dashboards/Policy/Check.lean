import Dashboards.Issue
import Dashboards.Policy.Basic
import Dashboards.Text.Sorted

/-!
# Checking patches against the policy

Every operation is classified by the paths it names and then looked at by the guardrails: what it
adds, what it removes and what it overwrites. The last check compares the documents before and after
a whole patch and catches what single operations let through.
-/

namespace Dashboards

namespace Policy

/-! ## Paths -/

/-- Why a path may not be named by a patch. A blocked section wins over an allowed one, and the root
is allowed unless it is blocked. -/
def classify (policy : Policy) (path : String) : Option Objection :=
  match Pointer.parse path with
  | .error fault => some (.badPath fault)
  | .ok p =>
    match policy.blocked.find? p.startsWith with
    | some b => some (.blockedPath path b)
    | none =>
      if p.isRoot || policy.allowed.any p.startsWith then none else some (.outsidePath path)

/-! ## Guardrails -/

/-- The keys of a path that is a pointer. -/
def keys? (path : String) : Option (List String) := (Pointer.parse path).toOption.map (·.keys)

/-- Objects to adding an entry to a full collection, to creating a tab where that is disabled, and
to writing a whole collection beyond its ceiling. -/
def addGuardrail (policy : Policy) (path : String) (doc value : Value) : Option Objection := do
  let keys ← keys? path
  match (if keys.isEmpty then none else Collection.ofKeys? keys.dropLast) with
  | some c =>
    -- The path names a place in a collection.
    if c.holdsTabs && !policy.allowCreateNewTabs then some .creatingTabs
    else if policy.limit c ≤ c.lengthIn doc then some (.full (policy.limit c) c.label)
    else none
  | none =>
    -- The path names a whole collection, or nothing that has a ceiling.
    match Collection.ofKeys? keys, value with
    | some c, .arr xs =>
      if policy.limit c < xs.length then some (.tooLong (policy.limit c) c.label xs.length) else none
    | _, _ => none

/-- The names of protected tabs among the given tabs, in order. -/
def protectedAmong (policy : Policy) (tabs : List Value) : List String :=
  sortedTexts ((tabs.filterMap tabName?).filter policy.protectedTabs.contains)

/-- What removing the place at `keys` would do to the tabs of one holder. -/
def removalObjection (policy : Policy) (path : String) (keys : List String) (doc : Value)
    (holder : Collection) : Option Objection :=
  if keys.dropLast = holder.keys then
    -- The path names one tab of the holder.
    match doc.overlongAt? keys, doc.at? keys with
    | some digits, _ => some (.overlongIndex digits)
    | none, none => none
    | none, some tab =>
      if !policy.allowRemoveTabs then some .removingTabs
      else
        match tabName? tab with
        | some name => if policy.protectedTabs.contains name then some (.protectedTab name) else none
        | none => none
  else if keys.isPrefixOf holder.keys then
    -- The path names the holder itself or something above it.
    let tabs := holder.itemsIn doc
    match policy.protectedAmong tabs with
    | name :: _ => some (.holdsProtectedTab path name)
    | [] => if !tabs.isEmpty && !policy.allowRemoveTabs then some .removingTabs else none
  else none

/-- Objects to removing a protected tab, an ancestor of one, or any tab where that is disabled. -/
def removeGuardrail (policy : Policy) (path : String) (doc : Value) : Option Objection := do
  let keys ← keys? path
  Collection.tabHolders.findSome? (policy.removalObjection path keys doc)

/-- The protected names of one holder that writing `value` at `keys` would drop. Where `inserting`,
a write at the place of a tab pushes the tab aside and drops nothing. -/
def droppedNames (policy : Policy) (keys : List String) (doc value : Value) (inserting : Bool)
    (holder : Collection) : List String :=
  let before := policy.protectedAmong (holder.itemsIn doc)
  let depth := holder.keys.length
  if before.isEmpty then []
  else if keys.isPrefixOf holder.keys then
    -- The whole holder is written: the names that the new one lacks are dropped.
    let after :=
      match value.at? (holder.keys.drop keys.length) with
      | some (.arr tabs) => tabs.filterMap tabName?
      | _ => []
    before.filter fun n => !after.contains n
  else if holder.keys.isPrefixOf keys then
    -- One tab is written, or something in it: only that tab can lose its name.
    match (doc.at? (keys.take (depth + 1))).bind tabName? with
    | some old =>
      if !policy.protectedTabs.contains old then []
      else
        match keys[depth + 1]? with
        | none => if inserting || tabName? value = some old then [] else [old]
        | some member =>
          if (member = "name" ∨ member = "label") ∧ value.str? ≠ some old then [old] else []
    | none => []
  else []

/-- What writing `value` at `keys` would do to the protected tabs of one holder. -/
def overwriteObjection (policy : Policy) (keys : List String) (doc value : Value)
    (inserting : Bool) (holder : Collection) : Option Objection :=
  let below := holder.keys.isPrefixOf keys && !keys.isPrefixOf holder.keys
  let tab := keys.take (holder.keys.length + 1)
  -- The tab that is written is looked at only where there are protected tabs to lose.
  match if below && !(policy.protectedAmong (holder.itemsIn doc)).isEmpty then
      doc.overlongAt? tab else none with
  | some digits => some (.overlongIndex digits)
  | none => (policy.droppedNames keys doc value inserting holder).head?.map .protectedTab

/-- Objects to overwriting, and so dropping or renaming, a protected tab. -/
def overwriteGuardrail (policy : Policy) (path : String) (doc value : Value) (inserting : Bool) :
    Option Objection := do
  let keys ← keys? path
  Collection.tabHolders.findSome? (policy.overwriteObjection keys doc value inserting)

/-! ## Operations -/

/-- The paths that an operation names and the policy refuses, and the source it lacks. -/
def pathObjections (policy : Policy) (op : Operation) : List (Objection × String) :=
  let refused (path : String) := ((policy.classify path).map (·, path)).toList
  match op.verb, op.source with
  | .move, none | .copy, none => (.noSource op.verb, op.path) :: refused op.path
  | .move, some source | .copy, some source => refused op.path ++ refused source
  | _, _ => refused op.path

/-- What the guardrails object to in an operation whose paths are allowed. Replacing an entry does
not make its collection longer, and a move inside one container neither adds nor removes. -/
def guardrailObjections (policy : Policy) (op : Operation) (doc : Value) :
    List (Objection × String) :=
  let source := op.source.getD ""
  let found := ((keys? source).bind doc.at?).getD .null
  let unread := ((keys? source).bind doc.overlongAt?).map .overlongIndex
  let at_ (path : String) (o : Option Objection) := (o.map (·, path)).toList
  match op.verb with
  | .add =>
    at_ op.path (policy.addGuardrail op.path doc op.value) ++
      at_ op.path (policy.overwriteGuardrail op.path doc op.value true)
  | .replace =>
    (if ((keys? op.path).bind Collection.ofKeys?).isSome then
      at_ op.path (policy.addGuardrail op.path doc op.value) else []) ++
      at_ op.path (policy.overwriteGuardrail op.path doc op.value false)
  | .remove => at_ op.path (policy.removeGuardrail op.path doc)
  | .move =>
    if (keys? source).map (·.dropLast) = (keys? op.path).map (·.dropLast) then []
    else
      at_ source (policy.removeGuardrail source doc) ++ at_ source unread ++
        at_ op.path (policy.addGuardrail op.path doc found)
  | .copy => at_ source unread ++ at_ op.path (policy.addGuardrail op.path doc found)
  | .test => []

/-- All issues of one operation; the guardrails are asked only when its paths are allowed. -/
def checkOperation (policy : Policy) (op : Operation) (doc : Value) (position : Option Nat) :
    List Issue :=
  let objections :=
    match policy.pathObjections op with
    | [] => policy.guardrailObjections op doc
    | found => found
  objections.map fun (o, path) => ⟨o, some path, position⟩

/-- All issues of a patch whose operations are each checked against the document as given. -/
def checkEach (policy : Policy) (doc : Value) (ops : List Operation) : List Issue :=
  ops.zipIdx.flatMap fun (op, i) => policy.checkOperation op doc (some i)

/-- The issue of an operation that met a bound when it was carried out; any other fault is left to
the application of the patch. -/
def unfinished (op : Operation) (doc : Value) (position : Nat) : List Issue :=
  match (op.attempt doc).fault with
  | some f => if f.excess?.isSome then [⟨.fault f, some op.path, some position⟩] else []
  | none => []

/-- All issues of a patch, each operation checked against the document as the operations before it
leave it. -/
def checkInTurn (policy : Policy) (position : Nat) (doc : Value) : List Operation → List Issue
  | [] => []
  | op :: rest =>
    policy.checkOperation op doc (some position) ++ unfinished op doc position ++
      policy.checkInTurn (position + 1) (op.advance doc) rest

/-! ## Whole documents -/

/-- What is wrong with a section after a patch: it is neither absent before and after nor present
with equal values, or an index on the way to it has too many digits. -/
def sectionObjection (before after : Value) (p : Pointer) : Option Objection :=
  match (before.overlongAt? p.keys).orElse fun _ => after.overlongAt? p.keys with
  | some digits => some (.overlongIndex digits)
  | none =>
    match before.resolve? p, after.resolve? p with
    | some a, some b => if a.looseEqual b then none else some (.changedSection p)
    | none, none => none
    | _, _ => some (.changedSection p)

/-- Compares the documents before and after a patch: blocked sections are as they were, no
collection grew beyond its ceiling, and no protected tab is lost. -/
def checkDocuments (policy : Policy) (before after : Value) : List Issue :=
  let sections := policy.blocked.filterMap fun p =>
    (sectionObjection before after p).map (⟨·, some p.text, none⟩)
  let ceilings := Collection.all.filterMap fun c =>
    let length : Nat := c.lengthIn after
    if policy.limit c < length ∧ c.lengthIn before < length then
      some ⟨.outgrown (policy.limit c) c.label length, some c.pointer.text, none⟩
    else none
  let lost := sortedTexts ((tabNames before).filter fun n =>
    policy.protectedTabs.contains n && !(tabNames after).contains n)
  sections ++ ceilings ++ lost.map fun n => ⟨.protectedTab n, none, none⟩

end Policy

end Dashboards
