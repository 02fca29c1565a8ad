import Mathlib.Data.String.Basic
import Mathlib.Data.List.Basic
import Dashboards.Pointer

/-!
# The written form of pointers

A pointer is written as its keys, each behind a slash and with its tildes and slashes escaped.  Inside
the written form of a key there is no slash, so the pieces between the slashes are the keys again.
The one exception is the pointer with an empty key alone: it is written as a slash, which is read as
the root.
-/

namespace Dashboards

namespace Pointer

variable {c : Char} {key piece cs a b : List Char} {keys : List String} {p q : Pointer}
  {t u : String}

/-! ## 1. Keys and their written form -/

theorem decodeKey?_cons_of_ne (hc : c ≠ '~') (cs : List Char) :
    decodeKey? (c :: cs) = (decodeKey? cs).map (c :: ·) := by
  rw [decodeKey?.eq_4 _ _ (fun _ h => absurd h hc) (fun _ h => absurd h hc)]
  exact if_neg hc

theorem encodeChar_of_ne (htilde : c ≠ '~') (hslash : c ≠ '/') : encodeChar c = [c] :=
  encodeChar.eq_3 c htilde hslash

theorem decodeKey?_encodeChar (c : Char) (cs : List Char) :
    decodeKey? (encodeChar c ++ cs) = (decodeKey? cs).map (c :: ·) := by
  unfold encodeChar
  split
  · rfl
  · rfl
  · rename_i hc _
    exact decodeKey?_cons_of_ne hc cs

/-- A key is read back from the way it is written. -/
theorem decodeKey?_encoded (key : List Char) : decodeKey? (key.flatMap encodeChar) = some key := by
  induction key with
  | nil => rfl
  | cons c key ih => rw [List.flatMap_cons, decodeKey?_encodeChar, ih, Option.map_some]

theorem slash_not_mem_encoded (key : List Char) : '/' ∉ key.flatMap encodeChar := by
  intro h
  obtain ⟨c, -, hc⟩ := List.mem_flatMap.1 h
  unfold encodeChar at hc
  split at hc
  · simp at hc
  · simp at hc
  · rename_i hslash
    exact hslash (List.mem_singleton.1 hc).symm

/-- A piece without a slash that is read as a key is the written form of that key. -/
theorem encoded_of_decodeKey? (h : decodeKey? piece = some key) (hslash : '/' ∉ piece) :
    key.flatMap encodeChar = piece := by
  induction piece using decodeKey?.induct generalizing key with
  | case1 =>
    cases h
    rfl
  | case2 cs ih =>
    obtain ⟨key', hkey, rfl⟩ := Option.map_eq_some_iff.1 h
    rw [List.flatMap_cons, ih hkey (by simp_all)]
    rfl
  | case3 cs ih =>
    obtain ⟨key', hkey, rfl⟩ := Option.map_eq_some_iff.1 h
    rw [List.flatMap_cons, ih hkey (by simp_all)]
    rfl
  | case4 cs h0 h1 =>
    rw [decodeKey?.eq_4 _ _ (fun r _ => h0 r rfl) (fun r _ => h1 r rfl)] at h
    cases h
  | case5 c cs h0 h1 hc ih =>
    rw [decodeKey?_cons_of_ne hc] at h
    obtain ⟨key', hkey, rfl⟩ := Option.map_eq_some_iff.1 h
    obtain ⟨hne, hcs⟩ := not_or.1 (mt List.mem_cons.2 hslash)
    rw [List.flatMap_cons, ih hkey hcs, encodeChar_of_ne hc (Ne.symm hne)]
    rfl

/-! ## 2. Pieces between slashes -/

/-- Every tilde of a text begins an escape. -/
def Escaped (cs : List Char) : Prop :=
  ∀ a b, cs = a ++ '~' :: b → b.head? = some '0' ∨ b.head? = some '1'

theorem escaped_nil : Escaped [] := fun a b h => by simp at h

theorem escaped_cons_iff :
    Escaped (c :: cs) ↔ (c = '~' → cs.head? = some '0' ∨ cs.head? = some '1') ∧ Escaped cs := by
  constructor
  · intro h
    exact ⟨fun hc => h [] cs (by rw [hc]; rfl), fun a b hab => h (c :: a) b (by rw [hab]; rfl)⟩
  · rintro ⟨hhead, hrest⟩ a b hab
    cases a with
    | nil =>
      obtain ⟨rfl, rfl⟩ := List.cons.inj hab
      exact hhead rfl
    | cons d a => exact hrest a b (List.cons.inj hab).2

theorem escaped_append_slash_iff : Escaped (a ++ '/' :: b) ↔ Escaped a ∧ Escaped b := by
  induction a with
  | nil => simp [escaped_cons_iff, escaped_nil]
  | cons c a ih =>
    rw [List.cons_append, escaped_cons_iff, escaped_cons_iff, ih, and_assoc]
    cases a <;> simp

theorem escaped_intercalate_iff {pieces : List (List Char)} :
    Escaped (['/'].intercalate pieces) ↔ ∀ piece ∈ pieces, Escaped piece := by
  induction pieces with
  | nil => simp [escaped_nil]
  | cons piece pieces ih =>
    cases pieces with
    | nil => simp
    | cons next pieces =>
      rw [List.intercalate_cons_cons, List.append_assoc, List.singleton_append,
        escaped_append_slash_iff, ih, List.forall_mem_cons (a := piece)]

/-- A piece is read as a key exactly if every tilde in it begins an escape. -/
theorem isSome_decodeKey?_iff : (decodeKey? piece).isSome ↔ Escaped piece := by
  induction piece using decodeKey?.induct with
  | case1 => simp [decodeKey?, escaped_nil]
  | case2 cs ih => simp [decodeKey?, escaped_cons_iff, ih]
  | case3 cs ih => simp [decodeKey?, escaped_cons_iff, ih]
  | case4 cs h0 h1 =>
    rw [decodeKey?.eq_4 _ _ (fun r _ => h0 r rfl) (fun r _ => h1 r rfl), escaped_cons_iff]
    cases cs <;> simp_all
  | case5 c cs h0 h1 hc ih => simp [decodeKey?_cons_of_ne hc, escaped_cons_iff, hc, ih]

theorem splitSlash_eq_splitOn (cs : List Char) : splitSlash cs = cs.splitOn '/' := by
  induction cs using splitSlash.induct with
  | case1 => rfl
  | case2 cs ih =>
    rw [splitSlash, ih, List.splitOn_cons_eq_if_modifyHead]
    rfl
  | case3 c cs hc hnil ih => exact absurd (ih.symm.trans hnil) (List.splitOn_ne_nil '/' cs)
  | case4 c cs hc piece pieces hcons ih =>
    rw [splitSlash.eq_3 c cs hc, List.splitOn_cons_eq_if_modifyHead, ← ih, hcons]
    simp [show c ≠ '/' from hc]

theorem slash_not_mem_of_mem_splitSlash (h : piece ∈ splitSlash cs) : '/' ∉ piece := by
  induction cs using splitSlash.induct generalizing piece with
  | case1 =>
    rw [List.mem_singleton.1 h]
    simp
  | case2 cs ih =>
    rcases List.mem_cons.1 h with rfl | h
    · simp
    · exact ih h
  | case3 c cs hc hnil ih =>
    rw [splitSlash.eq_3 c cs hc, hnil] at h
    rw [List.mem_singleton.1 h]
    simpa using Ne.symm hc
  | case4 c cs hc first pieces hcons ih =>
    rw [splitSlash.eq_3 c cs hc, hcons] at h
    rw [hcons] at ih
    rcases List.mem_cons.1 h with rfl | h
    · have hfirst := ih List.mem_cons_self
      simp [Ne.symm hc, hfirst]
    · exact ih (List.mem_cons_of_mem _ h)

theorem intercalate_splitSlash (cs : List Char) : ['/'].intercalate (splitSlash cs) = cs := by
  rw [splitSlash_eq_splitOn, List.intercalate_splitOn]

theorem splitSlash_intercalate {pieces : List (List Char)} (hne : pieces ≠ [])
    (hslash : ∀ piece ∈ pieces, '/' ∉ piece) : splitSlash (['/'].intercalate pieces) = pieces := by
  rw [splitSlash_eq_splitOn, List.splitOn_intercalate '/' hslash hne]

theorem mapM_decodeKey?_cons_eq_some_iff {pieces read : List (List Char)} :
    (piece :: pieces).mapM decodeKey? = some read ↔
      ∃ key keys, decodeKey? piece = some key ∧ pieces.mapM decodeKey? = some keys ∧
        key :: keys = read := by
  simp [List.mapM_cons, Option.bind_eq_some_iff]

/-- Pieces are read as keys exactly if they are the written forms of these keys. -/
theorem mapM_decodeKey?_eq_some_iff {pieces read : List (List Char)}
    (hslash : ∀ piece ∈ pieces, '/' ∉ piece) :
    pieces.mapM decodeKey? = some read ↔ read.map (·.flatMap encodeChar) = pieces := by
  induction pieces generalizing read with
  | nil => simp [eq_comm]
  | cons piece pieces ih =>
    obtain ⟨hpiece, hpieces⟩ := List.forall_mem_cons.1 hslash
    have hfirst : ∀ key, decodeKey? piece = some key ↔ key.flatMap encodeChar = piece := fun key =>
      ⟨fun h => encoded_of_decodeKey? h hpiece, fun h => h ▸ decodeKey?_encoded key⟩
    simp only [mapM_decodeKey?_cons_eq_some_iff, hfirst, ih hpieces]
    rw [List.map_eq_cons_iff]
    constructor
    · rintro ⟨key, keys, hkey, hkeys, rfl⟩
      exact ⟨key, keys, rfl, hkey, hkeys⟩
    · rintro ⟨key, keys, rfl, hkey, hkeys⟩
      exact ⟨key, keys, hkey, hkeys, rfl⟩

theorem exists_mapM_decodeKey?_iff {pieces : List (List Char)} :
    (∃ read, pieces.mapM decodeKey? = some read) ↔ ∀ piece ∈ pieces, Escaped piece := by
  induction pieces with
  | nil => simp
  | cons piece pieces ih =>
    rw [List.forall_mem_cons, ← ih, ← isSome_decodeKey?_iff, Option.isSome_iff_exists]
    simp only [mapM_decodeKey?_cons_eq_some_iff]
    constructor
    · rintro ⟨read, key, keys, hkey, hkeys, -⟩
      exact ⟨⟨key, hkey⟩, keys, hkeys⟩
    · rintro ⟨⟨key, hkey⟩, keys, hkeys⟩
      exact ⟨_, key, keys, hkey, hkeys, rfl⟩

/-! ## 3. Pointers and their texts -/

theorem toList_text (keys : List String) :
    (text ⟨keys⟩).toList = keys.flatMap fun k => '/' :: k.toList.flatMap encodeChar := by
  simp [text, encodeKey, String.toList_join, List.flatMap_map]

/-- The pieces between the slashes of a text are the written keys. -/
theorem toList_text_of_ne_nil (hne : keys ≠ []) :
    (text ⟨keys⟩).toList =
      '/' :: ['/'].intercalate ((keys.map String.toList).map (·.flatMap encodeChar)) := by
  rw [toList_text]
  induction keys with
  | nil => exact absurd rfl hne
  | cons k keys ih =>
    cases keys with
    | nil => simp
    | cons next keys =>
      rw [List.flatMap_cons, ih (List.cons_ne_nil _ _)]
      simp [List.intercalate_cons_cons]

theorem slash_not_mem_of_mem_encoded {read : List (List Char)}
    (h : piece ∈ read.map (·.flatMap encodeChar)) : '/' ∉ piece := by
  obtain ⟨key, -, rfl⟩ := List.mem_map.1 h
  exact slash_not_mem_encoded key

theorem parse_of_toList (ht : t.toList = '/' :: cs) (hcs : cs ≠ []) :
    parse t =
      match (splitSlash cs).mapM decodeKey? with
      | some read => .ok ⟨read.map String.ofList⟩
      | none => .error (.badEscape t) := by
  unfold parse
  rw [ht]
  cases cs with
  | nil => exact absurd rfl hcs
  | cons c cs => rfl

/-- A text is read as a pointer if it is empty, or begins with a slash and has its tildes in
escapes. -/
theorem exists_parse_iff :
    (∃ p, parse t = .ok p) ↔ t = "" ∨ t.toList.head? = some '/' ∧ Escaped t.toList := by
  rw [← String.toList_eq_nil_iff]
  cases ht : t.toList with
  | nil => simp [parse, ht]
  | cons c cs =>
    by_cases hc : c = '/'
    · subst hc
      rw [escaped_cons_iff]
      by_cases hcs : cs = []
      · subst hcs
        simp [parse, ht, escaped_nil]
      · rw [parse_of_toList ht hcs, ← intercalate_splitSlash cs, escaped_intercalate_iff,
          ← exists_mapM_decodeKey?_iff, intercalate_splitSlash]
        cases (splitSlash cs).mapM decodeKey? <;> simp
    · have hparse : parse t = .error (.noLeadingSlash t) := by
        unfold parse
        rw [ht]
        split <;> simp_all
      simp [hparse, hc]

/-- The pointer with given keys is read back from its text, unless its one key is empty. -/
theorem parse_text (hkeys : keys ≠ [""]) : parse (text ⟨keys⟩) = .ok ⟨keys⟩ := by
  by_cases hne : keys = []
  · subst hne
    rfl
  · have hpieces : splitSlash (['/'].intercalate ((keys.map String.toList).map
        (·.flatMap encodeChar))) = (keys.map String.toList).map (·.flatMap encodeChar) :=
      splitSlash_intercalate (by simpa using hne) fun _ => slash_not_mem_of_mem_encoded
    have hread : ((keys.map String.toList).map (·.flatMap encodeChar)).mapM decodeKey? =
        some (keys.map String.toList) :=
      (mapM_decodeKey?_eq_some_iff fun _ => slash_not_mem_of_mem_encoded).2 rfl
    rw [parse_of_toList (toList_text_of_ne_nil hne), hpieces, hread]
    · simp
    · -- Only one empty key leaves nothing to be written behind the slash.
      intro hnil
      rw [hnil] at hpieces
      rw [← hpieces] at hread
      have hmap : [""].map String.toList = keys.map String.toList := Option.some.inj hread
      have hinjective : Function.Injective String.toList := fun _ _ => String.toList_inj.1
      exact hkeys (List.map_injective_iff.2 hinjective hmap).symm

/-- A text that is read as a pointer is the text of that pointer, unless it is a slash alone. -/
theorem text_of_parse (h : parse t = .ok p) (ht : t ≠ "/") : p.text = t := by
  cases hlist : t.toList with
  | nil =>
    obtain rfl := String.toList_eq_nil_iff.1 hlist
    cases h
    rfl
  | cons c cs =>
    have hslash : c = '/' := by
      have hhead := ((exists_parse_iff.1 ⟨p, h⟩).resolve_left fun hempty => by simp_all).1
      rw [hlist] at hhead
      exact Option.some.inj hhead
    subst hslash
    have hcs : cs ≠ [] := by
      rintro rfl
      exact ht (String.toList_inj.1 hlist)
    rw [parse_of_toList hlist hcs] at h
    cases hread : (splitSlash cs).mapM decodeKey? with
    | none =>
      rw [hread] at h
      cases h
    | some read =>
      rw [hread] at h
      cases h
      have hpieces := (mapM_decodeKey?_eq_some_iff fun _ => slash_not_mem_of_mem_splitSlash).1 hread
      have hne : read ≠ [] := by
        rintro rfl
        exact List.splitOn_ne_nil '/' cs ((splitSlash_eq_splitOn cs).symm.trans hpieces.symm)
      apply String.toList_inj.1
      rw [toList_text_of_ne_nil (by simpa using hne), hlist]
      simp only [List.map_map, String.toList_ofList, Function.comp_def] at hpieces ⊢
      rw [hpieces, intercalate_splitSlash]

/-- A text is read as a pointer exactly if it is empty, or begins with a slash and has its tildes in
escapes.  Reading and writing undo one another, except that the text of one empty key is read as the
root. -/
theorem parse_text_inverse :
    (∀ t, (∃ p, parse t = .ok p) ↔ t = "" ∨ t.toList.head? = some '/' ∧ Escaped t.toList) ∧
      (∀ t p, parse t = .ok p → t ≠ "/" → p.text = t) ∧
      (∀ keys, keys ≠ [""] → parse (text ⟨keys⟩) = .ok ⟨keys⟩) ∧
      text ⟨[""]⟩ = "/" ∧ parse "/" = .ok ⟨[]⟩ :=
  ⟨fun _ => exists_parse_iff, fun _ _ => text_of_parse, fun _ => parse_text, rfl, rfl⟩

example : parse "/a~1b/~01//" = .ok ⟨["a/b", "~1", "", ""]⟩ := by decide +kernel

/-! ## 4. Texts below a text -/

/-- One text goes on where the other ends, with a slash if with anything. -/
def Under (t u : String) : Prop := t = u ∨ ∃ r, t = u ++ "/" ++ r

/-- Two texts that are the same as far as their first slashes. -/
theorem append_cut {x y : List Char} (ha : '/' ∉ a) (hb : '/' ∉ b)
    (hx : ∀ c, x.head? = some c → c = '/') (hy : ∀ c, y.head? = some c → c = '/')
    (h : a ++ x = b ++ y) : a = b ∧ x = y := by
  induction a generalizing b with
  | nil =>
    cases b with
    | nil => exact ⟨rfl, h⟩
    | cons c b =>
      -- The first character of `b` would be the slash that `x` begins with.
      have hc := hx c (by rw [show x = c :: b ++ y from h]; rfl)
      exact absurd (hc ▸ List.mem_cons_self) hb
  | cons c a ih =>
    cases b with
    | nil =>
      have hc := hy c (by rw [← show c :: a ++ x = y from h]; rfl)
      exact absurd (hc ▸ List.mem_cons_self) ha
    | cons d b =>
      obtain ⟨rfl, hrest⟩ := List.cons.inj h
      have hcut := ih (mt (List.mem_cons_of_mem c) ha) (mt (List.mem_cons_of_mem c) hb) hrest
      exact ⟨congrArg (c :: ·) hcut.1, hcut.2⟩

theorem head?_text {c : Char} (h : (text ⟨keys⟩).toList.head? = some c) : c = '/' := by
  rw [toList_text] at h
  cases keys with
  | nil => cases h
  | cons k keys => exact (Option.some.inj h).symm

/-- The keys of one pointer are the first keys of another exactly if its text is where the text of the
other begins, and the other text ends there or has a slash there. -/
theorem keys_prefix_iff {front whole : List String} :
    front <+: whole ↔ ∃ x, (text ⟨whole⟩).toList = (text ⟨front⟩).toList ++ x ∧
      ∀ c, x.head? = some c → c = '/' := by
  constructor
  · rintro ⟨r, rfl⟩
    refine ⟨(text ⟨r⟩).toList, ?_, fun c => head?_text⟩
    rw [toList_text, toList_text, toList_text, List.flatMap_append]
  · rintro ⟨x, h, hx⟩
    rw [toList_text, toList_text] at h
    induction front generalizing whole with
    | nil => exact List.nil_prefix
    | cons k front ih =>
      cases whole with
      | nil => simp at h
      | cons l whole =>
        rw [List.flatMap_cons, List.flatMap_cons, List.append_assoc] at h
        -- The first pieces end at the next slash in both texts, so they are the same piece.
        have hwhole : ∀ c, (whole.flatMap fun k => '/' :: k.toList.flatMap encodeChar).head? = some c →
            c = '/' := fun c hc => head?_text (by rwa [toList_text])
        have hfront : ∀ c, ((front.flatMap fun k => '/' :: k.toList.flatMap encodeChar) ++ x).head? =
            some c → c = '/' := by
          intro c hc
          cases front with
          | nil => exact hx c hc
          | cons k front => exact (Option.some.inj hc).symm
        obtain ⟨hpiece, hrest⟩ := append_cut (slash_not_mem_encoded l.toList)
          (slash_not_mem_encoded k.toList) hwhole hfront (List.cons.inj h).2
        have hkey : l.toList = k.toList := by
          have hread := decodeKey?_encoded l.toList
          rw [hpiece, decodeKey?_encoded] at hread
          exact (Option.some.inj hread).symm
        rw [String.toList_inj.1 hkey]
        exact List.cons_prefix_cons.2 ⟨rfl, ih hrest⟩

/-- A text goes on below another one exactly if the characters that follow begin with a slash. -/
theorem under_iff : Under t u ↔ ∃ x, t.toList = u.toList ++ x ∧ ∀ c, x.head? = some c → c = '/' := by
  constructor
  · rintro (rfl | ⟨r, rfl⟩)
    · exact ⟨[], by simp, by simp⟩
    · exact ⟨'/' :: r.toList, by simp, by simp⟩
  · rintro ⟨x, h, hx⟩
    cases x with
    | nil => exact .inl (String.toList_inj.1 (by simpa using h))
    | cons c x =>
      rw [hx c rfl] at h
      exact .inr ⟨String.ofList x, String.toList_inj.1 (by simp [h])⟩

/-- A pointer starts with another one exactly if its text is that of the other one or goes on below
it.  The slash alone is not the text of the pointer that is read from it. -/
theorem startsWith_iff_under (hp : parse t = .ok p) (hq : parse u = .ok q) (hu : u ≠ "/") :
    p.startsWith q = true ↔ Under t u := by
  have hutext : q.text = u := text_of_parse hq hu
  rw [startsWith, List.isPrefixOf_iff_prefix]
  by_cases ht : t = "/"
  · -- The slash is the text of one empty key, which is behind the root alone, as `u` is another text.
    subst ht
    cases hp
    have hkeys : q.keys <+: [] ↔ q.keys <+: [""] := by
      refine ⟨fun h => h.trans List.nil_prefix, fun h => ?_⟩
      obtain ⟨keys⟩ := q
      cases keys with
      | nil => exact List.nil_prefix
      | cons k keys =>
        obtain ⟨rfl, hnil⟩ := List.cons_prefix_cons.1 h
        obtain rfl := List.prefix_nil.1 hnil
        exact absurd hutext.symm hu
    rw [hkeys, keys_prefix_iff, under_iff, ← hutext]
    rfl
  · rw [keys_prefix_iff, under_iff, ← hutext, ← text_of_parse hp ht]

/-! ## 5. Escapes by replacement -/

/-- Replaces two characters that stand together by one, from left to right. -/
def replacePair (a b c : Char) : List Char → List Char
  | x :: y :: rest =>
    if x = a ∧ y = b then c :: replacePair a b c rest else x :: replacePair a b c (y :: rest)
  | cs => cs

theorem replacePair_cons_of_ne {x a : Char} (h : x ≠ a) (b c : Char) (cs : List Char) :
    replacePair a b c (x :: cs) = x :: replacePair a b c cs := by
  cases cs with
  | nil => rfl
  | cons y cs => rw [replacePair, if_neg (fun hpair => h hpair.1)]

/-- A key is read by two replacements, the one of `~1` before the one of `~0`.  The other order would
read `~01` as a slash. -/
theorem decodeKey?_eq_replacePair (h : Escaped piece) :
    decodeKey? piece = some (replacePair '~' '0' '~' (replacePair '~' '1' '/' piece)) := by
  induction piece using decodeKey?.induct with
  | case1 => rfl
  | case2 cs ih =>
    rw [escaped_cons_iff, escaped_cons_iff] at h
    -- The first replacement passes this escape by, and the second one meets it.
    have hfirst : replacePair '~' '1' '/' ('~' :: '0' :: cs) =
        '~' :: '0' :: replacePair '~' '1' '/' cs := by
      rw [replacePair, if_neg (by decide), replacePair_cons_of_ne (by decide)]
    rw [decodeKey?, ih h.2.2, hfirst, replacePair, if_pos ⟨rfl, rfl⟩]
    rfl
  | case3 cs ih =>
    rw [escaped_cons_iff, escaped_cons_iff] at h
    rw [decodeKey?, ih h.2.2, replacePair, if_pos ⟨rfl, rfl⟩, replacePair_cons_of_ne (by decide)]
    rfl
  | case4 cs h0 h1 =>
    rw [escaped_cons_iff] at h
    cases cs <;> simp_all
  | case5 c cs h0 h1 hc ih =>
    rw [escaped_cons_iff] at h
    rw [decodeKey?_cons_of_ne hc, ih h.2, replacePair_cons_of_ne hc, replacePair_cons_of_ne hc]
    rfl

/-- A key is written by two replacements, the one of tildes before the one of slashes. -/
theorem flatMap_encodeChar (key : List Char) :
    key.flatMap encodeChar =
      (key.flatMap fun c => if c = '~' then ['~', '0'] else [c]).flatMap fun c =>
        if c = '/' then ['~', '1'] else [c] := by
  rw [List.flatMap_assoc]
  congr
  funext c
  by_cases htilde : c = '~'
  · subst htilde
    rfl
  · by_cases hslash : c = '/'
    · subst hslash
      rfl
    · simp [encodeChar_of_ne htilde hslash, htilde, hslash]

end Pointer

end Dashboards
