import Mathlib.Data.String.Basic

/-!
# Texts cut at a character

A text is cut at every place of a character.  The cutting is the library's, over positions in the
encoded text; here it is brought to the characters of the text, where a text that is put together from
words is seen to have these words again.
-/

namespace Dashboards

namespace Text

open String

/-- Cutting goes on from a first part `l` that has been dealt with and a word `m` that has been
begun. -/
theorem splitOnAux_of_valid (c : Char) (l m r : List Char) (found : List String) :
    splitOnAux (ofList (l ++ m ++ r)) (ofList [c]) ⟨utf8Len l⟩ ⟨utf8Len l + utf8Len m⟩ 0 found =
      found.reverse ++ (List.splitOnPPrepend (· == c) r m.reverse).map ofList := by
  have hget : Pos.Raw.get (ofList [c]) 0 = c := get_of_valid [] [c]
  have hnext : Pos.Raw.next (ofList [c]) 0 = ⟨c.utf8Size⟩ := by simpa using next_of_valid [] c []
  have hend : Pos.Raw.atEnd (ofList [c]) ⟨c.utf8Size⟩ = true := by simpa using atEnd_of_valid [c] []
  induction r generalizing l m found with
  | nil =>
    have hword := extract_of_valid l m []
    have hat := atEnd_of_valid (l ++ m) []
    rw [utf8Len_append] at hat
    rw [splitOnAux, if_pos (hat.2 rfl), hword, List.splitOnPPrepend_nil]
    simp
  | cons d r ih =>
    have hat := get_of_valid (l ++ m) (d :: r)
    have hstep := next_of_valid (l ++ m) d r
    have hword := extract_of_valid l m (d :: r)
    have hnot := atEnd_of_valid (l ++ m) (d :: r)
    rw [utf8Len_append] at hat hstep hnot
    have hback : (⟨utf8Len l + utf8Len m⟩ : Pos.Raw).unoffsetBy 0 = ⟨utf8Len l + utf8Len m⟩ := rfl
    rw [splitOnAux, if_neg (fun h => List.cons_ne_nil d r (hnot.1 h)), hat, hget, hback, hstep, hnext,
      List.splitOnPPrepend_cons_eq_if, List.headD_cons, List.reverse_reverse]
    dsimp only
    split
    -- The word ends here, and the next one is begun behind the character.
    · rename_i hd
      obtain rfl : d = c := eq_of_beq hd
      have hlast : (⟨utf8Len l + utf8Len m + d.utf8Size⟩ : Pos.Raw).unoffsetBy ⟨d.utf8Size⟩ =
          ⟨utf8Len l + utf8Len m⟩ := by
        simp [Pos.Raw.unoffsetBy]
      rw [hlast, hword]
      simpa [hend, Nat.add_assoc] using ih (l ++ m ++ [d]) [] (ofList m :: found)
    · simpa [Nat.add_assoc] using ih l (m ++ [d]) found

theorem splitOn_ofList (c : Char) (cs : List Char) :
    (ofList cs).splitOn (ofList [c]) = (cs.splitOn c).map ofList := by
  have hne : (ofList [c] == "") = false := by
    rw [beq_eq_false_iff_ne]
    intro h
    have := congrArg String.toList h
    simp at this
  rw [splitOn, hne, if_neg Bool.false_ne_true]
  exact splitOnAux_of_valid c [] [] cs []

/-- Words are those of the text that they are joined to, if the character between them is in none. -/
theorem splitOn_joined {c : Char} {words : List String} (hne : words ≠ [])
    (h : ∀ word ∈ words, c ∉ word.toList) :
    (ofList ([c].intercalate (words.map toList))).splitOn (ofList [c]) = words := by
  have hwords : ∀ cs ∈ words.map toList, c ∉ cs := by
    intro cs hcs
    obtain ⟨word, hword, rfl⟩ := List.mem_map.1 hcs
    exact h word hword
  have hback : ofList ∘ toList = id := funext fun word => ofList_toList
  rw [splitOn_ofList, List.splitOn_intercalate c hwords (by simpa using hne), List.map_map, hback,
    List.map_id]

end Text

end Dashboards
