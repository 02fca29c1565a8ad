/-!
# Sorted texts

Names are listed in the order of their code points, each once.
-/

namespace Dashboards

/-- Puts a text into a sorted list, unless it is there. -/
def insertText (s : String) : List String → List String
  | [] => [s]
  | t :: rest => if s = t then t :: rest else if s < t then s :: t :: rest else t :: insertText s rest

/-- The texts of a list in order, each once. -/
def sortedTexts (ss : List String) : List String := ss.foldr insertText []

theorem mem_insertText {s x : String} {ts : List String} :
    x ∈ insertText s ts ↔ x = s ∨ x ∈ ts := by
  induction ts with
  | nil => simp [insertText]
  | cons t rest ih =>
    simp only [insertText]
    split
    · rename_i h; subst h; simp
    · split
      · simp
      · simp only [List.mem_cons, ih]
        constructor <;> (rintro (h | h | h) <;> simp [h])

theorem mem_sortedTexts {x : String} {ss : List String} : x ∈ sortedTexts ss ↔ x ∈ ss := by
  induction ss with
  | nil => simp [sortedTexts]
  | cons s rest ih =>
    simp only [sortedTexts, List.foldr_cons, mem_insertText, List.mem_cons]
    rw [← ih]
    rfl

theorem pairwise_insertText {s : String} {ts : List String} (h : ts.Pairwise (· < ·)) :
    (insertText s ts).Pairwise (· < ·) := by
  induction ts with
  | nil => simp [insertText]
  | cons t rest ih =>
    obtain ⟨ht, hr⟩ := List.pairwise_cons.1 h
    simp only [insertText]
    split
    · exact h
    · rename_i hne
      split
      · rename_i hlt
        refine List.pairwise_cons.2 ⟨fun x hx => ?_, h⟩
        rcases List.mem_cons.1 hx with rfl | hx
        · exact hlt
        · exact String.lt_trans hlt (ht x hx)
      · rename_i hge
        refine List.pairwise_cons.2 ⟨fun x hx => ?_, ih hr⟩
        rcases mem_insertText.1 hx with rfl | hx
        · exact String.not_le.1 fun hle => hne (String.le_antisymm hle (String.not_lt.1 hge))
        · exact ht x hx

theorem pairwise_sortedTexts (ss : List String) : (sortedTexts ss).Pairwise (· < ·) := by
  induction ss with
  | nil => exact .nil
  | cons s rest ih => exact pairwise_insertText ih

end Dashboards
