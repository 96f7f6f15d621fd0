/-!
# Cutting a text at a separator

`pieces` cuts a text at every occurrence of a separator.  There is always one piece more than there
are separators, and putting the separators back gives the text again: `join_pieces`.
-/

namespace WordAtlas.Text

/-- The pieces of a text between the occurrences of a separator. -/
def pieces (separator : Char) : List Char → List (List Char)
  | [] => [[]]
  | c :: rest =>
      if c = separator then [] :: pieces separator rest
      else match pieces separator rest with
        | [] => [[c]]
        | piece :: more => (c :: piece) :: more

/-- The pieces put together again, with a separator between neighbours. -/
def join (separator : Char) : List (List Char) → List Char
  | [] => []
  | [piece] => piece
  | piece :: more => piece ++ separator :: join separator more

theorem pieces_ne_nil (separator : Char) (cs : List Char) : pieces separator cs ≠ [] := by
  cases cs with
  | nil => simp [pieces]
  | cons c rest =>
      unfold pieces
      split
      · simp
      · split <;> simp

/-- Nothing is lost by cutting. -/
theorem join_pieces (separator : Char) (cs : List Char) :
    join separator (pieces separator cs) = cs := by
  induction cs with
  | nil => rfl
  | cons c rest ih =>
      unfold pieces
      split
      · rename_i hc
        cases hp : pieces separator rest with
        | nil => exact absurd hp (pieces_ne_nil separator rest)
        | cons piece more => simp [join, ← hp, ih, hc]
      · cases hp : pieces separator rest with
        | nil => exact absurd hp (pieces_ne_nil separator rest)
        | cons piece more =>
            rw [hp] at ih
            cases more with
            | nil => simpa [join] using ih
            | cons next others => simpa [join] using ih

/-- No piece holds the separator. -/
theorem not_mem_of_mem_pieces {separator : Char} {cs piece : List Char}
    (h : piece ∈ pieces separator cs) : separator ∉ piece := by
  induction cs generalizing piece with
  | nil => simp [pieces] at h; simp [h]
  | cons c rest ih =>
      unfold pieces at h
      split at h
      · rcases List.mem_cons.mp h with rfl | h
        · simp
        · exact ih h
      · rename_i hc
        split at h
        · rename_i hp
          exact absurd hp (pieces_ne_nil separator rest)
        · rename_i first more hp
          rcases List.mem_cons.mp h with rfl | h
          · have hfirst : separator ∉ first := ih (by simp [hp])
            simpa [Ne.symm hc] using hfirst
          · exact ih (by simp [hp, h])

end WordAtlas.Text
