import ServiceCall.Json.Parser
import ServiceCall.Proofs.Text.Unicode

/-!
# Where a reading stops

The lines and columns that a cursor counts matter for faults alone. What a reading gives is stated
by the bytes that are left.
-/

namespace ServiceCall.Json

variable {α β : Type} {r : Reading (α × Cursor)} {x : α} {y : β} {rest rest' : Bytes}

/-- The reading gives `x` and stops in front of `rest`. -/
def Gives (r : Reading (α × Cursor)) (x : α) (rest : Bytes) : Prop :=
  ∃ c, r = .ok (x, c) ∧ c.rest = rest

theorem Gives.bind {f : α × Cursor → Reading (β × Cursor)} (h : Gives r x rest)
    (hf : ∀ c, c.rest = rest → Gives (f (x, c)) y rest') : Gives (r >>= f) y rest' := by
  obtain ⟨c, rfl, hc⟩ := h
  exact hf c hc

theorem gives_ok {c : Cursor} (h : c.rest = rest) : Gives (.ok (x, c)) x rest := ⟨c, rfl, h⟩

theorem Gives.map {f : α → β} (h : Gives r x rest) :
    Gives (do let (x, c) ← r; return (f x, c)) (f x) rest :=
  h.bind fun _ hc => gives_ok hc

namespace Cursor

variable {c : Cursor} {b : UInt8} {p : UInt8 → Bool}

/-! ## Moving on -/

theorem peek?_of_rest (h : c.rest = b :: rest) : c.peek? = some b := by
  unfold peek?
  rw [h, List.head?_cons]

theorem rest_skip (h : c.rest = b :: rest) : c.skip.rest = rest := by
  unfold skip
  rw [h]
  dsimp only
  split <;> rfl

theorem rest_skips {bs : Bytes} (h : c.rest = bs ++ rest) : (c.skips bs.length).rest = rest := by
  induction bs generalizing c with
  | nil => exact h
  | cons b bs ih => exact ih (rest_skip h)

@[simp] theorem rest_skipWhile (p : UInt8 → Bool) (c : Cursor) :
    (c.skipWhile p).rest = c.rest.dropWhile p := by
  unfold skipWhile
  generalize c.line = line, c.column = column, c.rest = bytes
  induction bytes generalizing line column with
  | nil => rfl
  | cons b bytes ih =>
    unfold skipWhileFrom
    split
    · rename_i hb
      rw [List.dropWhile_cons_of_pos hb]
      split
      · exact ih _ _
      · exact ih _ _
    · rename_i hb
      rw [List.dropWhile_cons_of_neg hb]

theorem skipSpace_of_rest (h : c.rest = b :: rest) (hb : isSpace b = false) : c.skipSpace = c := by
  obtain ⟨line, column, bytes⟩ := c
  obtain rfl : bytes = b :: rest := h
  unfold skipSpace skipWhile skipWhileFrom
  simp [hb]

theorem finish_of_rest (h : c.rest = []) : c.finish = .ok () := by
  unfold finish
  simp [skipSpace, h]

/-- A word is read if its letters are next. -/
theorem expectWord_of_rest {word : List Char} (h : c.rest = word.map Char.toUInt8 ++ rest) :
    ∃ c', c.expectWord word = .ok c' ∧ c'.rest = rest := by
  induction word generalizing c with
  | nil => exact ⟨c, rfl, h⟩
  | cons letter word ih =>
    obtain ⟨c', hword, hrest⟩ := ih (rest_skip h)
    refine ⟨c', ?_, hrest⟩
    unfold expectWord
    simp only [peek?_of_rest h, if_true]
    exact hword

end Cursor

end ServiceCall.Json
