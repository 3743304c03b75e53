import Kinglet.Js.Text

/-!
# Words and white space

The code units of words lie between the digit zero and the letter z, and none of these is white space.
-/

namespace Kinglet.Js

variable {u : UInt16}

/-- No visible ASCII character is white space. -/
theorem isSpace_of_visible (hlow : 33 ≤ u) (hhigh : u ≤ 126) : isSpace u = false := by
  have hne : ∀ c : UInt16, 126 < c.toNat → u ≠ c := by
    rintro c hc rfl
    exact absurd (UInt16.le_iff_toNat_le.1 hhigh) (by simpa using hc)
  have hcontrol : ¬u ≤ 13 := fun h => absurd (UInt16.le_trans hlow h) (by decide)
  have hquad : ¬0x2000 ≤ u := fun h => absurd (UInt16.le_trans h hhigh) (by decide)
  have hblank : u ≠ 32 := by
    rintro rfl
    exact absurd hlow (by decide)
  simp [isSpace, hcontrol, hquad, hblank, hne]

theorem bounds_of_isWord (h : isWord u) : 48 ≤ u ∧ u ≤ 122 := by
  simp only [isWord, isIdentStart, isDigit, Bool.or_eq_true, Bool.and_eq_true,
    decide_eq_true_eq] at h
  obtain ((⟨hlow, hhigh⟩ | ⟨hlow, hhigh⟩) | rfl) | ⟨hlow, hhigh⟩ := h
  · exact ⟨UInt16.le_trans (by decide) hlow, UInt16.le_trans hhigh (by decide)⟩
  · exact ⟨UInt16.le_trans (by decide) hlow, hhigh⟩
  · decide
  · exact ⟨hlow, UInt16.le_trans hhigh (by decide)⟩

theorem isSpace_of_isWord (h : isWord u) : isSpace u = false :=
  isSpace_of_visible (UInt16.le_trans (by decide) (bounds_of_isWord h).1)
    (UInt16.le_trans (bounds_of_isWord h).2 (by decide))

theorem isSpace_of_isDigit (h : isDigit u) : isSpace u = false :=
  isSpace_of_isWord (by simp [isWord, h])

/-- A run that ends where the text does, or at a code unit that is none of it. -/
theorem takeWhile_append_of_head {p : UInt16 → Bool} {body tail : JsString}
    (hbody : ∀ u ∈ body, p u) (htail : ∀ u ∈ tail.head?, p u = false) :
    (body ++ tail).takeWhile p = body := by
  rw [List.takeWhile_append_of_pos hbody]
  cases tail with
  | nil => simp
  | cons v tail => simp [htail v rfl]

end Kinglet.Js
