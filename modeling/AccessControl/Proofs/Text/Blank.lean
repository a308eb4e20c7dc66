import AccessControl.Text.Blank
import Mathlib.Data.List.DropRight

/-! # Trimming

What is trimmed has no blank at either end, so trimming it once more changes nothing.
-/
namespace AccessControl

theorem trimChars_eq_rdropWhile (cs : List Char) :
    trimChars cs = (cs.dropWhile isBlank).rdropWhile isBlank := rfl

/-- A text trims to nothing exactly when it is blank. -/
theorem trimChars_eq_nil_iff {cs : List Char} : trimChars cs = [] ↔ cs.all isBlank = true := by
  rw [trimChars_eq_rdropWhile, List.rdropWhile_eq_nil_iff, List.all_eq_true]
  constructor
  · intro h
    by_cases hdropped : cs.dropWhile isBlank = []
    · exact List.dropWhile_eq_nil_iff.mp hdropped
    · -- What is left would begin with a character that is not blank.
      have hhead := List.head_dropWhile_not isBlank hdropped
      exact absurd (h _ (List.head_mem hdropped)) (by simp [hhead])
  · intro h
    rw [List.dropWhile_eq_nil_iff.mpr h]
    exact List.forall_mem_nil _

/-- A trimmed text does not begin with a blank. -/
theorem dropWhile_trimChars (cs : List Char) :
    (trimChars cs).dropWhile isBlank = trimChars cs := by
  rw [List.dropWhile_eq_self_iff]
  intro hlength
  have hbegins : trimChars cs <+: cs.dropWhile isBlank := List.rdropWhile_prefix isBlank _
  have hkept : cs.dropWhile isBlank ≠ [] := by
    intro hnil
    rw [hnil, List.prefix_nil] at hbegins
    simp [hbegins] at hlength
  have hhead : (trimChars cs)[0] = (cs.dropWhile isBlank).head hkept := by
    rw [hbegins.getElem, List.head_eq_getElem]
  rw [hhead, List.head_dropWhile_not isBlank hkept]
  exact Bool.false_ne_true

theorem trimChars_trimChars (cs : List Char) : trimChars (trimChars cs) = trimChars cs := by
  rw [trimChars_eq_rdropWhile (trimChars cs), dropWhile_trimChars, trimChars_eq_rdropWhile,
    List.rdropWhile_idempotent]

/-- **Trimming twice is trimming once.** -/
@[simp] theorem trim_trim (s : String) : trim (trim s) = trim s := by
  rw [trim, trim, String.toList_ofList, trimChars_trimChars]

/-- A text that is not blank has something left when it is trimmed. -/
theorem trim_ne_empty {s : String} (h : isBlankText s = false) : trim s ≠ "" := by
  intro hempty
  have hnil : trimChars s.toList = [] := by
    have := congrArg String.toList hempty
    rwa [trim, String.toList_ofList] at this
  rw [trimChars_eq_nil_iff] at hnil
  exact Bool.false_ne_true (h.symm.trans hnil)

end AccessControl
