import Mathlib.Data.List.DropRight
import CallFlow.Text.Blank

/-!
# Trimmed texts

What is left after trimming neither starts nor ends with a blank. Trimming cuts the end of what it
left of the start, so the first character it left is still the first one. A text that neither starts
nor ends with a blank is left as it is, and nothing but blanks is ever cut off.

## Main definitions

- `CallFlow.Text.IsTrimOf` — a text without its longest runs of blanks at both ends

## Main statements

- `CallFlow.Text.isTrimOf_trim` — trimming gives trimmed texts and cuts off blanks only
- `CallFlow.Text.trim_eq_self` — trimmed texts stay
-/

namespace CallFlow.Text

/-- A text that neither starts nor ends with a blank. -/
def Trimmed (s : String) : Prop :=
  (∀ c ∈ s.toList.head?, isBlank c = false) ∧ ∀ c ∈ s.toList.getLast?, isBlank c = false

instance (s : String) : Decidable (Trimmed s) :=
  inferInstanceAs (Decidable (_ ∧ _))

theorem trimChars_eq_rdropWhile (cs : List Char) :
    trimChars cs = (cs.dropWhile isBlank).rdropWhile isBlank :=
  rfl

theorem isBlank_head_trimChars {cs : List Char} {c : Char} (h : (trimChars cs).head? = some c) :
    isBlank c = false := by
  rw [trimChars_eq_rdropWhile] at h
  have hne : (cs.dropWhile isBlank).rdropWhile isBlank ≠ [] := by
    intro hnil
    rw [hnil] at h
    cases h
  -- The end is cut off a list whose first character is no blank.
  have hprefix := List.rdropWhile_prefix isBlank (cs.dropWhile isBlank)
  rw [List.head?_eq_some_head hne, hprefix.head hne] at h
  rw [← Option.some.inj h]
  exact List.head_dropWhile_not isBlank _

theorem isBlank_getLast_trimChars {cs : List Char} {c : Char}
    (h : (trimChars cs).getLast? = some c) : isBlank c = false := by
  rw [trimChars_eq_rdropWhile] at h
  have hne : (cs.dropWhile isBlank).rdropWhile isBlank ≠ [] := by
    intro hnil
    rw [hnil] at h
    cases h
  rw [List.getLast?_eq_some_getLast hne] at h
  rw [← Option.some.inj h]
  exact Bool.eq_false_iff.mpr (List.rdropWhile_last_not isBlank _ hne)

/-- What is left after trimming neither starts nor ends with a blank. -/
theorem trimmed_trim (s : String) : Trimmed (trim s) := by
  rw [Trimmed, trim, String.toList_ofList]
  exact ⟨fun c hc => isBlank_head_trimChars hc, fun c hc => isBlank_getLast_trimChars hc⟩

/-- Around a trimmed text there are only blanks: it is what remains without the longest runs of blanks
    at both ends. -/
def IsTrimOf (left whole : String) : Prop :=
  Trimmed left ∧ ∃ front back : List Char, whole.toList = front ++ left.toList ++ back ∧
    (∀ c ∈ front, isBlank c = true) ∧ ∀ c ∈ back, isBlank c = true

theorem isTrimOf_trim (s : String) : IsTrimOf (trim s) s := by
  refine ⟨trimmed_trim s, s.toList.takeWhile isBlank, (s.toList.dropWhile isBlank).rtakeWhile isBlank,
    ?_, fun c hc => List.mem_takeWhile_imp hc, fun c hc => List.mem_rtakeWhile_imp hc⟩
  rw [trim, String.toList_ofList, trimChars_eq_rdropWhile, List.append_assoc,
    List.rdropWhile_append_rtakeWhile, List.takeWhile_append_dropWhile]

/-- Trimming leaves a text as it is that neither starts nor ends with a blank. -/
theorem trim_eq_self {s : String} (h : Trimmed s) : trim s = s := by
  obtain ⟨hfirst, hlast⟩ := h
  have hstart : s.toList.dropWhile isBlank = s.toList := by
    cases hs : s.toList with
    | nil => rfl
    | cons c cs =>
      have hc : isBlank c = false := hfirst c (by rw [hs]; rfl)
      rw [List.dropWhile_cons_of_neg (by rw [hc]; exact Bool.false_ne_true)]
  have hend : s.toList.rdropWhile isBlank = s.toList := by
    refine List.rdropWhile_eq_self_iff.mpr fun hne hblank => ?_
    rw [hlast _ (List.getLast?_eq_some_getLast hne)] at hblank
    cases hblank
  rw [trim, trimChars_eq_rdropWhile, hstart, hend, String.ofList_toList]

end CallFlow.Text
