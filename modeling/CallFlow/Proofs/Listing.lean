import CallFlow.Listing
import CallFlow.Proofs.Text.Quoted

/-!
# Listed operands are told apart

The first character of a listed operand says what it is: a name to be chosen, a chosen name, a literal or
nothing yet. The rest of it is the name, or the quoted text, so an operand can be told from how it is
listed. A literal is one quotation on one line, and therefore ends where it seems to end.

## Main definitions

- `CallFlow.Operand.mark` — the first character of a listed operand

## Main statements

- `CallFlow.Operand.listing_unambiguous` — no two operands are listed alike, and literals are quotations
-/

namespace CallFlow.Operand

/-- The first character of an operand in a listing. -/
def mark : Operand → Char
  | parameter name => if name = "" then '?' else '$'
  | literal _ => '"'
  | unset => '_'

variable (shown : Char → Bool)

theorem head?_listingWith (o : Operand) : (o.listingWith shown).toList.head? = some o.mark := by
  cases o with
  | parameter name =>
    by_cases hname : name = ""
    · simp [listingWith, mark, hname]
    · simp [listingWith, mark, hname]
  | literal text => simp [listingWith, mark, Text.toList_quotedWith]
  | unset => simp [listingWith, mark]

variable {shown}

theorem mark_eq_of_listingWith_eq {v w : Operand} (h : v.listingWith shown = w.listingWith shown) :
    v.mark = w.mark := by
  have hhead := v.head?_listingWith shown
  rw [h, w.head?_listingWith shown] at hhead
  exact (Option.some.inj hhead).symm

theorem mark_parameter_ne (name : String) :
    (parameter name).mark ≠ '"' ∧ (parameter name).mark ≠ '_' := by
  by_cases hname : name = "" <;> simp [mark, hname]

theorem name_eq_of_listingWith_eq {name name' : String}
    (h : (parameter name).listingWith shown = (parameter name').listingWith shown) :
    name = name' := by
  have hmark := mark_eq_of_listingWith_eq h
  by_cases hname : name = "" <;> by_cases hname' : name' = ""
  · rw [hname, hname']
  · simp [mark, hname, hname'] at hmark
  · simp [mark, hname, hname'] at hmark
  · simp only [listingWith, hname, hname', if_false] at h
    have hlist := congrArg String.toList h
    rw [String.toList_append, String.toList_append] at hlist
    exact String.toList_injective (List.append_cancel_left hlist)

theorem listingWith_injective : Function.Injective (listingWith shown) := by
  intro v w h
  have hmark := mark_eq_of_listingWith_eq h
  cases v with
  | parameter name =>
    cases w with
    | parameter name' => rw [name_eq_of_listingWith_eq h]
    | literal _ => exact absurd hmark (mark_parameter_ne name).1
    | unset => exact absurd hmark (mark_parameter_ne name).2
  | literal text =>
    cases w with
    | parameter name => exact absurd hmark.symm (mark_parameter_ne name).1
    | literal text' => rw [Text.quotedWith_injective shown h]
    | unset => cases hmark
  | unset =>
    cases w with
    | parameter name => exact absurd hmark.symm (mark_parameter_ne name).2
    | literal _ => cases hmark
    | unset => rfl

/-- No two operands are listed alike, and a literal is listed on one line as one quotation, in which only
    the first and the last character are double quotes that are not escaped. This does not depend on
    which characters may stand for themselves; in `listing` they are those of `Text.isShown`. -/
theorem listing_unambiguous (shown : Char → Bool) :
    Function.Injective (listingWith shown) ∧
      ∀ text : String, Text.Quotation ((literal text).listingWith shown).toList :=
  ⟨listingWith_injective, Text.quotation_quotedWith shown⟩

/-- A literal imitates a name, another one spells the code point of a soft hyphen out, and a third one has
    a double quote inside and a backslash in front of the closing one. -/
theorem listing_unambiguous_imitated :
    (literal "$a").listing ≠ (parameter "a").listing ∧
      (literal r"\u{ad}").listing ≠ (literal "\u00ad").listing ∧
      (literal "a\"\\").listing.toList = ['"', 'a', '\\', '"', '\\', '\\', '"'] ∧
      Text.escapesNext ['"', 'a', '\\'] ≠ false ∧
      Text.escapesNext ['"', 'a', '\\', '"', '\\', '\\'] = false := by
  obtain ⟨hinjective, hquotation⟩ := listing_unambiguous Text.isShown
  have hlisted : (literal "a\"\\").listing.toList = ['"', 'a', '\\', '"', '\\', '\\', '"'] := by
    decide +kernel
  have hquotes := (hquotation "a\"\\").unescaped_iff
  refine ⟨fun h => ?_, fun h => ?_, hlisted, fun h => ?_, ?_⟩
  · cases hinjective h
  · exact absurd (hinjective h) (by decide)
  · rcases (hquotes ['"', 'a', '\\'] _ hlisted).mp h with hfirst | hlast
    · cases hfirst
    · cases hlast
  · exact (hquotes ['"', 'a', '\\', '"', '\\', '\\'] [] hlisted).mpr (.inr rfl)

end CallFlow.Operand
