import CallFlow.Text.Quoted

/-!
# Quoted texts are told apart

What is written for a character shows where it ends, so the characters of a quoted text can be read
off one after another and no two texts are quoted alike. A quoted text has no line ends, and a double
quote in it is escaped unless it opens or closes the quotation. None of this depends on which characters
may stand for themselves: the ones that matter are escaped before that is asked.

## Main definitions

- `CallFlow.Text.escapesNext` — whether a text leaves the character after it escaped
- `CallFlow.Text.Quotation` — texts on one line that a double quote opens and the next one closes

## Main statements

- `CallFlow.Text.quotedChar_append_inj` — what is written for a character shows where it ends
- `CallFlow.Text.quotedWith_injective` — no two texts are quoted alike
- `CallFlow.Text.quotation_quotedWith` — quoted texts are quotations
-/

namespace CallFlow.Text

/-! ## Hexadecimal digits -/

theorem hex_eq (n : Nat) :
    hex n = if n < 16 then [n.digitChar] else hex (n / 16) ++ [(n % 16).digitChar] :=
  Nat.toDigits_eq_if (by decide)

theorem hex_ne_nil (n : Nat) : hex n ≠ [] :=
  Nat.toDigits_ne_nil

theorem digitChar_inj : ∀ m < 16, ∀ n < 16, m.digitChar = n.digitChar → m = n := by
  decide

theorem isAlphanum_digitChar : ∀ d < 16, d.digitChar.isAlphanum = true := by
  decide

/-- The digits determine the number, from the last digit to the first. -/
theorem hex_injective : Function.Injective hex := by
  intro m
  induction m using Nat.strongRecOn with
  | ind m ih =>
    intro n h
    rw [hex_eq m, hex_eq n] at h
    split at h
    case isTrue hm =>
      split at h
      case isTrue hn => exact digitChar_inj m hm n hn (List.singleton_inj.mp h)
      case isFalse => simp [List.singleton_eq_append_iff, hex_ne_nil] at h
    case isFalse hm =>
      split at h
      case isTrue => simp [List.append_eq_singleton_iff, hex_ne_nil] at h
      case isFalse =>
        obtain ⟨hfront, hlast⟩ := List.append_inj' h rfl
        have hquotient : m / 16 = n / 16 := ih (m / 16) (by omega) hfront
        have hdigit : m % 16 = n % 16 :=
          digitChar_inj _ (by omega) _ (by omega) (List.singleton_inj.mp hlast)
        omega

theorem isAlphanum_of_mem_hex {n : Nat} {c : Char} (h : c ∈ hex n) : c.isAlphanum = true := by
  induction n using Nat.strongRecOn with
  | ind n ih =>
    rw [hex_eq] at h
    split at h
    case isTrue hn =>
      rw [List.mem_singleton.mp h]
      exact isAlphanum_digitChar n hn
    case isFalse =>
      rcases List.mem_append.mp h with hfront | hlast
      · exact ih (n / 16) (by omega) hfront
      · rw [List.mem_singleton.mp hlast]
        exact isAlphanum_digitChar _ (by omega)

/-- A number that is followed by a closing brace ends there. -/
theorem hex_append_inj {m n : Nat} {xs ys : List Char} (h : hex m ++ '}' :: xs = hex n ++ '}' :: ys) :
    m = n ∧ xs = ys := by
  have hdigits : ∀ (k : Nat) (zs : List Char),
      (hex k ++ '}' :: zs).takeWhile Char.isAlphanum = hex k := by
    intro k zs
    rw [List.takeWhile_append_of_pos fun c hc => isAlphanum_of_mem_hex hc,
      List.takeWhile_cons_of_neg (by decide), List.append_nil]
  have hmn : hex m = hex n := by rw [← hdigits m xs, h, hdigits]
  rw [hmn] at h
  exact ⟨hex_injective hmn, (List.cons.inj (List.append_cancel_left h)).2⟩

/-! ## One character -/

/-- The characters that have a short name, with the letter that follows the backslash. -/
def shortNames : List (Char × Char) :=
  [('"', '"'), ('\\', '\\'), ('\t', 't'), ('\n', 'n'), ('\r', 'r'), ('\x00', '0')]

variable (shown : Char → Bool)

theorem quotedChar_of_short {c letter : Char} (h : (c, letter) ∈ shortNames) :
    quotedChar shown c = ['\\', letter] := by
  simp only [shortNames, List.mem_cons, Prod.mk.injEq, List.not_mem_nil, or_false] at h
  rcases h with ⟨rfl, rfl⟩ | ⟨rfl, rfl⟩ | ⟨rfl, rfl⟩ | ⟨rfl, rfl⟩ | ⟨rfl, rfl⟩ | ⟨rfl, rfl⟩ <;> rfl

/-- A character is written by its short name, as itself, or as its code point. -/
theorem quotedChar_cases (c : Char) :
    (∃ letter, (c, letter) ∈ shortNames ∧ quotedChar shown c = ['\\', letter]) ∨
      (c ∉ shortNames.map Prod.fst ∧ quotedChar shown c = [c]) ∨
      quotedChar shown c = '\\' :: 'u' :: '{' :: (hex c.toNat ++ ['}']) := by
  by_cases hshort : c ∈ shortNames.map Prod.fst
  · obtain ⟨⟨_, letter⟩, hmem, rfl⟩ := List.mem_map.mp hshort
    exact .inl ⟨letter, hmem, quotedChar_of_short shown hmem⟩
  · have hname := hshort
    simp only [shortNames, List.map_cons, List.map_nil, List.mem_cons, List.not_mem_nil, or_false,
      not_or] at hname
    obtain ⟨hquote, hback, htab, hfeed, hreturn, hnull⟩ := hname
    cases hc : shown c with
    | true => exact .inr (.inl ⟨hshort, by simp [quotedChar, *]⟩)
    | false => exact .inr (.inr (by simp [quotedChar, *]))

theorem quotedChar_ne_nil (c : Char) : quotedChar shown c ≠ [] := by
  rcases quotedChar_cases shown c with ⟨_, -, hc⟩ | ⟨-, hc⟩ | hc <;> simp [hc]

theorem eq_of_letter_eq : ∀ p ∈ shortNames, ∀ q ∈ shortNames, p.2 = q.2 → p.1 = q.1 := by
  decide

theorem letter_ne_u : ∀ p ∈ shortNames, p.2 ≠ 'u' := by
  decide

variable {shown}

/-- What is written for a character shows where it ends, whatever follows. -/
theorem quotedChar_append_inj {c d : Char} {xs ys : List Char}
    (h : quotedChar shown c ++ xs = quotedChar shown d ++ ys) : c = d ∧ xs = ys := by
  have hback : '\\' ∈ shortNames.map Prod.fst := by decide
  rcases quotedChar_cases shown c with ⟨letter, hletter, hc⟩ | ⟨hplain, hc⟩ | hc <;>
    rcases quotedChar_cases shown d with ⟨letter', hletter', hd⟩ | ⟨hplain', hd⟩ | hd <;>
    rw [hc, hd] at h
  · obtain ⟨hname, hrest⟩ := List.cons.inj (List.cons.inj h).2
    exact ⟨eq_of_letter_eq _ hletter _ hletter' hname, hrest⟩
  · exact absurd ((List.cons.inj h).1 ▸ hback) hplain'
  · exact absurd (List.cons.inj (List.cons.inj h).2).1 (letter_ne_u _ hletter)
  · exact absurd ((List.cons.inj h).1 ▸ hback) hplain
  · exact List.cons.inj h
  · exact absurd ((List.cons.inj h).1 ▸ hback) hplain
  · exact absurd (List.cons.inj (List.cons.inj h).2).1.symm (letter_ne_u _ hletter')
  · exact absurd ((List.cons.inj h).1 ▸ hback) hplain'
  · -- Both are written as code points, which end with their closing braces.
    simp only [List.cons_append, List.append_assoc, List.nil_append, List.cons.injEq, true_and] at h
    obtain ⟨hcode, hrest⟩ := hex_append_inj h
    exact ⟨Char.toNat_inj.mp hcode, hrest⟩

/-! ## Whole texts -/

theorem flatMap_quotedChar_inj {cs ds : List Char}
    (h : cs.flatMap (quotedChar shown) = ds.flatMap (quotedChar shown)) : cs = ds := by
  induction cs generalizing ds with
  | nil =>
    cases ds with
    | nil => rfl
    | cons d ds => exact absurd (List.append_eq_nil_iff.mp h.symm).1 (quotedChar_ne_nil shown d)
  | cons c cs ih =>
    cases ds with
    | nil => exact absurd (List.append_eq_nil_iff.mp h).1 (quotedChar_ne_nil shown c)
    | cons d ds =>
      obtain ⟨hcd, hrest⟩ := quotedChar_append_inj h
      rw [hcd, ih hrest]

variable (shown)

theorem toList_quotedWith (s : String) :
    (quotedWith shown s).toList = '"' :: (s.toList.flatMap (quotedChar shown) ++ ['"']) := by
  rw [quotedWith, String.toList_ofList, List.cons_append]

/-- No two texts are quoted alike. -/
theorem quotedWith_injective : Function.Injective (quotedWith shown) := by
  intro s t h
  have hlist := congrArg String.toList h
  rw [toList_quotedWith, toList_quotedWith] at hlist
  exact String.toList_injective
    (flatMap_quotedChar_inj (List.append_cancel_right (List.cons.inj hlist).2))

/-! ## Quotations -/

/-- Whether a text leaves the character after it escaped: it ends with a backslash that is not
    escaped itself. -/
def escapesNext (cs : List Char) : Bool :=
  cs.foldl (fun escaped c => c == '\\' && !escaped) false

/-- A text on one line that is opened by a double quote and closed by the next double quote that is
    not escaped. -/
structure Quotation (cs : List Char) : Prop where
  no_line_feed : '\n' ∉ cs
  no_carriage_return : '\r' ∉ cs
  delimited : ∃ inner, cs = '"' :: (inner ++ ['"'])
  unescaped_iff : ∀ before after, cs = before ++ '"' :: after →
    (escapesNext before = false ↔ before = [] ∨ after = [])

theorem escapesNext_concat (cs : List Char) (c : Char) :
    escapesNext (cs ++ [c]) = (c == '\\' && !escapesNext cs) :=
  List.foldl_append

theorem escapesNext_append {cs : List Char} (h : escapesNext cs = false) (ds : List Char) :
    escapesNext (cs ++ ds) = escapesNext ds := by
  unfold escapesNext at h ⊢
  rw [List.foldl_append, h]

/-- A code point is written with letters and digits, between braces and after a backslash. -/
theorem not_mem_code {e : Char} (hletter : e.isAlphanum = false) (hmark : e ∉ ['\\', '{', '}'])
    (n : Nat) : e ∉ '\\' :: 'u' :: '{' :: (hex n ++ ['}']) := by
  have hu : e ≠ 'u' := fun h => absurd (h ▸ hletter) (by decide)
  have hhex : e ∉ hex n := fun hmem => by simp [isAlphanum_of_mem_hex hmem] at hletter
  simp only [List.mem_cons, List.not_mem_nil, or_false, not_or] at hmark
  simp [hmark, hu, hhex]

theorem lineEnd_cases {e : Char} (he : e ∈ ['\n', '\r']) : e ∈ shortNames.map Prod.fst ∧
    e ∉ ['\\', '{', '}'] ∧ e.isAlphanum = false ∧ ∀ p ∈ shortNames, e ≠ p.2 := by
  simp only [List.mem_cons, List.not_mem_nil, or_false] at he
  rcases he with rfl | rfl
  · exact ⟨by decide, by decide, by decide, by decide⟩
  · exact ⟨by decide, by decide, by decide, by decide⟩

/-- The line ends have short names, and no character is written with a line end. -/
theorem lineEnd_not_mem_quotedChar {e : Char} (he : e ∈ ['\n', '\r']) (c : Char) :
    e ∉ quotedChar shown c := by
  obtain ⟨hshort, hmark, hletter, hname⟩ := lineEnd_cases he
  rcases quotedChar_cases shown c with ⟨letter, hmem, hc⟩ | ⟨hplain, hc⟩ | hc
  · have hback : e ≠ '\\' := fun h => hmark (by simp [h])
    simp [hc, hback, hname _ hmem]
  · rw [hc, List.mem_singleton]
    exact fun h => hplain (h ▸ hshort)
  · rw [hc]
    exact not_mem_code hletter hmark c.toNat

theorem lineEnd_not_mem_quotedWith {e : Char} (he : e ∈ ['\n', '\r']) (s : String) :
    e ∉ (quotedWith shown s).toList := by
  intro hmem
  have hquote : e ≠ '"' := by rintro rfl; simp at he
  rw [toList_quotedWith] at hmem
  simp only [List.mem_cons, hquote, List.mem_append, List.not_mem_nil, or_false, false_or] at hmem
  obtain ⟨c, -, hc⟩ := List.mem_flatMap.mp hmem
  exact lineEnd_not_mem_quotedChar shown he c hc

/-- What is written for a character leaves the next one as it is. -/
theorem escapesNext_quotedChar (c : Char) : escapesNext (quotedChar shown c) = false := by
  rcases quotedChar_cases shown c with ⟨letter, -, hc⟩ | ⟨hplain, hc⟩ | hc
  · rw [hc]
    exact Bool.and_false _
  · have hback : c ≠ '\\' := fun h => hplain (by simp [h, shortNames])
    simp [hc, escapesNext, hback]
  · -- The closing brace is no backslash.
    rw [hc]
    exact escapesNext_concat ('\\' :: 'u' :: '{' :: hex c.toNat) '}'

theorem escapesNext_flatMap (cs : List Char) :
    escapesNext (cs.flatMap (quotedChar shown)) = false := by
  induction cs with
  | nil => rfl
  | cons c cs ih =>
    rw [List.flatMap_cons, escapesNext_append (escapesNext_quotedChar shown c), ih]

variable {shown}

/-- A double quote in what is written for a character is escaped. -/
theorem escapesNext_of_quotedChar {c : Char} {before after : List Char}
    (h : quotedChar shown c = before ++ '"' :: after) : escapesNext before = true := by
  rcases quotedChar_cases shown c with ⟨letter, -, hc⟩ | ⟨hplain, hc⟩ | hc
  · -- Only the letter after the backslash can be a double quote.
    rw [hc] at h
    cases before with
    | nil => cases h
    | cons b before =>
      cases before with
      | nil =>
        rw [← (List.cons.inj h).1]
        rfl
      | cons b' before => simp at h
  · have hmem : '"' ∈ [c] := hc ▸ h ▸ by simp
    exact absurd (by simp [← List.mem_singleton.mp hmem, shortNames]) hplain
  · have hmem : '"' ∈ quotedChar shown c := h ▸ by simp
    exact absurd (hc ▸ hmem) (not_mem_code (by decide) (by decide) c.toNat)

/-- A double quote among the characters of a quoted text is escaped. -/
theorem escapesNext_of_flatMap {cs before after : List Char}
    (h : cs.flatMap (quotedChar shown) = before ++ '"' :: after) : escapesNext before = true := by
  induction cs generalizing before with
  | nil => simp at h
  | cons c cs ih =>
    rw [List.flatMap_cons, List.append_eq_append_iff] at h
    rcases h with ⟨between, hbefore, hrest⟩ | ⟨between, hchar, hrest⟩
    · rw [hbefore, escapesNext_append (escapesNext_quotedChar shown c)]
      exact ih hrest
    · cases between with
      | nil =>
        have hempty : escapesNext [] = true := ih hrest.symm
        cases hempty
      | cons b between =>
        rw [← (List.cons.inj hrest).1] at hchar
        exact escapesNext_of_quotedChar hchar

variable (shown)

/-- A quoted text is one quotation, on one line. -/
theorem quotation_quotedWith (s : String) : Quotation (quotedWith shown s).toList := by
  refine ⟨lineEnd_not_mem_quotedWith shown (by simp) s, lineEnd_not_mem_quotedWith shown (by simp) s,
    ⟨_, toList_quotedWith shown s⟩, ?_⟩
  rw [toList_quotedWith]
  intro before after h
  cases before with
  | nil => simp [escapesNext]
  | cons b before =>
    rw [List.cons_append, List.cons.injEq] at h
    obtain ⟨rfl, hrest⟩ := h
    have hopening : escapesNext ['"'] = false := rfl
    rw [← List.singleton_append, escapesNext_append hopening]
    -- The double quote is the closing one exactly if nothing follows it.
    rcases List.eq_nil_or_concat after with rfl | ⟨after, last, rfl⟩
    · rw [← List.append_cancel_right hrest, escapesNext_flatMap]
      simp
    · rw [List.concat_eq_append, ← List.cons_append, ← List.append_assoc] at hrest
      rw [escapesNext_of_flatMap (List.append_inj' hrest rfl).1]
      simp

end CallFlow.Text
