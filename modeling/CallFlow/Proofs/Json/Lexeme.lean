import CallFlow.Json.Token
import CallFlow.Json.Value

/-!
# Reading lexemes back

The characters that are written for a string or a number are read back as that string or number,
whatever follows them. A string literal ends with its closing quote, so anything may follow it. A
number ends where its characters stop, so it must not be followed by a character that would go on
with it.

## Main statements

- `CallFlow.Json.StringLit.scan_escaped` — a written string is scanned as the literal
  `CallFlow.Json.StringLit.ofString`
- `CallFlow.Json.StringLit.text_ofString` — that literal stands for the string
- `CallFlow.Json.Number.scan_digitChars` — a written number is scanned as that number
-/

namespace CallFlow.Json

theorem toNat_lt_of_lt_space {c : Char} (h : c < ' ') : c.toNat < 32 :=
  UInt32.lt_iff_toNat_lt.mp h

/-! ## String literals -/

/-- The piece as which a written character is read back. A control character without a short
    escape comes back as a code. -/
def Piece.ofChar (c : Char) : Piece :=
  if c < ' ' ∧ c ∉ ['\x08', '\x0c', '\n', '\r', '\t'] then .code c.toNat else .char c

/-- The literal as which a written string is read back. -/
def StringLit.ofString (s : String) : StringLit :=
  ⟨s.toList.map Piece.ofChar, .closed⟩

theorem hexDigit?_hexDigit : ∀ n < 16, hexDigit? (hexDigit n) = some n := by
  decide

/-- The four digits that are written for a control character are read back as its code. -/
theorem hexCode?_control {c : Char} (h : c < ' ') :
    hexCode? '0' '0' (hexDigit (c.toNat / 16)) (hexDigit (c.toNat % 16)) = some c.toNat := by
  have hc := toNat_lt_of_lt_space h
  have hzero : hexDigit? '0' = some 0 := by decide
  have hhigh := hexDigit?_hexDigit (c.toNat / 16) (by omega)
  have hlow := hexDigit?_hexDigit (c.toNat % 16) (by omega)
  simp only [hexCode?, hzero, hhigh, hlow, Option.bind_eq_bind, Option.bind_some, Option.pure_def]
  congr 1
  omega

namespace StringLit

theorem scan_plain {c : Char} (hquote : c ≠ '"') (hback : c ≠ '\\') (hc : ¬c < ' ')
    (cs : List Char) : scan (c :: cs) = push (.char c) (scan cs) := by
  rw [scan.eq_def]
  split
  case h_7 heq =>
    cases heq
    rw [if_neg hc]
  all_goals simp_all

/-- What is written for one character is scanned as one piece. -/
theorem scan_escapeChar (c : Char) (cs : List Char) :
    scan (escapeChar c ++ cs) = push (.ofChar c) (scan cs) := by
  unfold escapeChar
  -- Seven characters have escapes of two characters, which are scanned by computation.
  split
  case isTrue h => subst h; rfl
  split
  case isTrue h => subst h; rfl
  split
  case isTrue h => subst h; rfl
  split
  case isTrue h => subst h; rfl
  split
  case isTrue h => subst h; rfl
  split
  case isTrue h => subst h; rfl
  split
  case isTrue h => subst h; rfl
  split
  -- The other control characters are written as codes, and everything else as it is.
  case isTrue hc =>
    simp only [List.cons_append, List.nil_append, scan, hexCode?_control hc]
    simp [Piece.ofChar, *]
  case isFalse hquote hback _ _ _ _ _ hc =>
    rw [List.singleton_append, scan_plain hquote hback hc, Piece.ofChar, if_neg (hc ·.1)]

/-- A written string is scanned up to its closing quote. -/
theorem scan_escaped (s : String) (cs : List Char) :
    scan (s.toList.flatMap escapeChar ++ '"' :: cs) = (ofString s, cs) := by
  unfold ofString
  induction s.toList with
  | nil => rfl
  | cons c _ ih =>
    rw [List.flatMap_cons, List.append_assoc, scan_escapeChar, ih]
    rfl

end StringLit

/-- A control character that was read back as a code is no surrogate. -/
theorem assemble_ofChar (c : Char) (ps : List Piece) (closing : Closing) :
    assemble (.ofChar c :: ps) closing = (assemble ps closing).map (c :: ·) := by
  unfold Piece.ofChar
  split
  case isTrue h =>
    have hc := toNat_lt_of_lt_space h.1
    have hlow : isLowSurrogate c.toNat = false := by simp [isLowSurrogate]; omega
    have hhigh : isHighSurrogate c.toNat = false := by simp [isHighSurrogate]; omega
    rw [assemble.eq_def]
    simp [hlow, hhigh]
  case isFalse => rw [assemble]

namespace StringLit

/-- The literal of a string stands for that string. -/
@[simp] theorem text_ofString (s : String) : (ofString s).text = .ok s := by
  have h : ∀ cs : List Char, assemble (cs.map Piece.ofChar) .closed = .ok cs := by
    intro cs
    induction cs with
    | nil => rfl
    | cons c cs ih => rw [List.map_cons, assemble_ofChar, ih]; rfl
  simp [text, ofString, h, Except.map]

end StringLit

/-! ## Numbers -/

/-- The decimal digits of a number, without leading zeros. -/
def decimal (n : Nat) : List (Fin 10) :=
  if n < 10 then [Fin.ofNat 10 n] else decimal (n / 10) ++ [Fin.ofNat 10 n]

/-- The characters of decimal digits. -/
def digitChars (ds : List (Fin 10)) : List Char :=
  ds.map fun d => Nat.digitChar d.val

theorem toDigits_eq_digitChars (n : Nat) : Nat.toDigits 10 n = digitChars (decimal n) := by
  fun_induction decimal n with
  | case1 n h =>
    rw [Nat.toDigits_of_lt_base h]
    exact congrArg (fun m => [Nat.digitChar m]) (Nat.mod_eq_of_lt h).symm
  | case2 n h ih =>
    rw [Nat.toDigits_of_base_le (by omega) (by omega), ih]
    rw [digitChars, digitChars, List.map_append]
    rfl

theorem digitsValue_append (ds : List (Fin 10)) (d : Fin 10) :
    digitsValue (ds ++ [d]) = 10 * digitsValue ds + d.val := by
  simp [digitsValue, List.foldl_append]

@[simp] theorem digitsValue_decimal (n : Nat) : digitsValue (decimal n) = n := by
  fun_induction decimal n with
  | case1 n h => exact (Nat.zero_add _).trans (Nat.mod_eq_of_lt h)
  | case2 n h ih =>
    rw [digitsValue_append, ih]
    exact Nat.div_add_mod n 10

theorem decimal_ne_nil (n : Nat) : decimal n ≠ [] := by
  rw [decimal]
  split <;> simp

/-- Only zero itself is written with a leading zero. -/
theorem eq_nil_of_decimal_eq_zero_cons {n : Nat} {ds : List (Fin 10)} (h : decimal n = 0 :: ds) :
    ds = [] := by
  fun_induction decimal n generalizing ds with
  | case1 n _ => exact (List.cons.inj h).2.symm
  | case2 n hn ih =>
    obtain ⟨d, es, hes⟩ := List.exists_cons_of_ne_nil (decimal_ne_nil (n / 10))
    rw [hes, List.cons_append, List.cons.injEq] at h
    obtain ⟨rfl, -⟩ := h
    -- The leading digit is that of `n / 10`, which would have to be zero by induction.
    have hzero : n / 10 = 0 := by
      rw [← digitsValue_decimal (n / 10), hes, ih hes]
      rfl
    omega

theorem digit?_digitChar (d : Fin 10) : digit? (Nat.digitChar d.val) = some d := by
  revert d
  decide

/-- A text that does not begin with a digit. -/
def NoDigit (cs : List Char) : Prop :=
  ∀ c ∈ cs.head?, digit? c = none

/-- Written digits are read back up to a character that is no digit. -/
theorem digits_digitChars (ds : List (Fin 10)) {cs : List Char} (h : NoDigit cs) :
    digits (digitChars ds ++ cs) = (ds, cs) := by
  induction ds with
  | nil =>
    cases cs with
    | nil => rfl
    | cons c cs =>
      rw [digitChars, List.map_nil, List.nil_append, digits, h c rfl]
  | cons d ds ih =>
    change digits (Nat.digitChar d.val :: (digitChars ds ++ cs)) = _
    rw [digits, digit?_digitChar, ih]

namespace Number

/-- A point and the digits of a fraction, if there are any. -/
def fractionChars (ds : List (Fin 10)) : List Char :=
  if ds = [] then [] else '.' :: digitChars ds

/-- An exponent with its mark, if there is one. -/
def exponentChars : Option Int → List Char
  | none => []
  | some e => 'e' :: (if e < 0 then ['-'] else []) ++ digitChars (decimal e.natAbs)

/-- A written number, part by part. -/
theorem renderNumber_eq (n : Number) :
    renderNumber n =
      (if n.negative then ['-'] else []) ++ (digitChars (decimal n.whole) ++
        (fractionChars n.fraction ++ exponentChars n.exponent)) := by
  obtain ⟨negative, whole, fraction, exponent⟩ := n
  cases fraction <;> cases exponent <;>
    simp [renderNumber, fractionChars, exponentChars, toDigits_eq_digitChars, digitChars]

/-- A text before which a number ends: it does not begin with a character that would go on with
    the number. -/
def Ends (cs : List Char) : Prop :=
  ∀ c ∈ cs.head?, digit? c = none ∧ c ≠ '.' ∧ c ≠ 'e' ∧ c ≠ 'E'

theorem Ends.noDigit {cs : List Char} (h : Ends cs) : NoDigit cs :=
  fun c hc => (h c hc).1

theorem ends_nil : Ends [] := by
  intro c hc
  cases hc

theorem ends_cons {c : Char} {cs : List Char}
    (h : digit? c = none ∧ c ≠ '.' ∧ c ≠ 'e' ∧ c ≠ 'E') : Ends (c :: cs) := by
  intro c' hc'
  cases hc'
  exact h

theorem scanSign_digitChars {ds : List (Fin 10)} (h : ds ≠ []) (cs : List Char) :
    scanSign (digitChars ds ++ cs) = (false, digitChars ds ++ cs) := by
  obtain ⟨d, ds, rfl⟩ := List.exists_cons_of_ne_nil h
  have hd := digit?_digitChar d
  change scanSign (Nat.digitChar d.val :: (digitChars ds ++ cs)) = _
  unfold scanSign
  split
  · simp_all [digit?]
  · simp_all [digit?]
  · rfl

theorem scanPower_of_digits {cs rest : List Char} {ds : List (Fin 10)}
    (h : digits (scanSign cs).2 = (ds, rest)) (hne : ds ≠ []) :
    scanPower cs =
      .ok (if (scanSign cs).1 then -(digitsValue ds : Int) else digitsValue ds, rest) := by
  unfold scanPower
  rw [h]
  cases ds with
  | nil => exact absurd rfl hne
  | cons d ds => rfl

/-- A written exponent is read back after its mark. -/
theorem scanPower_digitChars (e : Int) {cs : List Char} (h : NoDigit cs) :
    scanPower ((if e < 0 then ['-'] else []) ++ (digitChars (decimal e.natAbs) ++ cs)) =
      .ok (e, cs) := by
  have hdigits := digits_digitChars (decimal e.natAbs) h
  have hne := decimal_ne_nil e.natAbs
  by_cases he : e < 0
  · rw [if_pos he]
    have hsign : scanSign (['-'] ++ (digitChars (decimal e.natAbs) ++ cs)) =
        (true, digitChars (decimal e.natAbs) ++ cs) := rfl
    rw [scanPower_of_digits (by rw [hsign]; exact hdigits) hne, hsign, digitsValue_decimal,
      if_pos rfl, Int.ofNat_natAbs_of_nonpos (by omega), Int.neg_neg]
  · rw [if_neg he, List.nil_append]
    have hsign := scanSign_digitChars hne cs
    rw [scanPower_of_digits (by rw [hsign]; exact hdigits) hne, hsign, digitsValue_decimal,
      if_neg Bool.false_ne_true, Int.natAbs_of_nonneg (by omega)]

theorem scanExponent_exponentChars (e : Option Int) {cs : List Char} (h : Ends cs) :
    scanExponent (exponentChars e ++ cs) = .ok (e, cs) := by
  cases e with
  | none =>
    rw [exponentChars, List.nil_append]
    unfold scanExponent
    split
    · exact absurd rfl (h 'e' rfl).2.2.1
    · exact absurd rfl (h 'E' rfl).2.2.2
    · rfl
  | some e =>
    have hpower := scanPower_digitChars e h.noDigit
    simp only [exponentChars, List.cons_append, List.append_assoc, scanExponent, hpower]
    rfl

theorem scanFraction_fractionChars (ds : List (Fin 10)) {cs : List Char} (h : NoDigit cs)
    (hpoint : '.' ∉ cs.head?) : scanFraction (fractionChars ds ++ cs) = .ok (ds, cs) := by
  cases ds with
  | nil =>
    rw [fractionChars, if_pos rfl, List.nil_append]
    unfold scanFraction
    split
    · exact absurd rfl hpoint
    · rfl
  | cons d ds =>
    have hdigits := digits_digitChars (d :: ds) h
    simp only [fractionChars, List.cons_append, scanFraction, hdigits, reduceCtorEq, if_false]

/-- What follows the fraction of a written number begins neither with a digit nor with a point. -/
theorem head_exponentChars (e : Option Int) {cs : List Char} (h : Ends cs) :
    ∀ c ∈ (exponentChars e ++ cs).head?, digit? c = none ∧ c ≠ '.' := by
  intro c hc
  cases e with
  | none => exact ⟨(h c hc).1, (h c hc).2.1⟩
  | some e =>
    cases hc
    decide

/-- What follows the whole part of a written number does not begin with a digit. -/
theorem noDigit_fractionChars (ds : List (Fin 10)) {cs : List Char} (h : NoDigit cs) :
    NoDigit (fractionChars ds ++ cs) := by
  cases ds with
  | nil => exact h
  | cons d ds =>
    intro c hc
    cases hc
    decide

/-- A written number is read back after its sign. -/
theorem scan_digitChars (n : Number) {cs : List Char} (h : Ends cs) :
    scan n.negative (digitChars (decimal n.whole) ++
      (fractionChars n.fraction ++ (exponentChars n.exponent ++ cs))) = .ok (n, cs) := by
  have hhead := head_exponentChars n.exponent h
  have hnoDigit : NoDigit (exponentChars n.exponent ++ cs) := fun c hc => (hhead c hc).1
  have hpoint : '.' ∉ (exponentChars n.exponent ++ cs).head? := fun hc => (hhead _ hc).2 rfl
  obtain ⟨d, ds, hds⟩ := List.exists_cons_of_ne_nil (decimal_ne_nil n.whole)
  have hwhole := digits_digitChars (decimal n.whole) (noDigit_fractionChars n.fraction hnoDigit)
  have hzero : ¬(d = 0 ∧ ds ≠ []) := by
    rintro ⟨rfl, hne⟩
    exact hne (eq_nil_of_decimal_eq_zero_cons hds)
  rw [scan, hwhole, hds]
  simp only [if_neg hzero, scanFraction_fractionChars n.fraction hnoDigit hpoint,
    scanExponent_exponentChars n.exponent h, bind, Except.bind, pure, Except.pure]
  rw [← hds, digitsValue_decimal]

end Number

end CallFlow.Json
