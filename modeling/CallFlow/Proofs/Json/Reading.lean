import CallFlow.Json.Draft
import CallFlow.Proofs.Json.Lexeme

/-!
# Reading values back

The text of a JSON value is cut into the tokens of the value, whichever style it is written in: the
two styles differ in blanks only. The tokens of a value are put together to its draft, which has no
defect.

## Main statements

- `CallFlow.Json.all_render` — the tokens of a written value
- `CallFlow.Json.outcome_readValue` — the draft of the tokens of a value
- `CallFlow.Json.isText_render` — the texts in which a value is written are texts of it
- `CallFlow.Json.ofText_of_isText` — the draft of a text of a value
-/

namespace CallFlow.Json

mutual

/-- The tokens of a value. -/
def tokens : Json → List Token
  | null => [.null]
  | bool b => [.bool b]
  | number n => [.number n]
  | string s => [.string (.ofString s)]
  | array [] => [.openArray, .closeArray]
  | array (j :: js) => .openArray :: (tokens j ++ itemTokens js)
  | object [] => [.openObject, .closeObject]
  | object ((k, v) :: ms) =>
    .openObject :: .string (.ofString k) :: .colon :: (tokens v ++ memberTokens ms)

/-- The tokens of the items of an array after its first, and of its closing bracket. -/
def itemTokens : List Json → List Token
  | [] => [.closeArray]
  | j :: js => .comma :: (tokens j ++ itemTokens js)

/-- The tokens of the members of an object after its first, and of its closing bracket. -/
def memberTokens : List (String × Json) → List Token
  | [] => [.closeObject]
  | (k, v) :: ms => .comma :: .string (.ofString k) :: .colon :: (tokens v ++ memberTokens ms)

end

/-! ## From texts to tokens -/

namespace Token

theorem all_eq_cons {cs rest : List Char} {t : Token} (h : next? cs = some (t, rest)) :
    all cs = t :: all rest := by
  rw [all.eq_def]
  split
  · simp_all
  · simp_all

theorem all_nil : all [] = [] := by
  rw [all.eq_def]
  rfl

theorem all_start {c : Char} (hc : isSpace c = false) (cs : List Char) :
    all (c :: cs) = (start c cs).1 :: all (start c cs).2 := by
  refine all_eq_cons ?_
  rw [next?, List.dropWhile_cons_of_neg (by simp [hc])]

theorem all_space {c : Char} (hc : isSpace c = true) (cs : List Char) :
    all (c :: cs) = all cs := by
  have hnext : next? (c :: cs) = next? cs := by
    rw [next?, next?, List.dropWhile_cons_of_pos hc]
  cases h : next? cs with
  | none =>
    rw [all.eq_def, all.eq_def cs]
    split <;> split <;> simp_all
  | some r => rw [all_eq_cons (hnext.trans h), all_eq_cons h]

theorem all_lineBreak (style : Style) (level : Nat) (cs : List Char) :
    all (style.lineBreak level ++ cs) = all cs := by
  cases style with
  | compact => rfl
  | indented =>
    rw [Style.lineBreak, List.cons_append, all_space (by decide)]
    induction 2 * level with
    | zero => rfl
    | succ n ih => rw [List.replicate_succ, List.cons_append, all_space (by decide), ih]

theorem all_colon (style : Style) (cs : List Char) :
    all (style.colon ++ cs) = .colon :: all cs := by
  cases style with
  | compact => exact all_start (by decide) cs
  | indented =>
    rw [Style.colon, List.cons_append, all_start (by decide)]
    exact congrArg _ (all_space (by decide) cs)

theorem all_renderString (s : String) (cs : List Char) :
    all (renderString s ++ cs) = .string (.ofString s) :: all cs := by
  rw [renderString, List.append_assoc, List.cons_append, all_start (by decide)]
  simp only [start, List.singleton_append, StringLit.scan_escaped]

theorem numeral_number (n : Number) {cs : List Char} (h : Number.Ends cs) :
    numeral n.negative (digitChars (decimal n.whole) ++ (Number.fractionChars n.fraction ++
      (Number.exponentChars n.exponent ++ cs))) = (.number n, cs) := by
  rw [numeral, Number.scan_digitChars n h]

theorem start_digit {c : Char} (h : (digit? c).isSome) (cs : List Char) :
    start c cs = numeral false (c :: cs) := by
  unfold start
  split
  case h_12 => rw [if_pos h]
  all_goals exact absurd h (by decide)

theorem isSpace_digitChar (d : Fin 10) : isSpace (Nat.digitChar d.val) = false := by
  revert d
  decide

theorem all_renderNumber (n : Number) {cs : List Char} (h : Number.Ends cs) :
    all (renderNumber n ++ cs) = .number n :: all cs := by
  have hnumeral := numeral_number n h
  rw [Number.renderNumber_eq]
  simp only [List.append_assoc]
  cases hn : n.negative with
  | true =>
    rw [if_pos rfl, List.singleton_append, all_start (by decide), start, ← hn, hnumeral]
  | false =>
    rw [hn] at hnumeral
    rw [if_neg Bool.false_ne_true, List.nil_append]
    -- Without a sign, the first digit tells that a number begins.
    obtain ⟨d, ds, hds⟩ := List.exists_cons_of_ne_nil (decimal_ne_nil n.whole)
    rw [hds] at hnumeral ⊢
    change all (Nat.digitChar d.val :: _) = _
    rw [all_start (isSpace_digitChar d), start_digit (by simp [digit?_digitChar])]
    exact congrArg (fun r : Token × List Char => r.1 :: all r.2) hnumeral

end Token

theorem ends_renderItems (style : Style) (level : Nat) (js : List Json) (cs : List Char) :
    Number.Ends (renderItems style level js ++ cs) := by
  cases js with
  | nil => cases style <;> exact Number.ends_cons (by decide)
  | cons => exact Number.ends_cons (by decide)

theorem ends_renderMembers (style : Style) (level : Nat) (ms : List (String × Json))
    (cs : List Char) : Number.Ends (renderMembers style level ms ++ cs) := by
  cases ms with
  | nil => cases style <;> exact Number.ends_cons (by decide)
  | cons => exact Number.ends_cons (by decide)

mutual

/-- A written value is cut into its tokens. -/
theorem all_render (style : Style) (level : Nat) (j : Json) (cs : List Char)
    (h : Number.Ends cs) : Token.all (render style level j ++ cs) = j.tokens ++ Token.all cs := by
  -- A number ends before whatever may follow it, so the rest has to be known not to go on with it.
  match j with
  | null => exact Token.all_start (by decide) _
  | bool true => exact Token.all_start (by decide) _
  | bool false => exact Token.all_start (by decide) _
  | number n => rw [render, tokens]; exact Token.all_renderNumber n h
  | string s => rw [render, tokens]; exact Token.all_renderString s cs
  | array [] =>
    rw [render, tokens, List.cons_append, Token.all_start (by decide)]
    exact congrArg _ (Token.all_start (by decide) cs)
  | array (j :: js) =>
    have hj := all_render style (level + 1) j _ (ends_renderItems style level js cs)
    have hjs := all_renderItems style level js cs
    simp only [render, tokens, List.cons_append, List.append_assoc]
    rw [Token.all_start (by decide)]
    simp only [Token.start, Token.all_lineBreak, hj, hjs]
  | object [] =>
    rw [render, tokens, List.cons_append, Token.all_start (by decide)]
    exact congrArg _ (Token.all_start (by decide) cs)
  | object ((k, v) :: ms) =>
    have hv := all_render style (level + 1) v _ (ends_renderMembers style level ms cs)
    have hms := all_renderMembers style level ms cs
    simp only [render, tokens, List.cons_append, List.append_assoc]
    rw [Token.all_start (by decide)]
    simp only [Token.start, Token.all_lineBreak, Token.all_renderString, Token.all_colon, hv, hms]

theorem all_renderItems (style : Style) (level : Nat) (js : List Json) (cs : List Char) :
    Token.all (renderItems style level js ++ cs) = itemTokens js ++ Token.all cs := by
  match js with
  | [] =>
    rw [renderItems, itemTokens, List.append_assoc, Token.all_lineBreak]
    exact Token.all_start (by decide) cs
  | j :: js =>
    have hj := all_render style (level + 1) j _ (ends_renderItems style level js cs)
    have hjs := all_renderItems style level js cs
    simp only [renderItems, itemTokens, List.cons_append, List.append_assoc]
    rw [Token.all_start (by decide)]
    simp only [Token.start, Token.all_lineBreak, hj, hjs]

theorem all_renderMembers (style : Style) (level : Nat) (ms : List (String × Json))
    (cs : List Char) :
    Token.all (renderMembers style level ms ++ cs) = memberTokens ms ++ Token.all cs := by
  match ms with
  | [] =>
    rw [renderMembers, memberTokens, List.append_assoc, Token.all_lineBreak]
    exact Token.all_start (by decide) cs
  | (k, v) :: ms =>
    have hv := all_render style (level + 1) v _ (ends_renderMembers style level ms cs)
    have hms := all_renderMembers style level ms cs
    simp only [renderMembers, memberTokens, List.cons_append, List.append_assoc]
    rw [Token.all_start (by decide)]
    simp only [Token.start, Token.all_lineBreak, Token.all_renderString, Token.all_colon, hv, hms]

end

/-! ## From tokens to drafts -/

/-- What was read, and the tokens after it. -/
def Reading.outcome {α : Type} {ts : List Token} (r : Reading α ts) : α × List Token :=
  (r.got, r.rest)

namespace Draft

theorem readValue_openArray {u : Token} (hu : u ≠ .closeArray) (us : List Token) :
    (readValue .openArray (u :: us)).outcome =
      (.array (readItems u us).got.1 (readItems u us).got.2, (readItems u us).rest) := by
  rw [readValue]
  · rfl
  · exact hu

theorem readValue_openObject {u : Token} (hu : u ≠ .closeObject) (us : List Token) :
    (readValue .openObject (u :: us)).outcome =
      (.object (readMembers u us).got.1 (readMembers u us).got.2, (readMembers u us).rest) := by
  rw [readValue]
  · rfl
  · exact hu

theorem readItems_closed {t : Token} {ts us : List Token} {d : Draft}
    (h : (readValue t ts).outcome = (d, .closeArray :: us)) :
    (readItems t ts).outcome = (([d], .closed), us) := by
  obtain ⟨rfl, hrest⟩ := Prod.mk.inj h
  -- The reader looks at the rest inside a dependent match, so the rest cannot be rewritten there.
  rw [readItems.eq_def t ts]
  dsimp only
  split
  case h_2 heq => cases hrest.symm.trans heq; rfl
  all_goals simp_all

theorem readItems_comma {t u : Token} {ts us : List Token} {d : Draft} (hu : u ≠ .closeArray)
    (h : (readValue t ts).outcome = (d, .comma :: u :: us)) :
    (readItems t ts).outcome =
      ((d :: (readItems u us).got.1, (readItems u us).got.2), (readItems u us).rest) := by
  obtain ⟨rfl, hrest⟩ := Prod.mk.inj h
  rw [readItems.eq_def t ts]
  dsimp only
  split
  case h_5 heq => cases hrest.symm.trans heq; rfl
  all_goals simp_all

theorem readMembers_closed {k : StringLit} {v : Token} {vs us : List Token} {d : Draft}
    (h : (readValue v vs).outcome = (d, .closeObject :: us)) :
    (readMembers (.string k) (.colon :: v :: vs)).outcome = (([(k, d)], .closed), us) := by
  obtain ⟨rfl, hrest⟩ := Prod.mk.inj h
  simp only [readMembers]
  split
  case h_2 heq => cases hrest.symm.trans heq; rfl
  all_goals simp_all

theorem readMembers_comma {k : StringLit} {v u : Token} {vs us : List Token} {d : Draft}
    (hu : u ≠ .closeObject) (h : (readValue v vs).outcome = (d, .comma :: u :: us)) :
    (readMembers (.string k) (.colon :: v :: vs)).outcome =
      (((k, d) :: (readMembers u us).got.1, (readMembers u us).got.2),
        (readMembers u us).rest) := by
  obtain ⟨rfl, hrest⟩ := Prod.mk.inj h
  simp only [readMembers]
  split
  case h_5 heq => cases hrest.symm.trans heq; rfl
  all_goals simp_all

end Draft

mutual

/-- The draft of a value, which has no defect. -/
def draft : Json → Draft
  | null => .null
  | bool b => .bool b
  | number n => .number n
  | string s => .string (.ofString s)
  | array items => .array (itemDrafts items) .closed
  | object members => .object (memberDrafts members) .closed

/-- The drafts of the items of an array. -/
def itemDrafts : List Json → List Draft
  | [] => []
  | j :: js => j.draft :: itemDrafts js

/-- The drafts of the members of an object. -/
def memberDrafts : List (String × Json) → List (StringLit × Draft)
  | [] => []
  | (k, v) :: ms => (.ofString k, v.draft) :: memberDrafts ms

end

theorem itemDrafts_eq_map (js : List Json) : itemDrafts js = js.map draft := by
  induction js with
  | nil => rfl
  | cons j js ih => rw [itemDrafts, ih, List.map_cons]

/-- The tokens of a value begin with one that closes no array. -/
theorem tokens_eq_cons (j : Json) : ∃ t ts, j.tokens = t :: ts ∧ t ≠ .closeArray := by
  cases j with
  | array js => cases js <;> simp [tokens]
  | object ms => rcases ms with _ | ⟨⟨k, v⟩, ms⟩ <;> simp [tokens]
  | _ => simp [tokens]

open Draft

mutual

/-- The tokens of a value are put together to its draft. -/
theorem outcome_readValue (j : Json) {t : Token} {ts : List Token} (h : j.tokens = t :: ts)
    (rest : List Token) : (readValue t (ts ++ rest)).outcome = (j.draft, rest) := by
  match j with
  | null => cases h; simp [readValue, draft, Reading.outcome]
  | bool b => cases h; simp [readValue, draft, Reading.outcome]
  | number n => cases h; simp [readValue, draft, Reading.outcome]
  | string s => cases h; simp [readValue, draft, Reading.outcome]
  | array [] => cases h; simp [readValue, draft, itemDrafts, Reading.outcome]
  | object [] => cases h; simp [readValue, draft, memberDrafts, Reading.outcome]
  | array (j :: js) =>
    obtain ⟨u, us, hus, hu⟩ := tokens_eq_cons j
    rw [tokens, hus] at h
    cases h
    have hitems := outcome_readItems j js hus rest
    obtain ⟨hgot, hrest⟩ := Prod.mk.inj hitems
    rw [List.cons_append, List.cons_append, List.append_assoc, readValue_openArray hu, hgot,
      hrest, draft, itemDrafts]
  | object ((k, v) :: ms) =>
    rw [tokens] at h
    cases h
    have hmembers := outcome_readMembers k v ms rest
    obtain ⟨hgot, hrest⟩ := Prod.mk.inj hmembers
    rw [List.cons_append, List.cons_append, List.append_assoc, readValue_openObject (by simp),
      hgot, hrest, draft, memberDrafts]
termination_by sizeOf j

theorem outcome_readItems (j : Json) (js : List Json) {t : Token} {ts : List Token}
    (h : j.tokens = t :: ts) (rest : List Token) :
    (readItems t (ts ++ (itemTokens js ++ rest))).outcome =
      ((j.draft :: itemDrafts js, .closed), rest) := by
  have hj := outcome_readValue j h (itemTokens js ++ rest)
  match js with
  | [] =>
    rw [itemTokens] at hj ⊢
    rw [readItems_closed hj, itemDrafts]
    rfl
  | j' :: js =>
    obtain ⟨u, us, hus, hu⟩ := tokens_eq_cons j'
    have hitems := outcome_readItems j' js hus rest
    obtain ⟨hgot, hrest⟩ := Prod.mk.inj hitems
    rw [itemTokens, hus, List.cons_append, List.cons_append, List.cons_append,
      List.append_assoc] at hj ⊢
    rw [readItems_comma hu hj, hgot, hrest, itemDrafts]
termination_by sizeOf j + sizeOf js + 1

theorem outcome_readMembers (k : String) (v : Json) (ms : List (String × Json))
    (rest : List Token) :
    (readMembers (.string (.ofString k))
        (.colon :: (v.tokens ++ (memberTokens ms ++ rest)))).outcome =
      (((.ofString k, v.draft) :: memberDrafts ms, .closed), rest) := by
  obtain ⟨u, us, hus, -⟩ := tokens_eq_cons v
  have hv := outcome_readValue v hus (memberTokens ms ++ rest)
  rw [hus]
  match ms with
  | [] =>
    rw [memberTokens] at hv ⊢
    rw [List.cons_append, readMembers_closed hv, memberDrafts]
    rfl
  | (k', v') :: ms =>
    have hmembers := outcome_readMembers k' v' ms rest
    obtain ⟨hgot, hrest⟩ := Prod.mk.inj hmembers
    rw [memberTokens, List.cons_append, List.cons_append, List.cons_append,
      List.append_assoc] at hv
    rw [memberTokens, List.cons_append, List.cons_append, List.cons_append, List.cons_append,
      List.append_assoc, readMembers_comma (by simp) hv, hgot, hrest, memberDrafts]
termination_by sizeOf v + sizeOf ms + 1

end

theorem ofTokens_tokens (j : Json) (rest : List Token) :
    ofTokens (j.tokens ++ rest) = (j.draft, rest) := by
  obtain ⟨t, ts, hts, -⟩ := tokens_eq_cons j
  rw [hts]
  exact outcome_readValue j hts rest

/-- The text is cut into the tokens of the value: blanks between them do not matter. -/
def IsText (j : Json) (text : String) : Prop :=
  Token.all text.toList = j.tokens

theorem isText_render (style : Style) (j : Json) :
    j.IsText (String.ofList (render style 0 j)) := by
  have hall := all_render style 0 j [] Number.ends_nil
  rw [List.append_nil, Token.all_nil, List.append_nil] at hall
  rw [IsText, String.toList_ofList, hall]

theorem ofText_of_isText {j : Json} {text : String} (h : j.IsText text) :
    ofText text = (j.draft, []) := by
  have htokens := ofTokens_tokens j []
  rwa [List.append_nil, ← h] at htokens

/-- The text of a value without blanks has the draft of the value. -/
theorem ofText_compact (j : Json) : ofText j.compact = (j.draft, []) :=
  ofText_of_isText (isText_render .compact j)

/-! ## From drafts to values -/

mutual

/-- Whether the numbers of a value are in range and at most `room` of its arrays and objects stand
    inside each other. -/
def Fits (room : Nat) : Json → Prop
  | null => True
  | bool _ => True
  | number n => ∃ v, n.value = .ok v
  | string _ => True
  | array items => 0 < room ∧ ItemsFit (room - 1) items
  | object members => 0 < room ∧ MembersFit (room - 1) members

/-- Whether the items of an array fit. -/
def ItemsFit (room : Nat) : List Json → Prop
  | [] => True
  | j :: js => j.Fits room ∧ ItemsFit room js

/-- Whether the members of an object fit. -/
def MembersFit (room : Nat) : List (String × Json) → Prop
  | [] => True
  | (_, v) :: ms => v.Fits room ∧ MembersFit room ms

end

theorem itemsFit_iff {room : Nat} {js : List Json} : ItemsFit room js ↔ ∀ j ∈ js, j.Fits room := by
  induction js with
  | nil => simp [ItemsFit]
  | cons j js ih => simp [ItemsFit, ih]

mutual

/-- A value that fits is taken whole from its draft. -/
theorem value_draft {room : Nat} (j : Json) (h : j.Fits room) : j.draft.value room = .ok j := by
  match j with
  | null => rfl
  | bool b => rfl
  | number n =>
    rw [Fits] at h
    obtain ⟨v, hv⟩ := h
    rw [draft, Draft.value, hv]
    rfl
  | string s =>
    rw [draft, Draft.value, StringLit.text_ofString]
    rfl
  | array items =>
    rw [Fits] at h
    obtain ⟨room, rfl⟩ := Nat.exists_eq_succ_of_ne_zero (Nat.ne_of_gt h.1)
    have hitems : itemValues room (itemDrafts items) = .ok items := itemValues_itemDrafts items h.2
    rw [draft, Draft.value, hitems]
    rfl
  | object members =>
    rw [Fits] at h
    obtain ⟨room, rfl⟩ := Nat.exists_eq_succ_of_ne_zero (Nat.ne_of_gt h.1)
    have hmembers : memberValues room (memberDrafts members) = .ok members :=
      memberValues_memberDrafts members h.2
    rw [draft, Draft.value, hmembers]
    rfl

theorem itemValues_itemDrafts {room : Nat} (js : List Json) (h : ItemsFit room js) :
    itemValues room (itemDrafts js) = .ok js := by
  match js with
  | [] => rfl
  | j :: js =>
    rw [ItemsFit] at h
    rw [itemDrafts, itemValues, value_draft j h.1, itemValues_itemDrafts js h.2]
    rfl

theorem memberValues_memberDrafts {room : Nat} (ms : List (String × Json))
    (h : MembersFit room ms) : memberValues room (memberDrafts ms) = .ok ms := by
  match ms with
  | [] => rfl
  | (k, v) :: ms =>
    rw [MembersFit] at h
    rw [memberDrafts, memberValues, StringLit.text_ofString, value_draft v h.1,
      memberValues_memberDrafts ms h.2]
    rfl

end

end CallFlow.Json
