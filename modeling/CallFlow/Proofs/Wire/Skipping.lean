import CallFlow.Proofs.Wire.Record
import CallFlow.Wire.Endpoint

/-!
# What can be read can be skipped

Skipping a value asks for less than reading it part by part: numbers may be out of range, surrogates
unpaired, and nothing in particular is expected anywhere. So what one reader accepts can be skipped by
another one that does not know it.

This is shown for each reader from the readers of the parts. A reader goes through all of a value, since
the parts that it does not know are skipped.

## Main definitions

- `CallFlow.Wire.ReadsWhole` — a reader of values that can also be skipped

## Main statements

- `CallFlow.Wire.Layout.readsWhole` — records, from their fields
- `CallFlow.Wire.readsWhole_endpoint` — endpoints
-/

namespace CallFlow

open Wire (bind_eq_ok map_eq_ok)

/-! ## Parts of a value -/

namespace Json

/-- A literal that stands for a text has its closing quote. -/
theorem check_of_assemble {ps : List Piece} {closing : Closing} {cs : List Char}
    (h : assemble ps closing = .ok cs) : closing.check = .ok () := by
  fun_induction assemble ps closing generalizing cs with
  | case1 closing =>
    obtain ⟨_, hcheck, -⟩ := map_eq_ok.mp h
    exact hcheck
  | case2 c ps closing ih =>
    obtain ⟨_, hrest, -⟩ := map_eq_ok.mp h
    exact ih hrest
  | case3 => cases h
  | case4 => cases h
  | case5 => cases h
  | case6 n closing _ _ m ps _ ih =>
    obtain ⟨_, hrest, -⟩ := map_eq_ok.mp h
    exact ih hrest
  | case7 => cases h
  | case8 n ps closing _ _ ih =>
    obtain ⟨_, hrest, -⟩ := map_eq_ok.mp h
    exact ih hrest

theorem StringLit.skip_of_text {s : StringLit} {t : String} (h : s.text = .ok t) :
    s.skip = .ok () := by
  obtain ⟨cs, hcs, -⟩ := map_eq_ok.mp h
  exact check_of_assemble hcs

theorem ArrayStop.skip_of_check {stop : ArrayStop} (h : stop.check = .ok ()) :
    stop.skip = .ok () := by
  cases stop with
  | closed => rfl
  | _ => cases h

theorem ArrayStop.skip_of_checkFull {stop : ArrayStop} (h : stop.checkFull = .ok ()) :
    stop.skip = .ok () := by
  cases stop with
  | closed => rfl
  | _ => cases h

theorem ObjectStop.skip_of_check {stop : ObjectStop} (h : stop.check = .ok ()) :
    stop.skip = .ok () := by
  cases stop with
  | closed => rfl
  | _ => cases h

namespace Draft

theorem skip_array {items : List Draft} {stop : ArrayStop} (hitems : skipItems items = .ok ())
    (hstop : stop.skip = .ok ()) : (array items stop).skip = .ok () := by
  rw [skip, hitems]
  exact hstop

theorem skip_object {members : List (StringLit × Draft)} {stop : ObjectStop}
    (hmembers : skipMembers members = .ok ()) (hstop : stop.skip = .ok ()) :
    (object members stop).skip = .ok () := by
  rw [skip, hmembers]
  exact hstop

theorem skipItems_cons {d : Draft} {ds : List Draft} (hd : d.skip = .ok ())
    (hds : skipItems ds = .ok ()) : skipItems (d :: ds) = .ok () := by
  rw [skipItems, hd]
  exact hds

theorem skipMembers_cons {k : StringLit} {v : Draft} {ms : List (StringLit × Draft)}
    (hk : k.skip = .ok ()) (hv : v.skip = .ok ()) (hms : skipMembers ms = .ok ()) :
    skipMembers ((k, v) :: ms) = .ok () := by
  rw [skipMembers, hk, hv]
  exact hms

end Draft

end Json

/-! ## Readers -/

namespace Wire

open Json (Draft StringLit ArrayStop ObjectStop)

/-- What the reader accepts can also be skipped. -/
def ReadsWhole {α : Type} (read : Draft → Except ReadError α) : Prop :=
  ∀ d a, read d = .ok a → d.skip = .ok ()

theorem malformed_eq_ok {α : Type} {r : Except Json.Fault α} {a : α} :
    malformed r = .ok a ↔ r = .ok a := by
  cases r with
  | ok b => simp only [malformed_ok, Except.ok.injEq]
  | error f => exact iff_of_false (fun h => by cases h) fun h => by cases h

section Readers

variable {α β : Type} {read : Draft → Except ReadError α}

theorem ReadsWhole.map (h : ReadsWhole read) (f : α → β) : ReadsWhole fun d => (read d).map f := by
  intro d b hb
  obtain ⟨a, ha, -⟩ := map_eq_ok.mp hb
  exact h d a ha

theorem readsWhole_readText : ReadsWhole readText := by
  intro d t h
  cases d with
  | string s => exact StringLit.skip_of_text (malformed_eq_ok.mp h)
  | _ => cases h

theorem ReadsWhole.optional (h : ReadsWhole read) : ReadsWhole (readOptional read) := by
  intro d a ha
  cases d with
  | null => rfl
  | _ => exact h.map some _ a ha

theorem ReadsWhole.skipItems (h : ReadsWhole read) {items : List Draft} {as : List α}
    (has : items.mapM read = .ok as) : Draft.skipItems items = .ok () := by
  rw [mapM_eq_ok_iff] at has
  induction has with
  | nil => rfl
  | cons hread _ ih => exact Draft.skipItems_cons (h _ _ hread) ih

theorem ReadsWhole.list (h : ReadsWhole read) : ReadsWhole (readList read) := by
  intro d as has
  cases d with
  | array items stop =>
    obtain ⟨as, hitems, has⟩ := bind_eq_ok.mp has
    obtain ⟨_, hstop, -⟩ := bind_eq_ok.mp has
    exact Draft.skip_array (h.skipItems hitems)
      (ArrayStop.skip_of_check (malformed_eq_ok.mp hstop))
  | _ => cases has

end Readers

/-! ## Records -/

namespace Layout

variable {α : Type} {l : Layout α}

theorem skipMembers_of_readMembers (hfields : ∀ f ∈ l.fields, ∀ a, ReadsWhole (f.read · a))
    {members : List (StringLit × Draft)} {a : α} {met : List String} {result : α × List String}
    (h : l.readMembers members a met = .ok result) : Draft.skipMembers members = .ok () := by
  induction members generalizing a met with
  | nil => rfl
  | cons m members ih =>
    obtain ⟨k, v⟩ := m
    rw [readMembers] at h
    obtain ⟨name, hname, h⟩ := bind_eq_ok.mp h
    have hkey := StringLit.skip_of_text (malformed_eq_ok.mp hname)
    split at h
    · obtain ⟨_, hskip, h⟩ := bind_eq_ok.mp h
      exact Draft.skipMembers_cons hkey (malformed_eq_ok.mp hskip) (ih h)
    · rename_i f hf
      split at h
      · cases h
      · obtain ⟨a', hread, h⟩ := bind_eq_ok.mp h
        have hvalue := hfields f (List.mem_of_find?_eq_some hf) a v a' hread
        exact Draft.skipMembers_cons hkey hvalue (ih h)

theorem skipItems_of_readItems {stop : ArrayStop} {fields : List (Field α)}
    (hfields : ∀ f ∈ fields, ∀ a, ReadsWhole (f.read · a)) {position : Nat} {items : List Draft}
    {a a' : α} (h : l.readItems stop position fields items a = .ok (a', [])) :
    Draft.skipItems items = .ok () := by
  induction fields generalizing position items a with
  | nil =>
    cases h
    rfl
  | cons f fields ih =>
    obtain ⟨hf, hfields⟩ := List.forall_mem_cons.mp hfields
    cases items with
    | nil => rfl
    | cons d items =>
      obtain ⟨a₁, hread, h⟩ := bind_eq_ok.mp h
      exact Draft.skipItems_cons (hf a d a₁ hread) (ih hfields h)

/-- An array that ends after the last field of a record has no items left. -/
theorem checkEnd_eq_ok {source : Source} {stop : ArrayStop} {surplus : List Draft}
    (h : l.checkEnd source stop surplus = .ok ()) : surplus = [] ∧ stop.checkFull = .ok () := by
  cases surplus with
  | nil => exact ⟨rfl, malformed_eq_ok.mp h⟩
  | cons d surplus => cases source <;> cases h

/-- A record is read whole if each of its fields is. -/
theorem readsWhole (hfields : ∀ f ∈ l.fields, ∀ a, ReadsWhole (f.read · a)) (source : Source) :
    ReadsWhole (l.read source) := by
  intro d a h
  cases d with
  | object members stop =>
    obtain ⟨result, hmembers, h⟩ := bind_eq_ok.mp h
    obtain ⟨_, hstop, -⟩ := bind_eq_ok.mp h
    exact Draft.skip_object (skipMembers_of_readMembers hfields hmembers)
      (ObjectStop.skip_of_check (malformed_eq_ok.mp hstop))
  | array items stop =>
    obtain ⟨⟨a', surplus⟩, hitems, h⟩ := bind_eq_ok.mp h
    obtain ⟨_, hend, -⟩ := bind_eq_ok.mp h
    obtain ⟨rfl, hstop⟩ := checkEnd_eq_ok hend
    exact Draft.skip_array (skipItems_of_readItems hfields hitems)
      (ArrayStop.skip_of_checkFull hstop)
  | _ => cases h

end Layout

/-! ## Endpoints -/

theorem readsWhole_readArgument : ReadsWhole readArgument := by
  intro d a h
  obtain ⟨t, ht, -⟩ := bind_eq_ok.mp h
  refine Layout.readsWhole ?_ .text d t ht
  simp only [argumentLayout, List.forall_mem_cons]
  exact ⟨fun _ => readsWhole_readText.map _, fun _ => readsWhole_readText.map _,
    fun _ => readsWhole_readText.map _, fun _ h => by cases h⟩

theorem readsWhole_call (source : Source) : ReadsWhole (callLayout.read source) := by
  refine Layout.readsWhole ?_ source
  simp only [callLayout, List.forall_mem_cons]
  exact ⟨fun _ => readsWhole_readText.map _, fun _ => readsWhole_readText.map _,
    fun _ => readsWhole_readText.map _, fun _ => readsWhole_readText.optional.map _,
    fun _ => readsWhole_readArgument.list.map _, fun _ h => by cases h⟩

theorem readsWhole_return (source : Source) : ReadsWhole (returnLayout.read source) := by
  refine Layout.readsWhole ?_ source
  simp only [returnLayout, List.forall_mem_cons]
  exact ⟨fun _ => readsWhole_readText.map _, fun _ => readsWhole_readArgument.map _,
    fun _ h => by cases h⟩

theorem readsWhole_readStepContent (name : String) : ReadsWhole (readStepContent name) := by
  unfold readStepContent
  split
  · exact (readsWhole_call .text).map _
  · exact (readsWhole_return .text).map _
  · intro d s h
    cases h

theorem readsWhole_readStep : ReadsWhole readStep := by
  intro d s h
  unfold readStep at h
  split at h
  · cases h
  · obtain ⟨_, -, h⟩ := bind_eq_ok.mp h
    cases h
  · rename_i k v rest stop
    obtain ⟨name, hname, h⟩ := bind_eq_ok.mp h
    obtain ⟨step, hstep, h⟩ := bind_eq_ok.mp h
    -- Nothing follows the only member but the closing brace.
    split at h
    · have hkey := StringLit.skip_of_text (malformed_eq_ok.mp hname)
      have hvalue := readsWhole_readStepContent name v step hstep
      exact Draft.skip_object (Draft.skipMembers_cons hkey hvalue rfl) rfl
    · cases h
    · cases h
  · obtain ⟨name, -, h⟩ := bind_eq_ok.mp h
    split at h <;> cases h
  · cases h
  · cases h

theorem readsWhole_endpoint (source : Source) : ReadsWhole (endpointLayout.read source) := by
  refine Layout.readsWhole ?_ source
  simp only [endpointLayout, List.forall_mem_cons]
  exact ⟨fun _ => readsWhole_readText.map _, fun _ => readsWhole_readText.map _,
    fun _ => readsWhole_readText.map _, fun _ => readsWhole_readText.map _,
    fun _ => readsWhole_readStep.list.map _, fun _ h => by cases h⟩

end Wire

end CallFlow
