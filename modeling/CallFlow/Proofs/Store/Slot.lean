import CallFlow.Store
import CallFlow.Proofs.Canonical

/-!
# Where a saved endpoint goes

Saving puts one endpoint into one place. It takes the place of a stored endpoint and then has that
one's identifier, unless there was none, or it is added at the end. So identifiers are neither lost
nor given twice over a whole run of saves, provided that those drawn for it are new.

The place is chosen by identifier or by name, and stored endpoints may lack identifiers or share
names. What makes the cases one is that an endpoint that finds a place has adopted the identifier
found there, whichever way the place was chosen.

## Main definitions

- `CallFlow.Workspace.DistinctIds` — no identifier is given twice
- `CallFlow.Workspace.DrawsFresh` — a save for which only new identifiers are drawn
- `CallFlow.Workspace.place` — the position at which a saved endpoint is stored
- `CallFlow.Workspace.SavedFrom` — what a run of saves arrives at
- `CallFlow.Workspace.OneSlot` — one place changes

## Main statements

- `CallFlow.Workspace.oneSlot_save`, `CallFlow.Workspace.distinctIds_save` — what one save does
- `CallFlow.Workspace.SavedFrom.one_slot_each` — what every run of saves keeps
-/

namespace CallFlow

/-- Not the same identifier, unless there is none. -/
def Endpoint.DiffersFrom (a b : Endpoint) : Prop :=
  a.id ≠ "" → a.id ≠ b.id

instance (a b : Endpoint) : Decidable (a.DiffersFrom b) :=
  inferInstanceAs (Decidable (_ → _))

theorem Endpoint.DiffersFrom.symm {a b : Endpoint} (h : a.DiffersFrom b) : b.DiffersFrom a := by
  intro hb heq
  exact h (heq ▸ hb) heq.symm

/-- An endpoint may take the place of another one if it has its identifier, or a new one. -/
theorem pairwise_differsFrom_set {es : List Endpoint} {i : Nat} {stored echo : Endpoint}
    (h : es.Pairwise Endpoint.DiffersFrom) (hi : es[i]? = some stored)
    (hid : echo.id = stored.id ∨ ∀ other ∈ es, other.id ≠ echo.id) :
    (es.set i echo).Pairwise Endpoint.DiffersFrom := by
  obtain ⟨hlt, rfl⟩ := List.getElem?_eq_some_iff.mp hi
  have hsplit : es = es.take i ++ es[i] :: es.drop (i + 1) := by simp
  rw [List.set_eq_take_append_cons_drop, if_pos hlt, List.pairwise_middle Endpoint.DiffersFrom.symm,
    List.pairwise_cons]
  rw [hsplit, List.pairwise_middle Endpoint.DiffersFrom.symm, List.pairwise_cons] at h
  refine ⟨?_, h.2⟩
  intro other hother
  rcases hid with hsame | hnew
  · have hdiffers := h.1 other hother
    rwa [Endpoint.DiffersFrom, ← hsame] at hdiffers
  · have hmem : other ∈ es := by
      rcases List.mem_append.mp hother with hfront | hback
      · exact List.mem_of_mem_take hfront
      · exact List.mem_of_mem_drop hback
    exact fun _ heq => hnew other hmem heq.symm

namespace Workspace

/-- No two endpoints have the same identifier, those without one apart. -/
def DistinctIds (w : Workspace) : Prop :=
  w.endpoints.Pairwise Endpoint.DiffersFrom

instance (w : Workspace) : Decidable w.DistinctIds :=
  inferInstanceAs (Decidable (w.endpoints.Pairwise _))

/-- The identifiers drawn when an endpoint is saved are not empty, and no stored endpoint has one of
    them. -/
def DrawsFresh (w : Workspace) (ids : IdSupply) (e : Endpoint) : Prop :=
  ∀ id ∈ ids.drawnUntil (w.save ids e).2.2, id ≠ "" ∧ ∀ stored ∈ w.endpoints, stored.id ≠ id

instance (w : Workspace) (ids : IdSupply) (e : Endpoint) : Decidable (w.DrawsFresh ids e) :=
  inferInstanceAs (Decidable (∀ id ∈ _, _))

/-- One place changes: a stored endpoint gives way to `echo`, which keeps its identifier if it has
    one, or `echo` is added at the end. -/
inductive OneSlot (before : List Endpoint) (echo : Endpoint) (after : List Endpoint) : Prop
  | replaced (i : Nat) (stored : Endpoint) (hi : before[i]? = some stored)
      (hid : stored.id ≠ "" → echo.id = stored.id) (hafter : after = before.set i echo)
  | added (hafter : after = before ++ [echo])

/-- The workspaces that a run of saves arrives at, each with the rest of the supply. -/
inductive SavedFrom (w₀ : Workspace) (ids₀ : IdSupply) : Workspace → IdSupply → Prop
  | start : SavedFrom w₀ ids₀ w₀ ids₀
  | save {w : Workspace} {ids : IdSupply} (h : SavedFrom w₀ ids₀ w ids) (e : Endpoint)
      (hfresh : w.DrawsFresh ids e) : SavedFrom w₀ ids₀ (w.save ids e).2.1 (w.save ids e).2.2

variable {w : Workspace} {ids : IdSupply} {e : Endpoint}

/-! ## The place and the identifier -/

/-- An endpoint that finds a place has the identifier found there, found by it or adopted. -/
theorem id_adoptId_of_slot? {i : Nat} (h : w.slot? e = some i) :
    ∃ stored, w.endpoints[i]? = some stored ∧ (w.adoptId e).id = stored.id := by
  obtain ⟨hi, hmatch, -⟩ := List.findIdx?_eq_some_iff_getElem.mp h
  have hget : w.endpoints[i]? = some w.endpoints[i] := List.getElem?_eq_getElem hi
  refine ⟨w.endpoints[i], hget, ?_⟩
  rw [adoptId, h, Option.bind_some, hget]
  by_cases hid : e.id = ""
  · simp [hid]
  · simp only [hid, if_false, decide_eq_true_eq] at hmatch ⊢
    exact hmatch.symm

theorem adoptId_of_slot?_none (h : w.slot? e = none) : w.adoptId e = e := by
  rw [adoptId, h]
  rfl

theorem id_ne_of_slot?_none (h : w.slot? e = none) (hid : e.id ≠ "") :
    ∀ stored ∈ w.endpoints, stored.id ≠ e.id := by
  intro stored hstored
  have hno := List.findIdx?_eq_none_iff.mp h stored hstored
  simpa [hid] using hno

theorem id_save_of_ne_empty (h : (w.adoptId e).id ≠ "") :
    (w.save ids e).1.id = (w.adoptId e).id := by
  show ((w.adoptId e).canonicalize ids).1.id = _
  rw [Endpoint.id_canonicalize, if_neg h]

/-- An endpoint without identifier gets one that no stored endpoint has. -/
theorem DrawsFresh.id_ne (h : w.DrawsFresh ids e) (hid : (w.adoptId e).id = "") :
    ∀ stored ∈ w.endpoints, stored.id ≠ (w.save ids e).1.id :=
  (h _ (Endpoint.id_mem_drawnUntil hid ids)).2

/-! ## One save -/

theorem save_of_slot?_none (h : w.slot? e = none) :
    (w.save ids e).2.1 = { w with endpoints := w.endpoints ++ [(w.save ids e).1] } := by
  show w.put (w.slot? e) _ = _
  rw [h]
  rfl

theorem save_of_slot? {i : Nat} (h : w.slot? e = some i) :
    (w.save ids e).2.1 = { w with endpoints := w.endpoints.set i (w.save ids e).1 } := by
  show w.put (w.slot? e) _ = _
  rw [h]
  rfl

/-- The position at which an endpoint is stored when it is saved. -/
def place (w : Workspace) (e : Endpoint) : Nat :=
  (w.slot? e).getD w.endpoints.length

theorem getElem?_save_place (w : Workspace) (ids : IdSupply) (e : Endpoint) :
    (w.save ids e).2.1.endpoints[w.place e]? = some (w.save ids e).1 := by
  cases hslot : w.slot? e with
  | none =>
    rw [save_of_slot?_none hslot, place, hslot]
    simp
  | some i =>
    obtain ⟨stored, hi, -⟩ := id_adoptId_of_slot? hslot
    rw [save_of_slot? hslot, place, hslot]
    exact List.getElem?_set_self (List.getElem?_eq_some_iff.mp hi).1

/-- Saving changes one place, whatever is saved. -/
theorem oneSlot_save (w : Workspace) (ids : IdSupply) (e : Endpoint) :
    OneSlot w.endpoints (w.save ids e).1 (w.save ids e).2.1.endpoints := by
  cases hslot : w.slot? e with
  | none =>
    rw [save_of_slot?_none hslot]
    exact .added rfl
  | some i =>
    obtain ⟨stored, hi, hid⟩ := id_adoptId_of_slot? hslot
    rw [save_of_slot? hslot]
    refine .replaced i stored hi ?_ rfl
    intro hne
    rw [id_save_of_ne_empty (hid ▸ hne), hid]

/-- What a save gives back is canonical. -/
theorem DrawsFresh.canonical (h : w.DrawsFresh ids e) : (w.save ids e).1.Canonical :=
  Endpoint.canonicalize_canonical fun id hid => (h id hid).1

/-- Saving gives no identifier twice. -/
theorem distinctIds_save (hw : w.DistinctIds) (h : w.DrawsFresh ids e) :
    (w.save ids e).2.1.DistinctIds := by
  cases hslot : w.slot? e with
  | none =>
    -- At the end the identifier is one that no stored endpoint has: looked for in vain, or drawn.
    have hnew : ∀ stored ∈ w.endpoints, stored.id ≠ (w.save ids e).1.id := by
      have hadopt := adoptId_of_slot?_none hslot
      by_cases hid : (w.adoptId e).id = ""
      · exact h.id_ne hid
      · rw [id_save_of_ne_empty hid, hadopt]
        rw [hadopt] at hid
        exact id_ne_of_slot?_none hslot hid
    rw [save_of_slot?_none hslot]
    refine List.pairwise_append.mpr ⟨hw, List.pairwise_singleton _ _, ?_⟩
    intro stored hstored last hlast _
    rw [List.mem_singleton.mp hlast]
    exact hnew stored hstored
  | some i =>
    obtain ⟨stored, hi, hid⟩ := id_adoptId_of_slot? hslot
    rw [save_of_slot? hslot]
    refine pairwise_differsFrom_set hw hi ?_
    by_cases hempty : (w.adoptId e).id = ""
    · exact .inr (h.id_ne hempty)
    · exact .inl (by rw [id_save_of_ne_empty hempty, hid])

theorem catalog_save (w : Workspace) (ids : IdSupply) (e : Endpoint) :
    (w.save ids e).2.1.catalog = w.catalog := by
  cases hslot : w.slot? e with
  | none => rw [save_of_slot?_none hslot]
  | some i => rw [save_of_slot? hslot]

/-! ## Runs of saves -/

/-- Along every run of saves no identifier is given twice and the catalog stays as it is, and each
    save of the run changes one place and gives back a canonical endpoint. -/
theorem SavedFrom.one_slot_each {w₀ : Workspace} {ids₀ : IdSupply} (hw₀ : w₀.DistinctIds)
    (h : SavedFrom w₀ ids₀ w ids) :
    w.DistinctIds ∧ w.catalog = w₀.catalog ∧
      ∀ e, w.DrawsFresh ids e →
        OneSlot w.endpoints (w.save ids e).1 (w.save ids e).2.1.endpoints ∧
          (w.save ids e).1.Canonical ∧ (w.save ids e).1.id ≠ "" := by
  have hkept : w.DistinctIds ∧ w.catalog = w₀.catalog := by
    induction h with
    | start => exact ⟨hw₀, rfl⟩
    | @save w ids h e hfresh ih =>
      exact ⟨distinctIds_save ih.1 hfresh, by rw [catalog_save, ih.2]⟩
  refine ⟨hkept.1, hkept.2, ?_⟩
  intro e hfresh
  exact ⟨oneSlot_save w ids e, hfresh.canonical, hfresh.canonical.id_ne_empty⟩

/-- Two stored endpoints share a name, and only the second has an identifier. An endpoint of that
    name without identifier is saved twice and takes the first place both times; one of another name
    is added after it. -/
theorem SavedFrom.one_slot_each_shared_name :
    let ids : IdSupply := { id := fun n => String.ofList (List.replicate (n + 1) 'x') }
    let w₀ : Workspace := ⟨.empty, [⟨"", "list", "", "", []⟩, ⟨"a", "list", "", "", []⟩]⟩
    let e (name : String) : Endpoint := ⟨"", name, "", " /", [.ret .blank]⟩
    let w₁ := (w₀.save ids (e "list")).2.1
    let ids₁ := (w₀.save ids (e "list")).2.2
    let w₂ := (w₁.save ids₁ (e "list")).2.1
    let ids₂ := (w₁.save ids₁ (e "list")).2.2
    w₀.DistinctIds ∧ SavedFrom w₀ ids w₂ ids₂ ∧ w₂.DrawsFresh ids₂ (e "find") ∧
      w₂.endpoints.map (·.id) = ["x", "a"] ∧ w₂.DistinctIds ∧
      (w₂.save ids₂ (e "find")).2.1.endpoints.map (·.id) = ["x", "a", "xxxx"] ∧
      OneSlot w₂.endpoints (w₂.save ids₂ (e "find")).1 (w₂.save ids₂ (e "find")).2.1.endpoints ∧
      (w₂.save ids₂ (e "find")).1.Canonical := by
  intro ids w₀ e w₁ ids₁ w₂ ids₂
  have hw₀ : w₀.DistinctIds := by decide
  have hsaved : SavedFrom w₀ ids w₂ ids₂ :=
    .save (.save .start (e "list") (by decide)) (e "list") (by decide)
  have hfresh : w₂.DrawsFresh ids₂ (e "find") := by decide
  obtain ⟨hdistinct, -, hsave⟩ := one_slot_each hw₀ hsaved
  obtain ⟨hslot, hcanonical, -⟩ := hsave (e "find") hfresh
  exact ⟨hw₀, hsaved, hfresh, by decide, hdistinct, by decide, hslot, hcanonical⟩

end Workspace

end CallFlow
