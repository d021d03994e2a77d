import CallFlow.Store
import CallFlow.Proofs.Canonical

/-!
# Endpoints that were found by name

An endpoint is looked up by its name and stored by its identifier, so one that was found, edited and
saved may end up elsewhere. It comes back to its own place if it has no identifier, for then the
name decides again. If it has one, the first endpoint of that identifier gives way, which is another
one as soon as an identifier is shared with an earlier endpoint.

## Main definitions

- `CallFlow.Workspace.FirstNamed` — the endpoint that a name leads to
- `CallFlow.Workspace.slotOf` — the place at which it is stored
- `CallFlow.Workspace.ReplacedAt` — one endpoint has given way to another one

## Main statements

- `CallFlow.Workspace.FirstNamed.echo_eq` — what is given back when it was saved
- `CallFlow.Workspace.FirstNamed.save_eq` — the workspace after it was saved
- `CallFlow.Workspace.FirstNamed.save_replaces_own_place_iff` — when it comes back to its own place
-/

namespace CallFlow

namespace Workspace

/-- The first endpoint of a name stands at a position. -/
structure FirstNamed (w : Workspace) (name : String) (position : Nat) (e : Endpoint) : Prop where
  found : w.endpoints[position]? = some e
  named : e.name = name
  first : ∀ earlier < position, ∀ other : Endpoint,
    w.endpoints[earlier]? = some other → other.name ≠ name

theorem endpoint?_eq_some_iff {w : Workspace} {name : String} {e : Endpoint} :
    w.endpoint? name = some e ↔ ∃ position, w.FirstNamed name position e := by
  rw [endpoint?, List.find?_eq_some_iff_getElem, decide_eq_true_eq]
  constructor
  · rintro ⟨hname, position, hlt, rfl, hfirst⟩
    refine ⟨position, List.getElem?_eq_getElem hlt, hname, ?_⟩
    intro earlier hearlier other hother
    obtain ⟨hlt', rfl⟩ := List.getElem?_eq_some_iff.mp hother
    simpa using hfirst earlier hearlier
  · rintro ⟨position, hfound, hname, hfirst⟩
    obtain ⟨hlt, rfl⟩ := List.getElem?_eq_some_iff.mp hfound
    refine ⟨hname, position, hlt, rfl, ?_⟩
    intro earlier hearlier
    simpa using hfirst earlier hearlier _ (List.getElem?_eq_getElem _)

theorem require_eq_ok_iff {w : Workspace} {name : String} {e : Endpoint} :
    w.require name = .ok e ↔ ∃ position, w.FirstNamed name position e := by
  rw [← endpoint?_eq_some_iff, require]
  cases w.endpoint? name <;> simp

theorem FirstNamed.findIdx?_eq {w : Workspace} {name : String} {position : Nat} {e : Endpoint}
    (h : w.FirstNamed name position e) :
    w.endpoints.findIdx? (·.name = name) = some position := by
  obtain ⟨hlt, rfl⟩ := List.getElem?_eq_some_iff.mp h.found
  refine List.findIdx?_eq_some_iff_getElem.mpr ⟨hlt, by simpa using h.named, ?_⟩
  intro earlier hearlier
  simpa using h.first earlier hearlier _ (List.getElem?_eq_getElem _)

/-- The place at which an endpoint is stored that was found at a position: its own if it has no
    identifier, else the first one of its identifier. -/
def slotOf (w : Workspace) (position : Nat) (e : Endpoint) : Nat :=
  if e.id = "" then position else w.endpoints.findIdx (·.id = e.id)

theorem slotOf_lt {w : Workspace} {position : Nat} {e : Endpoint}
    (h : w.endpoints[position]? = some e) : w.slotOf position e < w.endpoints.length := by
  rw [slotOf]
  split
  · exact (List.getElem?_eq_some_iff.mp h).1
  · exact List.findIdx_lt_length_of_exists ⟨e, List.mem_of_getElem? h, by simp⟩

theorem FirstNamed.slot?_eq {w : Workspace} {name : String} {position : Nat} {e edited : Endpoint}
    (h : w.FirstNamed name position e) (hid : edited.id = e.id) (hname : edited.name = name) :
    w.slot? edited = some (w.slotOf position e) := by
  rw [slot?, slotOf, hid, hname]
  by_cases hempty : e.id = ""
  · simp only [hempty, if_true]
    exact h.findIdx?_eq
  · simp only [hempty, if_false]
    exact List.findIdx?_eq_some_of_exists ⟨e, List.mem_of_getElem? h.found, by simp⟩

/-- An endpoint that was found under its name has no identifier to adopt. -/
theorem FirstNamed.adoptId_eq {w : Workspace} {name : String} {position : Nat} {e edited : Endpoint}
    (h : w.FirstNamed name position e) (hid : edited.id = e.id) (hname : edited.name = name) :
    w.adoptId edited = edited := by
  rw [adoptId, h.slot?_eq hid hname, slotOf]
  by_cases hempty : e.id = ""
  · rw [if_pos hempty, Option.bind_some, h.found]
    simp only [← hid, ite_self]
  · rw [if_neg hempty, hid]
    split <;> simp [hempty]

/-- Saving an endpoint that was found under its name and then edited replaces one endpoint. -/
theorem FirstNamed.save_eq {w : Workspace} {name : String} {position : Nat} {e edited : Endpoint}
    (h : w.FirstNamed name position e) (hid : edited.id = e.id) (hname : edited.name = name)
    (ids : IdSupply) :
    (w.save ids edited).2.1 =
      { w with
        endpoints := w.endpoints.set (w.slotOf position e) (edited.canonicalize ids).1 } := by
  rw [save, h.adoptId_eq hid hname, h.slot?_eq hid hname]
  rfl

/-- What is given back is the canonical form of what was saved, with no identifier from elsewhere. -/
theorem FirstNamed.echo_eq {w : Workspace} {name : String} {position : Nat} {e edited : Endpoint}
    (h : w.FirstNamed name position e) (hid : edited.id = e.id) (hname : edited.name = name)
    (ids : IdSupply) : (w.save ids edited).1 = (edited.canonicalize ids).1 := by
  rw [save, h.adoptId_eq hid hname]

/-- What takes the place of the first endpoint of a name, and has that name, is the first of it. -/
theorem FirstNamed.set {w : Workspace} {name : String} {position : Nat} {e e' : Endpoint}
    (h : w.FirstNamed name position e) (hname : e'.name = name) :
    FirstNamed { w with endpoints := w.endpoints.set position e' } name position e' where
  found := List.getElem?_set_self (List.getElem?_eq_some_iff.mp h.found).1
  named := hname
  first := by
    intro earlier hearlier other hother
    rw [List.getElem?_set_ne (Nat.ne_of_gt hearlier)] at hother
    exact h.first earlier hearlier other hother

/-! ## The own place -/

/-- At one position there is another endpoint, and all else is as before. -/
structure ReplacedAt (before : List Endpoint) (position : Nat) (echo : Endpoint)
    (after : List Endpoint) : Prop where
  length : after.length = before.length
  echoed : after[position]? = some echo
  others : ∀ k ≠ position, after[k]? = before[k]?

theorem replacedAt_set {es : List Endpoint} {position : Nat} (h : position < es.length)
    (echo : Endpoint) : ReplacedAt es position echo (es.set position echo) where
  length := List.length_set
  echoed := List.getElem?_set_self h
  others := fun _ hk => List.getElem?_set_ne hk.symm

/-- Where something new is put is where a replacement is seen. -/
theorem ReplacedAt.eq_of_set {es : List Endpoint} {position slot : Nat} {echo : Endpoint}
    (h : ReplacedAt es position echo (es.set slot echo)) (hslot : slot < es.length)
    (hnew : es[slot]? ≠ some echo) : slot = position := by
  by_contra hne
  have hother := h.others slot hne
  rw [List.getElem?_set_self hslot] at hother
  exact hnew hother.symm

theorem FirstNamed.slotOf_le {w : Workspace} {name : String} {position : Nat} {e : Endpoint}
    (h : w.FirstNamed name position e) : w.slotOf position e ≤ position := by
  rw [slotOf]
  split
  · exact Nat.le_refl position
  · obtain ⟨hlt, rfl⟩ := List.getElem?_eq_some_iff.mp h.found
    refine Nat.le_of_not_lt fun hbefore => ?_
    simpa using List.not_of_lt_findIdx hbefore

theorem FirstNamed.slotOf_eq_iff {w : Workspace} {name : String} {position : Nat} {e : Endpoint}
    (h : w.FirstNamed name position e) :
    w.slotOf position e = position ↔
      e.id = "" ∨ ∀ other ∈ w.endpoints.take position, other.id ≠ e.id := by
  obtain ⟨hlt, rfl⟩ := List.getElem?_eq_some_iff.mp h.found
  rw [slotOf]
  by_cases hempty : w.endpoints[position].id = ""
  · simp [hempty]
  · rw [if_neg hempty, List.findIdx_eq hlt]
    simp only [hempty, false_or, decide_true, decide_eq_false_iff_not, true_and]
    constructor
    · intro hfirst other hother
      obtain ⟨k, hk, rfl⟩ := List.mem_iff_getElem.mp hother
      rw [List.length_take] at hk
      rw [List.getElem_take]
      exact hfirst k (by omega)
    · intro hfirst k hk
      refine hfirst _ (List.mem_iff_getElem.mpr ⟨k, ?_, ?_⟩)
      · rw [List.length_take]
        omega
      · rw [List.getElem_take]

/-- An earlier place is taken by an endpoint of another name, so storing there is seen. -/
theorem FirstNamed.ne_of_slotOf_ne {w : Workspace} {name : String} {position : Nat}
    {e echo : Endpoint} (h : w.FirstNamed name position e) (hname : echo.name = name)
    (hne : w.slotOf position e ≠ position) : w.endpoints[w.slotOf position e]? ≠ some echo := by
  intro hecho
  have hlt : w.slotOf position e < position := Nat.lt_of_le_of_ne h.slotOf_le hne
  exact h.first _ hlt echo hecho hname

/-- Saving what was found under a name, with whatever changes, gives its canonical form back. That form
    replaces the very endpoint that was found, and nothing else, exactly if this one has no identifier
    or no endpoint before it has the same one. -/
theorem FirstNamed.save_replaces_own_place_iff {w : Workspace} {name : String} {position : Nat}
    {e edited : Endpoint} (h : w.FirstNamed name position e) (hid : edited.id = e.id)
    (hname : edited.name = e.name) (ids : IdSupply) :
    w.require name = .ok e ∧ (w.save ids edited).1 = (edited.canonicalize ids).1 ∧
      (ReplacedAt w.endpoints position (w.save ids edited).1 (w.save ids edited).2.1.endpoints ↔
        e.id = "" ∨ ∀ other ∈ w.endpoints.take position, other.id ≠ e.id) := by
  have hnamed : edited.name = name := hname.trans h.named
  have hecho := h.echo_eq hid hnamed ids
  refine ⟨require_eq_ok_iff.mpr ⟨position, h⟩, hecho, ?_⟩
  have hechoName : (edited.canonicalize ids).1.name = name := by
    rw [Endpoint.canonicalize_eq]
    exact hnamed
  rw [hecho, h.save_eq hid hnamed ids, ← h.slotOf_eq_iff]
  constructor
  · intro hreplaced
    by_contra hne
    exact hne (hreplaced.eq_of_set (slotOf_lt h.found) (h.ne_of_slotOf_ne hechoName hne))
  · intro hslot
    rw [hslot]
    exact replacedAt_set (List.getElem?_eq_some_iff.mp h.found).1 _

/-- The endpoints named `list` and `show` share an identifier. The first of them is replaced when it
    is saved. The second one is not: it is stored in the place of the first. -/
theorem FirstNamed.save_replaces_own_place_iff_shared_id :
    let ids : IdSupply := { id := fun n => String.ofList (List.replicate (n + 1) 'x') }
    let w : Workspace := ⟨.empty,
      [⟨"", "home", "", "", []⟩, ⟨"a", "list", "", "", []⟩, ⟨"a", "show", "", "", []⟩]⟩
    let edited (name : String) : Endpoint := ⟨"a", name, "", "/", [.ret .blank]⟩
    let save (name : String) := w.save ids (edited name)
    w.FirstNamed "list" 1 ⟨"a", "list", "", "", []⟩ ∧
      (save "list").1 = ((edited "list").canonicalize ids).1 ∧
      ReplacedAt w.endpoints 1 (save "list").1 (save "list").2.1.endpoints ∧
      w.FirstNamed "show" 2 ⟨"a", "show", "", "", []⟩ ∧
      ¬ReplacedAt w.endpoints 2 (save "show").1 (save "show").2.1.endpoints ∧
      (save "show").2.1.endpoints.map (·.name) = ["home", "show", "show"] := by
  intro ids w edited save
  have hlist : w.FirstNamed "list" 1 ⟨"a", "list", "", "", []⟩ := by
    refine ⟨rfl, rfl, ?_⟩
    intro earlier hearlier other hother
    obtain rfl : earlier = 0 := by omega
    cases hother
    decide
  have hshow : w.FirstNamed "show" 2 ⟨"a", "show", "", "", []⟩ := by
    refine ⟨rfl, rfl, ?_⟩
    intro earlier hearlier other hother
    obtain rfl | rfl : earlier = 0 ∨ earlier = 1 := by omega
    all_goals
      cases hother
      decide
  have hlistId : (edited "list").id = "a" := rfl
  have hshowId : (edited "show").id = "a" := rfl
  obtain ⟨-, hecho, hown⟩ := hlist.save_replaces_own_place_iff hlistId rfl ids
  obtain ⟨-, -, hother⟩ := hshow.save_replaces_own_place_iff hshowId rfl ids
  exact ⟨hlist, hecho, hown.mpr (by decide), hshow, fun h => absurd (hother.mp h) (by decide),
    by decide⟩

end Workspace

end CallFlow
