import Mathlib.Data.List.Forall2
import CallFlow.Proofs.Wire.Document
import CallFlow.Proofs.Wire.Skipping

/-!
# The catalog of a workspace

A text that spells a workspace spells the catalog of the workspace too. A workspace reads its endpoints
where they stand, takes all other members whole, and reads them as a catalog in the end. A catalog reads
its configs where they stand and skips everything else, the endpoints among it.

Whether a record was taken whole first matters only for what is reported when its array is too long, so
a reader of texts follows one of values that were taken whole. What the two readers of a document make
of its members is the same once the endpoints are left out, for they were read and can be skipped.

## Main definitions

- `CallFlow.Wire.Follows` — one reader reads what another one reads

## Main statements

- `CallFlow.Wire.Layout.Follows.read` — records, from their fields
- `CallFlow.Wire.readMembers_of_readWorkspaceMembers` — members without the endpoints
- `CallFlow.Wire.catalog_decoded_from_workspace_text` — texts of workspaces
-/

namespace CallFlow.Wire

open Json (Draft StringLit ArrayStop ObjectStop)

/-! ## One reader follows another one -/

/-- What the second one reads, the first one reads the same. -/
def Follows {α : Type} (read' read : Draft → Except ReadError α) : Prop :=
  ∀ d a, read d = .ok a → read' d = .ok a

section Readers

variable {α β : Type} {read' read : Draft → Except ReadError α}

theorem Follows.map (h : Follows read' read) (f : α → β) :
    Follows (fun d => (read' d).map f) fun d => (read d).map f := by
  intro d b hb
  obtain ⟨a, ha, hf⟩ := map_eq_ok.mp hb
  exact map_eq_ok.mpr ⟨a, h d a ha, hf⟩

theorem Follows.mapM (h : Follows read' read) {items : List Draft} {as : List α}
    (has : items.mapM read = .ok as) : items.mapM read' = .ok as :=
  mapM_eq_ok_iff.mpr ((mapM_eq_ok_iff.mp has).imp h)

theorem Follows.list (h : Follows read' read) : Follows (readList read') (readList read) := by
  intro d as has
  cases d with
  | array items stop =>
    obtain ⟨as', hitems, has⟩ := bind_eq_ok.mp has
    exact bind_eq_ok.mpr ⟨as', h.mapM hitems, has⟩
  | _ => cases has

end Readers

/-! ## Records -/

/-- One field follows another one: it is known under the same names, and its reader follows. -/
structure Field.Follows {α : Type} (f' f : Field α) : Prop where
  name : f'.name = f.name
  aliases : f'.aliases = f.aliases
  required : f'.required = f.required
  read : ∀ a, Wire.Follows (f'.read · a) (f.read · a)

theorem Field.follows_refl {α : Type} (f : Field α) : f.Follows f :=
  ⟨rfl, rfl, rfl, fun _ _ _ h => h⟩

namespace Layout

variable {α : Type} {l' l : Layout α}

/-- One layout follows another one, field by field. -/
structure Follows (l' l : Layout α) : Prop where
  blank : l'.blank = l.blank
  fields : List.Forall₂ Field.Follows l'.fields l.fields

theorem follows_refl (l : Layout α) : l.Follows l :=
  ⟨rfl, List.forall₂_same.mpr fun f _ => f.follows_refl⟩

/-- Fields that are looked up by what they share are found together. -/
theorem find?_follows {fs' fs : List (Field α)} (h : List.Forall₂ Field.Follows fs' fs)
    {p : Field α → Bool} (hp : ∀ f' f, Field.Follows f' f → p f' = p f) :
    Option.Rel Field.Follows (fs'.find? p) (fs.find? p) := by
  induction h with
  | nil => exact .none
  | @cons f' f fs' fs hf _ ih =>
    rw [List.find?_cons, List.find?_cons, hp f' f hf]
    cases p f with
    | true => exact .some hf
    | false => exact ih

theorem Follows.readMembers (h : l'.Follows l) {members : List (StringLit × Draft)} {a : α}
    {met : List String} {result : α × List String}
    (hread : l.readMembers members a met = .ok result) :
    l'.readMembers members a met = .ok result := by
  induction members generalizing a met with
  | nil => exact hread
  | cons m members ih =>
    obtain ⟨k, v⟩ := m
    rw [Layout.readMembers] at hread ⊢
    obtain ⟨name, hname, hread⟩ := bind_eq_ok.mp hread
    refine bind_eq_ok.mpr ⟨name, hname, ?_⟩
    have hfind := find?_follows h.fields (p := (·.answersTo name)) fun f' f hf => by
      rw [Field.answersTo, Field.answersTo, hf.name, hf.aliases]
    generalize l'.fields.find? (·.answersTo name) = found' at hfind ⊢
    generalize l.fields.find? (·.answersTo name) = found at hfind hread
    cases hfind with
    | none =>
      obtain ⟨u, hskip, hread⟩ := bind_eq_ok.mp hread
      exact bind_eq_ok.mpr ⟨u, hskip, ih hread⟩
    | @some f' f hf =>
      dsimp only at hread ⊢
      rw [hf.name]
      split at hread
      · cases hread
      · rename_i hmet
        obtain ⟨a', ha', hread⟩ := bind_eq_ok.mp hread
        rw [if_neg hmet]
        exact bind_eq_ok.mpr ⟨a', hf.read a v a' ha', ih hread⟩

theorem Follows.missing? (h : l'.Follows l) {met : List String} (hmissing : l.missing? met = none) :
    l'.missing? met = none := by
  have hfind := find?_follows h.fields
    (p := fun f => f.required && !met.contains f.name) fun f' f hf => by
      rw [hf.name, hf.required]
  rw [Layout.missing?] at hmissing
  rw [hmissing] at hfind
  rw [Layout.missing?]
  generalize l'.fields.find? _ = found at hfind ⊢
  cases hfind
  rfl

theorem readItems_follows {fs' fs : List (Field α)} (h : List.Forall₂ Field.Follows fs' fs)
    {stop : ArrayStop} {position : Nat} {items : List Draft} {a : α} {result : α × List Draft}
    (hread : l.readItems stop position fs items a = .ok result) :
    l'.readItems stop position fs' items a = .ok result := by
  induction h generalizing position items a with
  | nil => exact hread
  | @cons f' f fs' fs hf _ ih =>
    cases items with
    | nil =>
      rw [readItems] at hread ⊢
      obtain ⟨u, hstop, hread⟩ := bind_eq_ok.mp hread
      refine bind_eq_ok.mpr ⟨u, hstop, ?_⟩
      rw [hf.required]
      split at hread
      · cases hread
      · rename_i hrequired
        rw [if_neg hrequired]
        exact ih hread
    | cons d items =>
      obtain ⟨a', ha', hread⟩ := bind_eq_ok.mp hread
      exact bind_eq_ok.mpr ⟨a', hf.read a d a' ha', ih hread⟩

/-- A record is read the same by a layout that follows, wherever its draft comes from: an array that is
    read has no items left over to be counted. -/
theorem Follows.read (h : l'.Follows l) (source' source : Source) :
    Wire.Follows (l'.read source') (l.read source) := by
  intro d a hread
  cases d with
  | object members stop =>
    obtain ⟨⟨a', met⟩, hmembers, hread⟩ := bind_eq_ok.mp hread
    obtain ⟨u, hstop, hread⟩ := bind_eq_ok.mp hread
    refine bind_eq_ok.mpr ⟨(a', met), ?_, bind_eq_ok.mpr ⟨u, hstop, ?_⟩⟩
    · rw [h.blank]
      exact h.readMembers hmembers
    · split at hread
      · cases hread
      · rename_i hmissing
        rw [h.missing? hmissing]
        exact hread
  | array items stop =>
    obtain ⟨⟨a', surplus⟩, hitems, hrest⟩ := bind_eq_ok.mp hread
    obtain ⟨u, hend, ha⟩ := bind_eq_ok.mp hrest
    obtain ⟨rfl, hstop⟩ := checkEnd_eq_ok hend
    refine bind_eq_ok.mpr ⟨(a', []), ?_, bind_eq_ok.mpr ⟨u, ?_, ha⟩⟩
    · rw [h.blank]
      exact readItems_follows h.fields hitems
    · exact malformed_eq_ok.mpr hstop
  | _ => cases hread

end Layout

/-! ## Configs and catalogs -/

theorem follows_config (source' source : Source) (room : Nat) :
    Follows ((configLayout source' room).read source') ((configLayout source room).read source) := by
  have hmethods := (methodLayout (room - 2)).follows_refl.read source' source
  -- Only the last field depends on where the draft comes from.
  have hfields : (configLayout source' room).Follows (configLayout source room) :=
    ⟨rfl, .cons (Field.follows_refl _) <| .cons (Field.follows_refl _) <|
      .cons (Field.follows_refl _) <| .cons (Field.follows_refl _) <|
      .cons ⟨rfl, rfl, rfl, fun _ => hmethods.list.map _⟩ .nil⟩
  exact hfields.read source' source

theorem follows_catalog (source' source : Source) (room : Nat) :
    Follows ((catalogLayout source' room).read source')
      ((catalogLayout source room).read source) := by
  have hconfigs := follows_config source' source (room - 2)
  have hfields : (catalogLayout source' room).Follows (catalogLayout source room) :=
    ⟨rfl, .cons ⟨rfl, rfl, rfl, fun _ => hconfigs.list.map _⟩ .nil⟩
  exact hfields.read source' source

/-! ## Members without the endpoints -/

/-- A layout that does not know the endpoints makes the same of the members of a workspace as of those
    that are left to be read as a catalog. -/
theorem readMembers_of_readWorkspaceMembers {α : Type} {l : Layout α}
    (hl : l.fields.find? (·.answersTo "endpoints") = none) {room : Nat}
    {members others others' : List (StringLit × Draft)}
    {endpoints endpoints' : Option (List Endpoint)}
    (h : readWorkspaceMembers room members endpoints others = .ok (endpoints', others')) :
    ∃ kept, others' = others.reverse ++ kept ∧
      ∀ a met, l.readMembers members a met = l.readMembers kept a met := by
  induction members generalizing endpoints others with
  | nil =>
    cases h
    exact ⟨[], (List.append_nil _).symm, fun a met => rfl⟩
  | cons m members ih =>
    obtain ⟨k, v⟩ := m
    rw [readWorkspaceMembers] at h
    obtain ⟨name, hname, h⟩ := bind_eq_ok.mp h
    split at h
    · rename_i hendpoints
      subst hendpoints
      split at h
      · cases h
      · obtain ⟨es, hes, h⟩ := bind_eq_ok.mp h
        obtain ⟨kept, hothers, hkept⟩ := ih h
        -- The endpoints were read, so a reader that does not know them can skip them.
        have hskip : v.skip = .ok () := (readsWhole_endpoint .text).list v es hes
        refine ⟨kept, hothers, fun a met => ?_⟩
        rw [Layout.readMembers, hname, ← hkept]
        simp only [bind, Except.bind, hl, hskip, malformed_ok]
    · obtain ⟨_, -, h⟩ := bind_eq_ok.mp h
      obtain ⟨kept, hothers, hkept⟩ := ih h
      refine ⟨(k, v) :: kept, ?_, fun a met => ?_⟩
      · rw [hothers, List.reverse_cons, List.append_assoc, List.singleton_append]
      · rw [Layout.readMembers, Layout.readMembers]
        simp only [hkept]

/-- A draft that is read as a workspace is read as the catalog of the workspace. -/
theorem read_catalog_of_readWorkspace {room : Nat} {d : Draft} {w : Workspace}
    (h : readWorkspace room d = .ok w) :
    (catalogLayout .text room).read .text d = .ok w.catalog := by
  cases d with
  | object members stop =>
    obtain ⟨⟨endpoints, others⟩, hmembers, h⟩ := bind_eq_ok.mp h
    obtain ⟨u, hstop, h⟩ := bind_eq_ok.mp h
    obtain ⟨catalog, hcatalog, h⟩ := bind_eq_ok.mp h
    cases h
    obtain ⟨kept, hothers, hkept⟩ :=
      readMembers_of_readWorkspaceMembers (l := catalogLayout .text room) rfl hmembers
    rw [List.reverse_nil, List.nil_append] at hothers
    subst hothers
    have hread := follows_catalog .text .taken room _ catalog hcatalog
    rw [Layout.read] at hread ⊢
    rw [hkept, hstop]
    exact hread
  | _ => cases h

/-- A text that spells a workspace spells its catalog, read on its own. -/
theorem catalog_decoded_from_workspace_text {text : String} {w : Workspace}
    (h : workspaceFormat.decode text = .ok w) : catalogFormat.decode text = .ok w.catalog := by
  obtain ⟨hread, hrest⟩ := Format.decode_eq_ok_iff.mp h
  exact Format.decode_eq_ok_iff.mpr ⟨read_catalog_of_readWorkspace hread, hrest⟩

/-- The endpoints come first and have a member that nobody knows, as the workspace has. The config is an
    array, and its method has one input that stands for itself, with a bare type, and one output in a
    list. -/
theorem catalog_decoded_from_workspace_text_mixed :
    let key : Json := .object [("type", .string "String"), ("name", .string "key")]
    let user : Json := .object [("name", .string "user"), ("type", .null)]
    let get : Json := .object [("output", .array [user]), ("input", key), ("name", .string "get")]
    let users : Json := .array [.string "c", .string "Users", .string "", .string "", .array [get]]
    let list : Json := .object [("note", .array [.null]), ("name", .string "List")]
    let document : Json := .object [("endpoints", .array [list]),
      ("note", .object [("draft", .bool true)]), ("configs", .array [users])]
    let w : Workspace := ⟨⟨[⟨"c", "Users", "", "", [
        ⟨"get", "", [⟨"key", "", some .text⟩], [⟨"user", "", none⟩]⟩]⟩]⟩,
      [⟨"", "List", "", "", []⟩]⟩
    workspaceFormat.decode document.compact = .ok w ∧
      catalogFormat.decode document.compact = .ok w.catalog := by
  intro key user get users list document w
  have hdecode : workspaceFormat.decode document.compact = .ok w := by
    rw [Format.decode, Json.ofText_compact]
    rfl
  exact ⟨hdecode, catalog_decoded_from_workspace_text hdecode⟩

end CallFlow.Wire
