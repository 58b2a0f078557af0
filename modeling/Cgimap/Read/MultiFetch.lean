/- path: Cgimap/Read/MultiFetch
   generality: I
   source: src/api06/{nodes,ways,relations}_handler.cpp, src/api06/handler_utils.cpp,
     src/backend/apidb/readonly_pgsql_selection.cpp
   digest: Objects and versions requested together come back once each, in order. -/

import Cgimap.Http.IdLists
import Cgimap.Read.Extraction

set_option autoImplicit false
set_option relaxedAutoImplicit false

namespace Cgimap.Read.MultiFetch

open Cgimap.Library.ExceptLists
open Cgimap.Library.KeyedTable
open Cgimap.Library.SortedUnique
open Cgimap.Model.Types
open Cgimap.Model.Database
open Cgimap.Model.Users
open Cgimap.Read.DataSelection
open Cgimap.Read.Endpoints
open Cgimap.Read.Extraction
open Cgimap.Http.Requests
open Cgimap.Http.IdLists
open Cgimap.Http.Routing

section Parsing

/-- What a list of ids satisfies that a request was parsed into. -/
structure Parsed (ids : List IdVersion) : Prop where
  nonempty : ids ≠ []
  nodup : ids.Nodup
  small : ∀ idv ∈ ids, ∀ v, idv.version = some v → v < versionBound

private theorem parseRubyNumber_lt {bound : Nat} (positive : 0 < bound) (s : Text) :
    parseRubyNumber bound s < bound := by
  unfold parseRubyNumber fromChars
  dsimp only
  split
  · exact positive
  · rename_i fits
    exact not_le.mp (not_or.mp fits).2

private theorem parseSingleId_version {s : Text} {v : Nat}
    (version : (parseSingleId s).version = some v) : v < versionBound := by
  unfold parseSingleId at version
  split at version
  · cases version
  · cases version
    exact parseRubyNumber_lt (by decide) _
  · cases version

theorem parsed_of_objectsHandler {req : HttpRequest} {t : ObjectType} {ids : List IdVersion}
    (accepted : objectsHandler req t = .ok (.reads (.objects t ids))) : Parsed ids := by
  unfold objectsHandler at accepted
  obtain ⟨found, parsed, last⟩ := bind_eq_ok.mp accepted
  split at last
  · cases last
  · rename_i nonempty
    cases last
    unfold parseIdListParams at parsed
    obtain ⟨params, -, read⟩ := bind_eq_ok.mp parsed
    split at read
    · cases read
      exact absurd rfl nonempty
    · cases read
      refine ⟨nonempty, nodup_sortUnique strictTotal_before _, fun idv member v version => ?_⟩
      obtain ⟨s, -, rfl⟩ := List.mem_map.mp ((mem_sortUnique _ _ _).mp member)
      exact parseSingleId_version version

end Parsing

section Properties

variable (db : Db) (t : ObjectType) (redactions : Bool)

/-- Every current row is the latest row of its object in the history, with the same tags and
references. -/
def CurrentIsLatest : Prop :=
  ∀ r ∈ db.current t, ∃ h ∈ db.history t, h.toCurrentRow = r ∧
    (∀ h' ∈ db.history t, h'.id = r.id → h'.version ≤ r.version) ∧
    (∀ p, p ∈ db.tagsOf t r.id ↔ p ∈ db.historyTagsOf t r.id r.version) ∧
    ∀ p, p ∈ db.refsOf t r.id ↔ p ∈ db.historyRefsOf t r.id r.version

/-- A requested item exists, and it is not redacted unless redactions are shown. -/
def Available (idv : IdVersion) : Prop :=
  match idv.version with
  | none => ((db.current t).find? idv.id).isSome
  | some v => ∃ h, (db.history t).find? (idv.id, v) = some h ∧
      (h.redactionId = none ∨ redactions = true)

def resolvedVersion (idv : IdVersion) : Nat :=
  idv.version.getD ((db.version? t idv.id).getD 0)

def resolve (idv : IdVersion) : Edition := toLex (idv.id, resolvedVersion db t idv)

/-- What the schema says of the rows that can be read: their changesets exist and have users,
and ids are of the type `bigint`. -/
structure SchemaKeys (store : Store) (t : ObjectType) : Prop where
  current : ∀ r ∈ store.db.current t, (changesetUser store r.changesetId).isSome
  history : ∀ h ∈ store.db.history t, (changesetUser store h.changesetId).isSome
  refs : ∀ r ∈ store.db.currentRefs t, r.ref.target.2 < 2 ^ 63
  historyRefs : ∀ r ∈ store.db.historyRefs t, r.ref.target.2 < 2 ^ 63

def editionOf (w : Written t) : Edition := toLex (w.elem.id, w.elem.version)

/-- One element for every edition that is meant, in order, each as the query for it alone
gives it. -/
structure Fetched (store : Store) (ids : List IdVersion) (out : List (Written t)) : Prop where
  order : out.map (editionOf t) = (ids.map (resolve store.db t)).toFinset.sort
  current : ∀ idv ∈ ids, idv.version = none →
    ∃ w ∈ out, writeObjects store t (onlyObject t idv.id) = ([w], none)
  historic : ∀ idv ∈ ids, ∀ v, idv.version = some v →
    ∃ w ∈ out, writeObjects store t (onlyEdition t idv.id v) = ([w], none)

/-- The selection that a request begins with. -/
def start : Selection := { Selection.empty with redactionsVisible := redactions }

/-- Requests for what is there are answered with it, all others with 404. -/
structure Serves (store : Store) (ids : List IdVersion) : Prop where
  found : (∀ idv ∈ ids, Available store.db t redactions idv) →
    ∃ sel out, objectsResponder store.db (start redactions) t ids = .ok sel ∧
      (∀ now, (Endpoint.objects t ids).write store sel now =
        [.startDocument "osm", .startElement] ++ out.map (Call.writeObject t) ++
          [.endElement, .endDocument]) ∧
      Fetched t store ids out
  missing : (∃ message, objectsResponder store.db (start redactions) t ids = .error (.notFound message)) ↔
    ∃ idv ∈ ids, ¬Available store.db t redactions idv

end Properties

section Selecting

variable {db : Db} {t : ObjectType} {redactions : Bool} {ids : List IdVersion}

private theorem mem_currentIds {id : Nat} : id ∈ currentIds ids ↔ ⟨id, none⟩ ∈ ids := by
  rw [currentIds, List.mem_filterMap]
  constructor
  · rintro ⟨⟨id', version⟩, member, kept⟩
    cases version with
    | none =>
        cases kept
        exact member
    | some v => cases kept
  · exact fun member => ⟨_, member, rfl⟩

private theorem mem_historicIds {ed : Edition} :
    ed ∈ historicIds ids ↔ ⟨(ofLex ed).1, some (ofLex ed).2⟩ ∈ ids := by
  rw [historicIds, List.mem_filterMap]
  constructor
  · rintro ⟨⟨id', version⟩, member, kept⟩
    cases version with
    | none => cases kept
    | some v =>
        cases kept
        exact member
  · exact fun member => ⟨_, member, rfl⟩

private theorem nodup_currentIds (distinct : ids.Nodup) : (currentIds ids).Nodup := by
  refine distinct.filterMap fun a b id left right => ?_
  obtain ⟨i, v⟩ := a
  obtain ⟨j, w⟩ := b
  cases v with
  | some v => cases left
  | none =>
      cases w with
      | some w => cases right
      | none =>
          cases left
          cases right
          rfl

private theorem nodup_historicIds (distinct : ids.Nodup) : (historicIds ids).Nodup := by
  refine distinct.filterMap fun a b id left right => ?_
  obtain ⟨i, v⟩ := a
  obtain ⟨j, w⟩ := b
  cases v with
  | none => cases left
  | some v =>
      cases w with
      | none => cases right
      | some w =>
          cases left
          cases right
          rfl

private theorem length_parts (ids : List IdVersion) :
    (currentIds ids).length + (historicIds ids).length = ids.length := by
  induction ids with
  | nil => rfl
  | cons idv ids ih =>
      obtain ⟨id, version⟩ := idv
      cases version with
      | none =>
          have front : currentIds (⟨id, none⟩ :: ids) = id :: currentIds ids := rfl
          have same : historicIds (⟨id, none⟩ :: ids) = historicIds ids := rfl
          rw [front, same, List.length_cons, List.length_cons]
          omega
      | some v =>
          have same : currentIds (⟨id, some v⟩ :: ids) = currentIds ids := rfl
          have front : historicIds (⟨id, some v⟩ :: ids) = toLex (id, v) :: historicIds ids := rfl
          rw [front, same, List.length_cons, List.length_cons]
          omega

private theorem bigintArray_cases (ids : List Nat) :
    (bigintArray ids = .ok () ∧ ∀ id ∈ ids, id < 2 ^ 63) ∨
      (∃ text, bigintArray ids = .error (.std text)) ∧ ∃ id ∈ ids, 2 ^ 63 ≤ id := by
  unfold bigintArray
  cases large : ids.find? (fun id => decide (2 ^ 63 ≤ id)) with
  | none =>
      rw [List.find?_eq_none] at large
      exact Or.inl ⟨rfl, fun id member => not_le.mp fun above =>
        large id member (decide_eq_true above)⟩
  | some id =>
      have above : decide (2 ^ 63 ≤ id) = true := by
        simpa using List.find?_some large
      exact Or.inr ⟨⟨_, rfl⟩, id, List.mem_of_find?_eq_some large, of_decide_eq_true above⟩

def shown (db : Db) (t : ObjectType) (redactions : Bool) (ed : Edition) : Bool :=
  ((db.history t).find? (ofLex ed)).any (unredacted t (start redactions))

/-- The editions among some that the history query finds. -/
def shownOf (db : Db) (t : ObjectType) (redactions : Bool) (eds : List Edition) : Finset Edition :=
  eds.toFinset.filter (fun ed => shown db t redactions ed = true)

theorem available_historic {ed : Edition} :
    Available db t redactions ⟨(ofLex ed).1, some (ofLex ed).2⟩ ↔ shown db t redactions ed = true := by
  unfold shown
  rw [Option.any_eq_true]
  simp only [Available, unredacted, start, Bool.or_eq_true, Option.isNone_iff_eq_none]

theorem selectHistorical_eq {sel : Selection} {eds : List Edition}
    (first : sel.historic t = ∅) (visible : sel.redactionsVisible = redactions)
    (small : ∀ ed ∈ eds, (ofLex ed).2 < versionBound) :
    selectHistorical db t sel eds = .ok ((shownOf db t redactions eds).card,
      { sel with historic := Function.update sel.historic t (shownOf db t redactions eds) }) := by
  have rule : unredacted t sel = unredacted t (start redactions) := by
    funext h
    simp only [unredacted, start, visible]
  unfold selectHistorical
  split
  · rename_i none
    subst none
    have same : Function.update sel.historic t (shownOf db t redactions []) = sel.historic := by
      rw [shownOf, List.toFinset_nil, Finset.filter_empty, ← first, Function.update_eq_self]
    rw [same]
    rfl
  · have rows : readEditions (((db.history t).select (fun r =>
        decide (toLex r.key ∈ eds) && unredacted t sel r)).map HistoryRow.toCurrentRow) =
        .ok (shownOf db t redactions eds) := by
      unfold readEditions
      rw [if_pos]
      · congr 1
        ext ed
        simp only [List.mem_toFinset, List.mem_map, Table.mem_select, Finset.mem_filter,
          Bool.and_eq_true, decide_eq_true_eq, rule, shownOf, shown, Option.any_eq_true]
        constructor
        · rintro ⟨_, ⟨h, ⟨member, asked, plain⟩, rfl⟩, rfl⟩
          exact ⟨asked, h, Table.find?_key member, plain⟩
        · rintro ⟨asked, h, found, plain⟩
          obtain ⟨member, key⟩ := Table.find?_eq_some.mp found
          have own : toLex h.key = ed := by rw [key, toLex_ofLex]
          exact ⟨h.toCurrentRow, ⟨h, ⟨member, own ▸ asked, plain⟩, rfl⟩, own⟩
      · rw [List.all_eq_true]
        intro r member
        obtain ⟨h, row, rfl⟩ := List.mem_map.mp member
        have hit := (List.mem_filter.mp row).2
        rw [Bool.and_eq_true] at hit
        exact decide_eq_true (small _ (of_decide_eq_true hit.1))
    unfold insertEditions
    rw [rows]
    simp only [first, Finset.empty_union, Finset.card_empty, Nat.sub_zero]
    rfl

/-- The ids among some that have a current row. -/
def existingOf (db : Db) (t : ObjectType) (ids : List Nat) : Finset Nat :=
  ids.toFinset.filter (fun id => ((db.current t).find? id).isSome = true)

private theorem selectObjects_eq {sel : Selection} {ids : List Nat} (first : sel.current t = ∅) :
    selectObjects db t sel ids = ((existingOf db t ids).card,
      { sel with current := Function.update sel.current t (existingOf db t ids) }) := by
  unfold selectObjects insertResults
  simp only [first, Finset.empty_union, Finset.card_empty, Nat.sub_zero]
  rfl

def selected (t : ObjectType) (redactions : Bool) (ids : List IdVersion) : Selection :=
  { start redactions with
    current := Function.update (start redactions).current t (currentIds ids).toFinset
    historic := Function.update (start redactions).historic t (historicIds ids).toFinset }

private theorem card_filter_add_eq {A B : Type} [DecidableEq A] [DecidableEq B] {l : List A}
    {l' : List B} (distinct : l.Nodup) (distinct' : l'.Nodup) (p : A → Bool) (q : B → Bool) :
    (l.toFinset.filter (fun a => p a = true)).card + (l'.toFinset.filter (fun b => q b = true)).card =
        l.length + l'.length ↔ (∀ a ∈ l, p a = true) ∧ ∀ b ∈ l', q b = true := by
  have left := Finset.card_filter_le l.toFinset (fun a => p a = true)
  have right := Finset.card_filter_le l'.toFinset (fun b => q b = true)
  rw [List.toFinset_card_of_nodup distinct] at left
  rw [List.toFinset_card_of_nodup distinct'] at right
  have whole := Finset.card_filter_eq_iff (s := l.toFinset) (p := fun a => p a = true)
  have whole' := Finset.card_filter_eq_iff (s := l'.toFinset) (p := fun b => q b = true)
  rw [List.toFinset_card_of_nodup distinct] at whole
  rw [List.toFinset_card_of_nodup distinct'] at whole'
  simp only [List.mem_toFinset] at whole whole'
  rw [← whole, ← whole']
  omega

private theorem counts_iff (parsed : Parsed ids) :
    (existingOf db t (currentIds ids)).card + (shownOf db t redactions (historicIds ids)).card =
        ids.length ↔ ∀ idv ∈ ids, Available db t redactions idv := by
  have counted := card_filter_add_eq (nodup_currentIds parsed.nodup) (nodup_historicIds parsed.nodup)
    (fun id => ((db.current t).find? id).isSome) (shown db t redactions)
  rw [length_parts] at counted
  refine counted.trans ⟨fun both => ?_, fun available => ⟨fun id member => ?_, fun ed member => ?_⟩⟩
  · rintro ⟨id, version⟩ member
    cases version with
    | none => exact both.1 id (mem_currentIds.mpr member)
    | some v => exact available_historic.mpr (both.2 (toLex (id, v)) (mem_historicIds.mpr member))
  · exact available _ (mem_currentIds.mp member)
  · exact available_historic.mp (available _ (mem_historicIds.mp member))

private theorem selected_eq (available : ∀ idv ∈ ids, Available db t redactions idv) :
    existingOf db t (currentIds ids) = (currentIds ids).toFinset ∧
      shownOf db t redactions (historicIds ids) = (historicIds ids).toFinset := by
  constructor
  · refine Finset.filter_true_of_mem fun id member => ?_
    exact available _ (mem_currentIds.mp (List.mem_toFinset.mp member))
  · refine Finset.filter_true_of_mem fun ed member => ?_
    exact available_historic.mp (available _ (mem_historicIds.mp (List.mem_toFinset.mp member)))

private theorem objectsResponder_eq (parsed : Parsed ids)
    (current_ok : bigintArray (currentIds ids) = .ok ())
    (historic_ok : bigintArray ((historicIds ids).map (fun ed => (ofLex ed).1)) = .ok ()) :
    objectsResponder db (start redactions) t ids =
      if (existingOf db t (currentIds ids)).card + (shownOf db t redactions (historicIds ids)).card ≠
          ids.length then
        .error (.notFound s!"One or more of the {t.lowerName}s were not found.")
      else .ok { start redactions with
        current := Function.update (start redactions).current t (existingOf db t (currentIds ids))
        historic := Function.update (start redactions).historic t (shownOf db t redactions (historicIds ids)) } := by
  have versions : ∀ ed ∈ historicIds ids, (ofLex ed).2 < versionBound := fun ed member =>
    parsed.small _ (mem_historicIds.mp member) _ rfl
  unfold objectsResponder
  rw [current_ok, historic_ok, selectObjects_eq rfl]
  change (selectHistorical db t _ (historicIds ids) >>= _) = _
  rw [selectHistorical_eq rfl rfl versions]
  rfl

variable (db t redactions) in
theorem objectsResponder_cases (parsed : Parsed ids) :
    ((∃ text, objectsResponder db (start redactions) t ids = .error (.std text)) ∧
        ∃ idv ∈ ids, 2 ^ 63 ≤ idv.id) ∨
      (∀ idv ∈ ids, idv.id < 2 ^ 63) ∧
        ((objectsResponder db (start redactions) t ids = .ok (selected t redactions ids) ∧
            ∀ idv ∈ ids, Available db t redactions idv) ∨
          (∃ message, objectsResponder db (start redactions) t ids = .error (.notFound message)) ∧
            ∃ idv ∈ ids, ¬Available db t redactions idv) := by
  rcases bigintArray_cases (currentIds ids) with
    ⟨current_ok, current_small⟩ | ⟨⟨text, fails⟩, id, member, large⟩
  · rcases bigintArray_cases ((historicIds ids).map (fun ed => (ofLex ed).1)) with
      ⟨historic_ok, historic_small⟩ | ⟨⟨text, fails⟩, id, member, large⟩
    · right
      constructor
      · rintro ⟨id, version⟩ member
        cases version with
        | none => exact current_small id (mem_currentIds.mpr member)
        | some v =>
            have listed : toLex (id, v) ∈ historicIds ids := mem_historicIds.mpr member
            exact historic_small id (List.mem_map.mpr ⟨_, listed, rfl⟩)
      · rw [objectsResponder_eq parsed current_ok historic_ok]
        by_cases available : ∀ idv ∈ ids, Available db t redactions idv
        · obtain ⟨current, historic⟩ := selected_eq available
          rw [if_neg (not_not.mpr ((counts_iff parsed).mpr available)), current, historic]
          exact Or.inl ⟨rfl, available⟩
        · rw [if_pos (fun counted => available ((counts_iff parsed).mp counted))]
          push Not at available
          exact Or.inr ⟨⟨_, rfl⟩, available⟩
    · left
      obtain ⟨ed, listed, rfl⟩ := List.mem_map.mp member
      refine ⟨⟨text, ?_⟩, _, mem_historicIds.mp listed, large⟩
      unfold objectsResponder
      rw [current_ok, fails]
      rfl
  · left
    refine ⟨⟨text, ?_⟩, _, mem_currentIds.mp member, large⟩
    unfold objectsResponder
    rw [fails]
    rfl

end Selecting

section Writing

variable {store : Store} {t : ObjectType}

/-- A row of the current tables, or one of the history tables. -/
def IsRow (db : Db) (x : Extracted t) : Prop :=
  (∃ r ∈ db.current t, x = currentRow t db r) ∨ ∃ h ∈ db.history t, x = historicRow t db h

def rowEdition (x : Extracted t) : Edition := toLex (x.row.id, x.row.version)

theorem user_of_isRow (keys : SchemaKeys store t) {x : Extracted t} (row : IsRow store.db x) :
    (changesetUser store x.row.changesetId).isSome := by
  rcases row with ⟨r, member, rfl⟩ | ⟨h, member, rfl⟩
  · exact keys.current r member
  · exact keys.history h member

theorem refs_of_isRow (keys : SchemaKeys store t) {x : Extracted t} (row : IsRow store.db x) :
    ∀ r ∈ x.refs, r.2.target.2 < 2 ^ 64 := by
  have widen : (2 : Nat) ^ 63 < 2 ^ 64 := by decide
  intro p listed
  rcases row with ⟨r, member, rfl⟩ | ⟨h, member, rfl⟩
  · obtain ⟨ref, selected, rfl⟩ := List.mem_map.mp listed
    exact (keys.refs ref (List.mem_filter.mp selected).1).trans widen
  · obtain ⟨ref, selected, rfl⟩ := List.mem_map.mp listed
    exact (keys.historyRefs ref (List.mem_filter.mp selected).1).trans widen

private theorem contentOf_current (latest : CurrentIsLatest store.db t) {r : CurrentRow t}
    (member : r ∈ store.db.current t) {h : HistoryRow t} (member' : h ∈ store.db.history t)
    (same : (r.id, r.version) = h.key) :
    contentOf store (currentRow t store.db r) = contentOf store (historicRow t store.db h) := by
  obtain ⟨h', inside, rfl, -, tags, refs⟩ := latest r member
  have one : h' = h := Table.eq_of_key inside member' same
  subst one
  have same_tags : orderByKey (store.db.tagsOf t h'.id) =
      orderByKey (store.db.historyTagsOf t h'.id h'.version) := by
    refine insertionSort_congr (fun p : String × String => p.1) ?_ (nodup_tagsOf t store.db h'.id)
    exact (List.perm_ext_iff_of_nodup (nodup_tagsOf t store.db h'.id).of_map
      (nodup_historyTagsOf t store.db h'.id h'.version).of_map).mpr tags
  have same_refs : orderBySequence (store.db.refsOf t h'.id) =
      orderBySequence (store.db.historyRefsOf t h'.id h'.version) := by
    refine congrArg (List.map Prod.snd)
      (insertionSort_congr (fun p : Nat × Ref t => p.1) ?_ (nodup_refsOf t store.db h'.id))
    exact (List.perm_ext_iff_of_nodup (nodup_refsOf t store.db h'.id).of_map
      (nodup_historyRefsOf t store.db h'.id h'.version).of_map).mpr refs
  unfold contentOf currentRow historicRow
  dsimp only
  rw [same_tags, same_refs]

private theorem contentOf_edition (latest : CurrentIsLatest store.db t) {x y : Extracted t}
    (row : IsRow store.db x) (row' : IsRow store.db y) (same : rowEdition x = rowEdition y) :
    contentOf store x = contentOf store y := by
  have parts : (x.row.id, x.row.version) = (y.row.id, y.row.version) := toLex.injective same
  rcases row with ⟨r, member, rfl⟩ | ⟨h, member, rfl⟩
  · rcases row' with ⟨r', member', rfl⟩ | ⟨h', member', rfl⟩
    · have one : r = r' := Table.eq_of_key member member' (Prod.mk.inj parts).1
      rw [one]
    · exact contentOf_current latest member member' parts
  · rcases row' with ⟨r', member', rfl⟩ | ⟨h', member', rfl⟩
    · exact (contentOf_current latest member' member parts.symm).symm
    · have one : h = h' := Table.eq_of_key member member' parts
      rw [one]

private theorem writeRows_ok (keys : SchemaKeys store t) {rows : List (Extracted t)}
    (all : ∀ x ∈ rows, IsRow store.db x) (fits : ∀ x ∈ rows, x.row.version < 2 ^ 31) :
    writeRows store t rows = (rows.map (contentOf store), none) := by
  rw [writeRows_eq fun x member => user_of_isRow keys (all x member), untilError_eq, List.map_map]
  refine List.map_congr_left fun x member => ?_
  exact (extract_eq_ok (refs_of_isRow keys (all x member))).mpr ⟨fits x member, rfl⟩

theorem writeRows_one (keys : SchemaKeys store t) {x : Extracted t} (row : IsRow store.db x)
    {w : Written t} :
    writeRows store t [x] = ([w], none) ↔ x.row.version < 2 ^ 31 ∧ w = contentOf store x := by
  rw [writeRows_singleton (user_of_isRow keys row), untilError_eq, List.map_singleton, List.cons.injEq]
  simp only [and_true]
  exact extract_eq_ok (refs_of_isRow keys row)

private theorem writeObjects_current {sel sel' : Selection}
    (merged : mergeCurrent store t sel = .ok sel') (some : sel'.current t ≠ ∅) :
    writeObjects store t sel = writeRows store t (currentRows store t sel') := by
  unfold writeObjects
  rw [merged]
  exact if_pos some

theorem writeObjects_editions {sel sel' : Selection} {editions : Finset Edition}
    (merged : mergeCurrent store t sel = .ok sel') (none : sel'.current t = ∅)
    (all : sel'.historic t = editions) (some : editions ≠ ∅) :
    writeObjects store t sel = writeRows store t (historicRows store t sel') := by
  subst all
  unfold writeObjects
  rw [merged]
  exact (if_neg (not_not.mpr none)).trans (if_pos some)

theorem writeObjects_nothing {sel : Selection} (current : sel.current t = ∅)
    (historic : sel.historic t = ∅) : writeObjects store t sel = ([], none) := by
  have unmerged : mergeCurrent store t sel = .ok sel := if_neg fun both => both.1 current
  unfold writeObjects
  rw [unmerged]
  exact (if_neg (not_not.mpr current)).trans (if_neg (not_not.mpr historic))

theorem writeCurrent_one {sel : Selection} {out : List (Written t)}
    (own : writeObjects store t sel = (out, none))
    (others : ∀ t', t' ≠ t → writeObjects store t' sel = ([], none)) :
    writeCurrent store sel none = [.startDocument "osm", .startElement] ++
      out.map (Call.writeObject t) ++ [.endElement, .endDocument] := by
  unfold writeCurrent writeCalls
  cases t with
  | node =>
      rw [own, others .way nofun, others .relation nofun]
      simp [andThen, caught]
  | way =>
      rw [own, others .node nofun, others .relation nofun]
      simp [andThen, caught]
  | relation =>
      rw [own, others .node nofun, others .way nofun]
      simp [andThen, caught]

private theorem map_filterMap_eq {A B : Type} {f : A → Option B} {key : B → A} {l : List A}
    (found : ∀ a ∈ l, ∃ b, f a = some b ∧ key b = a) : (l.filterMap f).map key = l := by
  induction l with
  | nil => rfl
  | cons a l ih =>
      obtain ⟨b, image, own⟩ := found a List.mem_cons_self
      rw [List.filterMap_cons_some image, List.map_cons, own,
        ih fun a' member => found a' (List.mem_cons_of_mem a member)]

variable (store t) in
private theorem historicRows_spec (sel : Selection)
    (present : ∀ ed ∈ sel.historic t, ∃ h, (store.db.history t).find? (ofLex ed) = some h) :
    (∀ x ∈ historicRows store t sel, IsRow store.db x) ∧
      (historicRows store t sel).map rowEdition = (sel.historic t).sort := by
  constructor
  · intro x listed
    obtain ⟨ed, -, image⟩ := List.mem_filterMap.mp listed
    obtain ⟨h, found, rfl⟩ := Option.map_eq_some_iff.mp image
    exact Or.inr ⟨h, (Table.find?_eq_some.mp found).1, rfl⟩
  · refine map_filterMap_eq fun ed member => ?_
    obtain ⟨h, found⟩ := present ed ((Finset.mem_sort _).mp member)
    have key := (Table.find?_eq_some.mp found).2
    refine ⟨historicRow t store.db h, by rw [found]; rfl, ?_⟩
    change toLex h.key = ed
    rw [key, toLex_ofLex]

private def rowsOfIds (db : Db) (t : ObjectType) (ids : Finset Nat) : List (CurrentRow t) :=
  ids.sort.filterMap (fun id => (db.current t).find? id)

private theorem currentRows_eq (sel : Selection) :
    currentRows store t sel = (rowsOfIds store.db t (sel.current t)).map (currentRow t store.db) := by
  unfold currentRows rowsOfIds
  rw [List.map_filterMap]
  refine List.filterMap_congr fun id _ => ?_
  cases found : (store.db.current t).find? id with
  | none => rfl
  | some r =>
      have own : r.id = id := (Table.find?_eq_some.mp found).2
      subst own
      rfl

variable (store t) in
private theorem rowsOfIds_spec {ids : Finset Nat}
    (present : ∀ id ∈ ids, ∃ r, (store.db.current t).find? id = some r) :
    (∀ r ∈ rowsOfIds store.db t ids, r ∈ store.db.current t) ∧
      (rowsOfIds store.db t ids).map CurrentRow.id = ids.sort := by
  constructor
  · intro r listed
    obtain ⟨id, -, found⟩ := List.mem_filterMap.mp listed
    exact (Table.find?_eq_some.mp found).1
  · refine map_filterMap_eq fun id member => ?_
    obtain ⟨r, found⟩ := present id ((Finset.mem_sort _).mp member)
    exact ⟨r, found, (Table.find?_eq_some.mp found).2⟩

private theorem sorted_editions {rows : List (CurrentRow t)} {ids : Finset Nat}
    (order : rows.map CurrentRow.id = ids.sort) {editions : Finset Edition}
    (members : ∀ ed, ed ∈ rows.map (fun r => toLex (r.id, r.version)) ↔ ed ∈ editions) :
    rows.map (fun r => toLex (r.id, r.version)) = editions.sort := by
  have increasing : (rows.map CurrentRow.id).SortedLT := order ▸ ids.sortedLT_sort
  have increasing' : (rows.map (fun r => toLex (r.id, r.version))).SortedLT := by
    rw [List.sortedLT_iff_pairwise, List.pairwise_map] at increasing ⊢
    exact increasing.imp fun less => Prod.Lex.toLex_lt_toLex.mpr (Or.inl less)
  refine increasing'.eq_of_mem_iff editions.sortedLT_sort fun ed => ?_
  rw [members, Finset.mem_sort]

end Writing

section Resolving

variable {store : Store} {t : ObjectType} {redactions : Bool} {ids : List IdVersion}

private theorem resolve_current {db : Db} {r : CurrentRow t} {id : Nat}
    (found : (db.current t).find? id = some r) : resolve db t ⟨id, none⟩ = toLex (r.id, r.version) := by
  have own : r.id = id := (Table.find?_eq_some.mp found).2
  simp [resolve, resolvedVersion, Db.version?, found, own]

private theorem row_of_available {id : Nat} (available : ∀ idv ∈ ids, Available store.db t redactions idv)
    (asked : id ∈ currentIds ids) : ∃ r, (store.db.current t).find? id = some r :=
  Option.isSome_iff_exists.mp (available _ (mem_currentIds.mp asked))

private theorem mem_resolved (available : ∀ idv ∈ ids, Available store.db t redactions idv) (ed : Edition) :
    ed ∈ (ids.map (resolve store.db t)).toFinset ↔ ed ∈ historicIds ids ∨
      ed ∈ (rowsOfIds store.db t (currentIds ids).toFinset).map
        (fun r => toLex (r.id, r.version)) := by
  rw [List.mem_toFinset, List.mem_map, List.mem_map]
  constructor
  · rintro ⟨⟨id, version⟩, member, rfl⟩
    cases version with
    | some v => exact Or.inl (mem_historicIds.mpr member)
    | none =>
        have asked := mem_currentIds.mpr member
        obtain ⟨r, found⟩ := row_of_available available asked
        refine Or.inr ⟨r, List.mem_filterMap.mpr ⟨id, ?_, found⟩, (resolve_current found).symm⟩
        exact (Finset.mem_sort _).mpr (List.mem_toFinset.mpr asked)
  · rintro (asked | ⟨r, listed, rfl⟩)
    · exact ⟨_, mem_historicIds.mp asked, rfl⟩
    · obtain ⟨id, member, found⟩ := List.mem_filterMap.mp listed
      rw [Finset.mem_sort, List.mem_toFinset] at member
      exact ⟨_, mem_currentIds.mp member, resolve_current found⟩

private theorem current_version (fits : ∀ idv ∈ ids, resolvedVersion store.db t idv < 2 ^ 31)
    {r : CurrentRow t} (listed : r ∈ rowsOfIds store.db t (currentIds ids).toFinset) :
    r.version < 2 ^ 31 := by
  obtain ⟨id, member, found⟩ := List.mem_filterMap.mp listed
  rw [Finset.mem_sort, List.mem_toFinset] at member
  have small := fits _ (mem_currentIds.mp member)
  simpa [resolvedVersion, Db.version?, found] using small

private theorem readEditions_rows (fits : ∀ idv ∈ ids, resolvedVersion store.db t idv < 2 ^ 31) :
    readEditions (rowsOfIds store.db t (currentIds ids).toFinset) =
      .ok ((rowsOfIds store.db t (currentIds ids).toFinset).map
        (fun r => toLex (r.id, r.version))).toFinset := by
  unfold readEditions
  rw [if_pos]
  rw [List.all_eq_true]
  intro r listed
  have small : 2 ^ 31 < versionBound := by decide
  exact decide_eq_true ((current_version fits listed).trans small)

private theorem history_of_resolved (latest : CurrentIsLatest store.db t)
    (available : ∀ idv ∈ ids, Available store.db t redactions idv) {ed : Edition}
    (meant : ed ∈ (ids.map (resolve store.db t)).toFinset) :
    ∃ h, (store.db.history t).find? (ofLex ed) = some h := by
  rcases (mem_resolved available ed).mp meant with asked | listed
  · obtain ⟨h, found, -⟩ := available _ (mem_historicIds.mp asked)
    exact ⟨h, found⟩
  · obtain ⟨r, inside, rfl⟩ := List.mem_map.mp listed
    obtain ⟨id, -, found⟩ := List.mem_filterMap.mp inside
    obtain ⟨h, member, rfl, -⟩ := latest r (Table.find?_eq_some.mp found).1
    exact ⟨h, Table.find?_key member⟩

section Selected

private theorem current_selected :
    (selected t redactions ids).current t = (currentIds ids).toFinset :=
  Function.update_self ..

private theorem historic_selected :
    (selected t redactions ids).historic t = (historicIds ids).toFinset :=
  Function.update_self ..

private theorem historicRows_resolved (latest : CurrentIsLatest store.db t)
    (available : ∀ idv ∈ ids, Available store.db t redactions idv) {sel : Selection}
    (all : sel.historic t = (ids.map (resolve store.db t)).toFinset) :
    (∀ x ∈ historicRows store t sel, IsRow store.db x) ∧
      (historicRows store t sel).map rowEdition = (ids.map (resolve store.db t)).toFinset.sort := by
  have spec := historicRows_spec store t sel fun ed member =>
    history_of_resolved latest available (all ▸ member)
  rw [all] at spec
  exact spec

private theorem rows_of_mixed (latest : CurrentIsLatest store.db t)
    (available : ∀ idv ∈ ids, Available store.db t redactions idv)
    (fits : ∀ idv ∈ ids, resolvedVersion store.db t idv < 2 ^ 31)
    (mixed : (currentIds ids).toFinset ≠ ∅ ∧ (historicIds ids).toFinset ≠ ∅) :
    ∃ rows, writeObjects store t (selected t redactions ids) = writeRows store t rows ∧
      (∀ x ∈ rows, IsRow store.db x) ∧
      rows.map rowEdition = (ids.map (resolve store.db t)).toFinset.sort := by
  have union : (historicIds ids).toFinset ∪ ((rowsOfIds store.db t (currentIds ids).toFinset).map
      (fun r => toLex (r.id, r.version))).toFinset = (ids.map (resolve store.db t)).toFinset := by
    ext ed
    rw [mem_resolved available, Finset.mem_union, List.mem_toFinset, List.mem_toFinset]
  have merged : mergeCurrent store t (selected t redactions ids) = .ok
      { selected t redactions ids with
        historic := Function.update (selected t redactions ids).historic t
          (ids.map (resolve store.db t)).toFinset
        current := Function.update (selected t redactions ids).current t ∅ } := by
    unfold mergeCurrent
    rw [current_selected, historic_selected, if_pos mixed, ← rowsOfIds, readEditions_rows fits,
      ← union]
    rfl
  have filled : (ids.map (resolve store.db t)).toFinset ≠ ∅ := by
    rw [← union]
    exact fun empty => mixed.2 (Finset.union_eq_empty.mp empty).1
  rw [writeObjects_editions merged (Function.update_self ..) (Function.update_self ..) filled]
  exact ⟨_, rfl, historicRows_resolved latest available (Function.update_self ..)⟩

private theorem rows_of_current
    (available : ∀ idv ∈ ids, Available store.db t redactions idv)
    (unmerged : mergeCurrent store t (selected t redactions ids) = .ok (selected t redactions ids))
    (some : (currentIds ids).toFinset ≠ ∅) (none : historicIds ids = []) :
    ∃ rows, writeObjects store t (selected t redactions ids) = writeRows store t rows ∧
      (∀ x ∈ rows, IsRow store.db x) ∧
      rows.map rowEdition = (ids.map (resolve store.db t)).toFinset.sort := by
  rw [writeObjects_current unmerged (by rwa [current_selected])]
  obtain ⟨rows, order⟩ := rowsOfIds_spec store t
    (fun id member => row_of_available available (List.mem_toFinset.mp member))
  refine ⟨_, rfl, ?_, ?_⟩
  · rw [currentRows_eq, current_selected]
    intro x listed
    obtain ⟨r, inside, rfl⟩ := List.mem_map.mp listed
    exact Or.inl ⟨r, rows r inside, rfl⟩
  · rw [currentRows_eq, current_selected, List.map_map]
    refine sorted_editions order fun ed => ?_
    rw [mem_resolved available, none]
    exact (or_iff_right (List.not_mem_nil)).symm

private theorem rows_of_historic (latest : CurrentIsLatest store.db t)
    (available : ∀ idv ∈ ids, Available store.db t redactions idv)
    (unmerged : mergeCurrent store t (selected t redactions ids) = .ok (selected t redactions ids))
    (none : currentIds ids = []) (nonempty : ids ≠ []) :
    ∃ rows, writeObjects store t (selected t redactions ids) = writeRows store t rows ∧
      (∀ x ∈ rows, IsRow store.db x) ∧
      rows.map rowEdition = (ids.map (resolve store.db t)).toFinset.sort := by
  have all : (historicIds ids).toFinset = (ids.map (resolve store.db t)).toFinset := by
    ext ed
    have empty : rowsOfIds store.db t (currentIds ids).toFinset = [] := by
      rw [none, List.toFinset_nil, rowsOfIds, Finset.sort_empty, List.filterMap_nil]
    rw [mem_resolved available, empty, List.mem_toFinset]
    exact (or_iff_left List.not_mem_nil).symm
  have filled : (historicIds ids).toFinset ≠ ∅ := by
    rw [all]
    intro empty
    exact nonempty (List.map_eq_nil_iff.mp (List.toFinset_eq_empty_iff _ |>.mp empty))
  have bare : (selected t redactions ids).current t = ∅ := by
    rw [current_selected, none, List.toFinset_nil]
  rw [writeObjects_editions unmerged bare historic_selected filled]
  exact ⟨_, rfl, historicRows_resolved latest available (historic_selected.trans all)⟩

private theorem rows_of_selected (latest : CurrentIsLatest store.db t)
    (available : ∀ idv ∈ ids, Available store.db t redactions idv)
    (fits : ∀ idv ∈ ids, resolvedVersion store.db t idv < 2 ^ 31) (nonempty : ids ≠ []) :
    ∃ rows, writeObjects store t (selected t redactions ids) = writeRows store t rows ∧
      (∀ x ∈ rows, IsRow store.db x) ∧
      rows.map rowEdition = (ids.map (resolve store.db t)).toFinset.sort := by
  by_cases mixed : (currentIds ids).toFinset ≠ ∅ ∧ (historicIds ids).toFinset ≠ ∅
  · exact rows_of_mixed latest available fits mixed
  · have unmerged : mergeCurrent store t (selected t redactions ids) = .ok (selected t redactions ids) := by
      unfold mergeCurrent
      rw [current_selected, historic_selected, if_neg mixed]
    by_cases some : (currentIds ids).toFinset ≠ ∅
    · have none : historicIds ids = [] := by
        by_contra other
        exact mixed ⟨some, fun empty => other (List.toFinset_eq_empty_iff _ |>.mp empty)⟩
      exact rows_of_current available unmerged some none
    · have none : currentIds ids = [] := List.toFinset_eq_empty_iff _ |>.mp (not_not.mp some)
      exact rows_of_historic latest available unmerged none nonempty

end Selected

private theorem fetched_of_available (latest : CurrentIsLatest store.db t) (keys : SchemaKeys store t)
    (available : ∀ idv ∈ ids, Available store.db t redactions idv)
    (fits : ∀ idv ∈ ids, resolvedVersion store.db t idv < 2 ^ 31) (nonempty : ids ≠ []) :
    ∃ out, writeObjects store t (selected t redactions ids) = (out, none) ∧ Fetched t store ids out := by
  obtain ⟨rows, written, all, order⟩ := rows_of_selected latest available fits nonempty
  have edition_of_row : ∀ x ∈ rows, ∃ idv ∈ ids, resolve store.db t idv = rowEdition x := by
    intro x listed
    have member : rowEdition x ∈ (ids.map (resolve store.db t)).toFinset := by
      rw [← Finset.mem_sort (· ≤ ·), ← order]
      exact List.mem_map_of_mem listed
    exact List.mem_map.mp (List.mem_toFinset.mp member)
  have row_of_edition : ∀ idv ∈ ids, ∃ x ∈ rows, rowEdition x = resolve store.db t idv := by
    intro idv member
    have listed : resolve store.db t idv ∈ rows.map rowEdition := by
      rw [order, Finset.mem_sort, List.mem_toFinset]
      exact List.mem_map_of_mem member
    exact List.mem_map.mp listed
  have rows_fit : ∀ x ∈ rows, x.row.version < 2 ^ 31 := by
    intro x listed
    obtain ⟨idv, member, same⟩ := edition_of_row x listed
    have version : resolvedVersion store.db t idv = x.row.version :=
      (Prod.mk.inj (toLex.injective same)).2
    exact version ▸ fits idv member
  -- the query for one item alone reads a row of the same edition
  have alone : ∀ idv ∈ ids, ∀ y : Extracted t, IsRow store.db y →
      rowEdition y = resolve store.db t idv →
        ∃ w ∈ rows.map (contentOf store), writeRows store t [y] = ([w], none) := by
    intro idv member y row same
    obtain ⟨x, listed, edition⟩ := row_of_edition idv member
    have content := contentOf_edition latest (all x listed) row (edition.trans same.symm)
    have version : y.row.version = x.row.version :=
      (Prod.mk.inj (toLex.injective (same.trans edition.symm))).2
    exact ⟨contentOf store y, content ▸ List.mem_map_of_mem listed,
      (writeRows_one keys row).mpr ⟨version ▸ rows_fit x listed, rfl⟩⟩
  refine ⟨rows.map (contentOf store), written.trans (writeRows_ok keys all rows_fit), ?_, ?_, ?_⟩
  · rw [List.map_map, ← order]
    rfl
  · rintro ⟨id, version⟩ member rfl
    obtain ⟨r, found⟩ := row_of_available available (mem_currentIds.mpr member)
    obtain ⟨w, listed, read⟩ := alone _ member (currentRow t store.db r)
      (Or.inl ⟨r, (Table.find?_eq_some.mp found).1, rfl⟩) (resolve_current found).symm
    exact ⟨w, listed, (writeObjects_onlyObject found).trans read⟩
  · rintro ⟨id, version⟩ member v rfl
    obtain ⟨h, found, -⟩ := available _ member
    have key := (Table.find?_eq_some.mp found).2
    obtain ⟨w, listed, read⟩ := alone _ member (historicRow t store.db h)
      (Or.inr ⟨h, (Table.find?_eq_some.mp found).1, rfl⟩) (congrArg toLex key)
    exact ⟨w, listed, (writeObjects_onlyEdition found).trans read⟩

private theorem fits_of_fetched (keys : SchemaKeys store t)
    (available : ∀ idv ∈ ids, Available store.db t redactions idv) {out : List (Written t)}
    (fetched : Fetched t store ids out) : ∀ idv ∈ ids, resolvedVersion store.db t idv < 2 ^ 31 := by
  rintro ⟨id, version⟩ member
  cases version with
  | none =>
      obtain ⟨r, found⟩ := row_of_available available (mem_currentIds.mpr member)
      obtain ⟨w, -, read⟩ := fetched.current _ member rfl
      rw [writeObjects_onlyObject found] at read
      have small := ((writeRows_one keys (Or.inl ⟨r, (Table.find?_eq_some.mp found).1, rfl⟩)).mp read).1
      have version : resolvedVersion store.db t ⟨id, none⟩ = r.version :=
        (Prod.mk.inj (toLex.injective (resolve_current found))).2
      rw [version]
      exact small
  | some v =>
      obtain ⟨h, found, -⟩ := available _ member
      obtain ⟨w, -, read⟩ := fetched.historic _ member v rfl
      rw [writeObjects_onlyEdition found] at read
      have small := ((writeRows_one keys (Or.inr ⟨h, (Table.find?_eq_some.mp found).1, rfl⟩)).mp read).1
      have key : h.version = v := (Prod.mk.inj (Table.find?_eq_some.mp found).2).2
      exact key ▸ small

/-- Requests are served as long as the numbers in them and in the rows fit their types. -/
theorem serves_iff (latest : CurrentIsLatest store.db t) (keys : SchemaKeys store t) {req : HttpRequest}
    (accepted : objectsHandler req t = .ok (.reads (.objects t ids))) :
    Serves t redactions store ids ↔ (∀ idv ∈ ids, idv.id < 2 ^ 63) ∧
      ((∀ idv ∈ ids, Available store.db t redactions idv) →
        ∀ idv ∈ ids, resolvedVersion store.db t idv < 2 ^ 31) := by
  have parsed := parsed_of_objectsHandler accepted
  constructor
  · intro serves
    rcases objectsResponder_cases store.db t redactions parsed with
      ⟨⟨text, failed⟩, idv, member, large⟩ | ⟨small, -⟩
    · exfalso
      by_cases available : ∀ idv ∈ ids, Available store.db t redactions idv
      · obtain ⟨sel, out, done, -⟩ := serves.found available
        rw [failed] at done
        cases done
      · push Not at available
        obtain ⟨message, missing⟩ := serves.missing.mpr available
        rw [failed] at missing
        cases missing
    · refine ⟨small, fun available => ?_⟩
      obtain ⟨sel, out, -, -, fetched⟩ := serves.found available
      exact fits_of_fetched keys available fetched
  · rintro ⟨small, fits⟩
    rcases objectsResponder_cases store.db t redactions parsed with
      ⟨-, idv, member, large⟩ | ⟨-, ⟨done, available⟩ | ⟨⟨message, missing⟩, idv, member, absent⟩⟩
    · exact absurd (small idv member) (not_lt.mpr large)
    · refine ⟨fun _ => ?_, ?_⟩
      · obtain ⟨out, own, fetched⟩ :=
          fetched_of_available latest keys available (fits available) parsed.nonempty
        refine ⟨_, out, done, fun now => writeCurrent_one own fun t' other => ?_, fetched⟩
        exact writeObjects_nothing (Function.update_of_ne other ..) (Function.update_of_ne other ..)
      · constructor
        · rintro ⟨message, failed⟩
          rw [done] at failed
          cases failed
        · rintro ⟨idv, member, absent⟩
          exact absurd (available idv member) absent
    · refine ⟨fun available => absurd (available idv member) absent, fun _ => ⟨idv, member, absent⟩,
        fun _ => ⟨message, missing⟩⟩

end Resolving

section Samples

def sampleVersion (v : Nat) : CurrentRow .node := ⟨5, v, 7, true, 0, (⟨0, 0, 0⟩ : NodeCoord)⟩

theorem keys_versionUser : ([⟨1, 0⟩].map UserRow.id).Nodup := List.nodup_singleton _

theorem keys_versionChangeset :
    ([⟨7, 1, 0, 0, none, 0, UploadStats.zero⟩].map ChangesetRow.id).Nodup := List.nodup_singleton _

theorem keys_lastVersion : ([sampleVersion 2].map CurrentRow.id).Nodup := List.nodup_singleton _

theorem keys_bothVersions :
    ([⟨sampleVersion 1, none⟩, ⟨sampleVersion 2, none⟩].map (HistoryRow.key (t := .node))).Nodup := by decide

def sampleVersions : Store :=
  { db := { Db.empty with
      users := ⟨[⟨1, 0⟩], keys_versionUser⟩
      changesets := ⟨[⟨7, 1, 0, 0, none, 0, UploadStats.zero⟩], keys_versionChangeset⟩
      current := fun
        | .node => ⟨[sampleVersion 2], keys_lastVersion⟩
        | .way => .empty
        | .relation => .empty
      history := fun
        | .node => ⟨[⟨sampleVersion 1, none⟩, ⟨sampleVersion 2, none⟩], keys_bothVersions⟩
        | .way => .empty
        | .relation => .empty }
    accounts := ⟨fun _ => ⟨true, "mapper", .active⟩, [], [], [], []⟩ }

private theorem latest_sampleVersions : CurrentIsLatest sampleVersions.db .node := by
  intro r member
  rw [List.mem_singleton.mp member]
  refine ⟨_, List.mem_cons_of_mem _ List.mem_cons_self, rfl, fun h' listed _ => ?_, fun p => ?_, fun p => ?_⟩
  · rcases List.mem_cons.mp listed with rfl | last
    · decide
    · rw [List.mem_singleton.mp last]
  · exact Iff.rfl
  · exact Iff.rfl

theorem keys_sampleVersions : SchemaKeys sampleVersions .node where
  current r member := by
    rw [List.mem_singleton.mp member]
    rfl
  history h member := by
    rcases List.mem_cons.mp member with rfl | last
    · rfl
    · rw [List.mem_singleton.mp last]
      rfl
  refs r member := (List.not_mem_nil member).elim
  historyRefs r member := (List.not_mem_nil member).elim

def sampleQuery (query : String) : HttpRequest :=
  { param := fun name => if name = "QUERY_STRING" then some query else none
    now := 0
    payload := .error (.badRequest "") }

/-- An object, its current version and an older one. -/
theorem serves_iff_sampleVersions :
    Serves .node false sampleVersions [⟨5, some 1⟩, ⟨5, some 2⟩, ⟨5, none⟩] :=
  (serves_iff latest_sampleVersions keys_sampleVersions
    (show objectsHandler (sampleQuery "nodes=5,5v2,5v1,5") .node = .ok (.reads (.objects .node
      [⟨5, some 1⟩, ⟨5, some 2⟩, ⟨5, none⟩])) by decide +kernel)).mpr ⟨by decide, fun _ => by decide⟩

/-- An id that a `bigint` cannot hold is not reported as missing. -/
theorem not_serves_largeId :
    ¬∀ (store : Store) (t : ObjectType) (redactions : Bool) (req : HttpRequest) (ids : List IdVersion),
      CurrentIsLatest store.db t → SchemaKeys store t →
        objectsHandler req t = .ok (.reads (.objects t ids)) → Serves t redactions store ids := by
  intro all
  have serves := all sampleVersions .node false (sampleQuery "nodes=9223372036854775808")
    [⟨9223372036854775808, none⟩] latest_sampleVersions keys_sampleVersions (by decide +kernel)
  have absent : ¬Available sampleVersions.db .node false ⟨9223372036854775808, none⟩ := nofun
  obtain ⟨message, missing⟩ := serves.missing.mpr ⟨_, List.mem_cons_self, absent⟩
  cases missing

end Samples

end Cgimap.Read.MultiFetch
