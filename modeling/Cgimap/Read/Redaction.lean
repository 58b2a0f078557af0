/- path: Cgimap/Read/Redaction
   generality: I
   source: none
   digest: Redacted versions do not show in what is selected nor in what is written. -/

import Cgimap.Library.ExceptLists
import Cgimap.Read.Endpoints
import Cgimap.Read.Extraction

set_option autoImplicit false
set_option relaxedAutoImplicit false

namespace Cgimap.Read.Redaction

open Cgimap.Library.ExceptLists
open Cgimap.Library.KeyedTable
open Cgimap.Model.Types
open Cgimap.Model.Database
open Cgimap.Model.Users
open Cgimap.Read.DataSelection
open Cgimap.Read.Endpoints
open Cgimap.Read.Extraction

section Relation

/-- The databases differ at most in history rows that are redacted, and in the tags and
references of these. -/
structure SameExceptRedacted (db db' : Db) : Prop where
  rest : db' = { db with
    history := db'.history, historyTags := db'.historyTags, historyRefs := db'.historyRefs }
  rows : ∀ t (h : HistoryRow t), h.redactionId = none → (h ∈ db.history t ↔ h ∈ db'.history t)
  tags : ∀ t, ∀ h ∈ db.history t, h.redactionId = none → ∀ r : HistoryTagRow,
    r.owner = h.id → r.version = h.version → (r ∈ db.historyTags t ↔ r ∈ db'.historyTags t)
  refs : ∀ t, ∀ h ∈ db.history t, h.redactionId = none → ∀ r : HistoryRefRow t,
    r.owner = h.id → r.version = h.version → (r ∈ db.historyRefs t ↔ r ∈ db'.historyRefs t)

/-- The current version of an object is not a redacted one. -/
def CurrentUnredacted (db : Db) : Prop :=
  ∀ t, ∀ r ∈ db.current t, ∀ h, (db.history t).find? (r.id, r.version) = some h →
    h.redactionId = none

theorem SameExceptRedacted.symm {db db' : Db} (same : SameExceptRedacted db db') :
    SameExceptRedacted db' db where
  rest := by
    rw [same.rest]
  rows t h plain := (same.rows t h plain).symm
  tags t h member plain r owner version :=
    (same.tags t h ((same.rows t h plain).mpr member) plain r owner version).symm
  refs t h member plain r owner version :=
    (same.refs t h ((same.rows t h plain).mpr member) plain r owner version).symm

end Relation

variable {db db' : Db} {t : ObjectType} {sel : Selection}

section Selecting

private theorem readEditions_congr {rows rows' : List (CurrentRow t)}
    (members : ∀ r, r ∈ rows ↔ r ∈ rows') : readEditions rows = readEditions rows' := by
  have all : rows.all (fun r => decide (r.version < versionBound)) =
      rows'.all (fun r => decide (r.version < versionBound)) := by
    rw [Bool.eq_iff_iff, List.all_eq_true, List.all_eq_true]
    exact forall_congr' fun r => imp_congr_left (members r)
  have editions : (rows.map (fun r => toLex (r.id, r.version))).toFinset =
      (rows'.map (fun r => toLex (r.id, r.version))).toFinset := by
    ext ed
    simp only [List.mem_toFinset, List.mem_map, members]
  unfold readEditions
  rw [all, editions]

private theorem insertEditions_congr (same : SameExceptRedacted db db')
    (hidden : sel.redactionsVisible = false) (hits : HistoryRow t → Bool) :
    insertEditions t sel (((db.history t).select (fun r => hits r && unredacted t sel r)).map
        HistoryRow.toCurrentRow) =
      insertEditions t sel (((db'.history t).select (fun r => hits r && unredacted t sel r)).map
        HistoryRow.toCurrentRow) := by
  have members : ∀ r : CurrentRow t,
      r ∈ ((db.history t).select (fun r => hits r && unredacted t sel r)).map HistoryRow.toCurrentRow ↔
      r ∈ ((db'.history t).select (fun r => hits r && unredacted t sel r)).map
        HistoryRow.toCurrentRow := by
    intro r
    simp only [List.mem_map, Table.mem_select, unredacted, hidden, Bool.or_false, Bool.and_eq_true,
      Option.isNone_iff_eq_none]
    constructor
    · rintro ⟨h, ⟨member, hit, plain⟩, rfl⟩
      exact ⟨h, ⟨(same.rows t h plain).mp member, hit, plain⟩, rfl⟩
    · rintro ⟨h, ⟨member, hit, plain⟩, rfl⟩
      exact ⟨h, ⟨(same.rows t h plain).mpr member, hit, plain⟩, rfl⟩
  unfold insertEditions
  rw [readEditions_congr members]

private theorem selectObjects_congr (same : SameExceptRedacted db db') (t : ObjectType)
    (sel : Selection) (ids : List Nat) : selectObjects db t sel ids = selectObjects db' t sel ids := by
  rw [same.rest]
  rfl

private theorem checkVisibility_congr (same : SameExceptRedacted db db') (t : ObjectType) (id : Nat) :
    checkVisibility db t id = checkVisibility db' t id := by
  rw [same.rest]
  rfl

private theorem selectMembers_congr (same : SameExceptRedacted db db') (t t' : ObjectType)
    (sel : Selection) : selectMembers db t t' sel = selectMembers db' t t' sel := by
  rw [same.rest]
  rfl

private theorem selectParents_congr (same : SameExceptRedacted db db') (t t' : ObjectType)
    (sel : Selection) : selectParents db t t' sel = selectParents db' t t' sel := by
  rw [same.rest]
  rfl

private theorem relations_congr (same : SameExceptRedacted db db') (sel : Selection) (drop : Bool) :
    selectRelationsFromRelations db sel drop = selectRelationsFromRelations db' sel drop := by
  rw [same.rest]
  rfl

theorem selectChangesets_congr (same : SameExceptRedacted db db') (sel : Selection)
    (ids : List Int) : selectChangesets db sel ids = selectChangesets db' sel ids := by
  rw [same.rest]
  rfl

private theorem selectHistorical_congr (same : SameExceptRedacted db db')
    (hidden : sel.redactionsVisible = false) (eds : List Edition) :
    selectHistorical db t sel eds = selectHistorical db' t sel eds := by
  unfold selectHistorical
  rw [insertEditions_congr same hidden]

private theorem selectWithHistory_congr (same : SameExceptRedacted db db')
    (hidden : sel.redactionsVisible = false) (ids : List Nat) :
    selectWithHistory db t sel ids = selectWithHistory db' t sel ids := by
  unfold selectWithHistory
  rw [insertEditions_congr same hidden]

private theorem selectByChangesets_congr (same : SameExceptRedacted db db')
    (hidden : sel.redactionsVisible = false) (ids : List Int) :
    selectByChangesets db t sel ids = selectByChangesets db' t sel ids := by
  unfold selectByChangesets
  rw [insertEditions_congr same hidden]

end Selecting

section Selected

/-- Editions that do not name a redacted row. -/
def Plain (db : Db) (t : ObjectType) (ed : Edition) : Prop :=
  ∀ h, (db.history t).find? (ofLex ed) = some h → h.redactionId = none

/-- A selection from which nothing redacted is read. -/
structure Clean (db : Db) (sel : Selection) : Prop where
  hidden : sel.redactionsVisible = false
  historic : ∀ t, ∀ ed ∈ sel.historic t, Plain db t ed

theorem clean_empty (db : Db) : Clean db Selection.empty where
  hidden := rfl
  historic _ ed member := absurd member (Finset.notMem_empty ed)

private theorem clean_insertEditions (clean : Clean db sel) {hits : HistoryRow t → Bool} {n : Nat}
    {sel' : Selection}
    (done : insertEditions t sel (((db.history t).select (fun r =>
      hits r && unredacted t sel r)).map HistoryRow.toCurrentRow) = .ok (n, sel')) : Clean db sel' := by
  unfold insertEditions at done
  obtain ⟨found, read, last⟩ := bind_eq_ok.mp done
  cases last
  refine ⟨clean.hidden, fun t' ed member => ?_⟩
  by_cases here : t' = t
  · subst here
    simp only [Function.update_self, Finset.mem_union] at member
    rcases member with old | new
    · exact clean.historic t' ed old
    · unfold readEditions at read
      split at read
      · cases read
        simp only [List.mem_toFinset, List.mem_map, Table.mem_select, unredacted, clean.hidden,
          Bool.or_false, Bool.and_eq_true, Option.isNone_iff_eq_none] at new
        obtain ⟨_, ⟨h, ⟨row, -, plain⟩, rfl⟩, rfl⟩ := new
        intro h' named
        obtain ⟨row', key⟩ := Table.find?_eq_some.mp named
        rw [Table.eq_of_key row' row key]
        exact plain
      · cases read
  · simp only [Function.update_of_ne here] at member
    exact clean.historic t' ed member

/-- Only the current objects or the changesets of a selection have changed. -/
structure KeepsHistoric (sel sel' : Selection) : Prop where
  historic : sel'.historic = sel.historic
  visible : sel'.redactionsVisible = sel.redactionsVisible

namespace KeepsHistoric

theorem refl (sel : Selection) : KeepsHistoric sel sel := ⟨rfl, rfl⟩

theorem trans {sel sel₁ sel₂ : Selection} (first : KeepsHistoric sel sel₁)
    (next : KeepsHistoric sel₁ sel₂) : KeepsHistoric sel sel₂ :=
  ⟨next.historic.trans first.historic, next.visible.trans first.visible⟩

theorem clean {sel' : Selection} (keeps : KeepsHistoric sel sel') (before : Clean db sel) :
    Clean db sel' where
  hidden := keeps.visible.trans before.hidden
  historic t ed member := before.historic t ed (keeps.historic ▸ member)

theorem selectObjects (sel : Selection) (ids : List Nat) :
    KeepsHistoric sel (selectObjects db t sel ids).2 := ⟨rfl, rfl⟩

theorem selectMembers (t t' : ObjectType) (sel : Selection) :
    KeepsHistoric sel (selectMembers db t t' sel) := by
  unfold DataSelection.selectMembers
  split
  · exact refl sel
  · exact ⟨rfl, rfl⟩

theorem selectParents (t t' : ObjectType) (sel : Selection) :
    KeepsHistoric sel (selectParents db t t' sel) := by
  unfold DataSelection.selectParents
  split
  · exact refl sel
  · exact ⟨rfl, rfl⟩

theorem selectRelationsFromRelations (sel : Selection) (drop : Bool) :
    KeepsHistoric sel (selectRelationsFromRelations db sel drop) := by
  unfold DataSelection.selectRelationsFromRelations
  split
  · exact refl sel
  · cases drop with
    | false => exact ⟨rfl, rfl⟩
    | true => exact ⟨rfl, rfl⟩

end KeepsHistoric

end Selected

section Responders

variable {cfg : Settings} {limits : MapLimits}

private theorem mapResponder_keeps {bounds : GeoBox} {sel' : Selection}
    (done : mapResponder cfg limits db sel bounds = .ok sel') : KeepsHistoric sel sel' := by
  have nodes : KeepsHistoric sel (selectNodesFromBbox db sel cfg bounds limits.maxNodes).2 :=
    ⟨rfl, rfl⟩
  unfold mapResponder at done
  generalize selectNodesFromBbox db sel cfg bounds limits.maxNodes = found at done nodes
  dsimp only at done
  split at done
  · cases done
  · split at done
    · rw [Except.ok.injEq] at done
      subst done
      exact nodes.trans ((KeepsHistoric.selectParents _ _ _).trans
        ((KeepsHistoric.selectMembers _ _ _).trans ((KeepsHistoric.selectParents _ _ _).trans
          ((KeepsHistoric.selectParents _ _ _).trans (KeepsHistoric.selectRelationsFromRelations _ _)))))
    · rw [Except.ok.injEq] at done
      subst done
      exact nodes

private theorem objectResponder_keeps {id : Nat} {sel' : Selection}
    (done : objectResponder db sel t id = .ok sel') : KeepsHistoric sel sel' := by
  unfold objectResponder at done
  dsimp only at done
  repeat' split at done
  all_goals cases done
  exact KeepsHistoric.selectObjects sel [id]

private theorem wayFullResponder_keeps {id : Nat} {sel' : Selection}
    (done : wayFullResponder db sel id = .ok sel') : KeepsHistoric sel sel' := by
  unfold wayFullResponder at done
  dsimp only at done
  split at done
  · cases done
  · obtain ⟨_, -, last⟩ := bind_eq_ok.mp done
    cases last
    exact (KeepsHistoric.selectObjects sel [id]).trans (KeepsHistoric.selectMembers _ _ _)

private theorem relationFullResponder_keeps {id : Nat} {sel' : Selection}
    (done : relationFullResponder db sel id = .ok sel') : KeepsHistoric sel sel' := by
  unfold relationFullResponder at done
  dsimp only at done
  split at done
  · cases done
  · obtain ⟨_, -, last⟩ := bind_eq_ok.mp done
    rw [Except.ok.injEq] at last
    subst last
    exact (KeepsHistoric.selectObjects sel [id]).trans ((KeepsHistoric.selectMembers _ _ _).trans
      ((KeepsHistoric.selectMembers _ _ _).trans ((KeepsHistoric.selectMembers _ _ _).trans
        (KeepsHistoric.selectMembers _ _ _))))

private theorem parentsResponder_keeps {t t' : ObjectType} {id : Nat} {sel' : Selection}
    (done : parentsResponder db sel t t' id = .ok sel') : KeepsHistoric sel sel' := by
  have dropped : ∀ sel₁ : Selection, KeepsHistoric sel₁ (dropObjects t' sel₁) := fun _ => ⟨rfl, rfl⟩
  unfold parentsResponder at done
  dsimp only at done
  cases done
  refine KeepsHistoric.trans ?_ (dropped _)
  split
  · exact (KeepsHistoric.selectObjects sel [id]).trans (KeepsHistoric.selectParents _ _ _)
  · exact KeepsHistoric.selectObjects sel [id]

private theorem relationRelationsResponder_keeps {id : Nat} {sel' : Selection}
    (done : relationRelationsResponder db sel id = .ok sel') : KeepsHistoric sel sel' := by
  unfold relationRelationsResponder at done
  dsimp only at done
  split at done
  · cases done
    exact (KeepsHistoric.selectObjects sel [id]).trans
      (KeepsHistoric.selectRelationsFromRelations _ _)
  · cases done
    exact ⟨rfl, rfl⟩

private theorem changesetResponder_keeps {id : Int} {discussion : Bool} {sel' : Selection}
    (done : changesetResponder db sel id discussion = .ok sel') : KeepsHistoric sel sel' := by
  unfold changesetResponder at done
  dsimp only at done
  split at done
  · cases done
  · cases discussion with
    | false =>
        cases done
        exact ⟨rfl, rfl⟩
    | true =>
        cases done
        exact ⟨rfl, rfl⟩

private theorem selectHistorical_clean (clean : Clean db sel) {eds : List Edition} {n : Nat}
    {sel' : Selection} (done : selectHistorical db t sel eds = .ok (n, sel')) : Clean db sel' := by
  unfold selectHistorical at done
  split at done
  · cases done
    exact clean
  · exact clean_insertEditions clean done

private theorem selectWithHistory_clean (clean : Clean db sel) {ids : List Nat} {n : Nat}
    {sel' : Selection} (done : selectWithHistory db t sel ids = .ok (n, sel')) : Clean db sel' := by
  unfold selectWithHistory at done
  split at done
  · cases done
    exact clean
  · exact clean_insertEditions clean done

private theorem selectHistoricalByChangesets_clean (clean : Clean db sel) {ids : List Int} {n : Nat}
    {sel' : Selection} (done : selectHistoricalByChangesets db sel ids = .ok (n, sel')) :
    Clean db sel' := by
  unfold selectHistoricalByChangesets at done
  split at done
  · cases done
    exact clean
  · obtain ⟨⟨_, sel₁⟩, nodes, rest⟩ := bind_eq_ok.mp done
    obtain ⟨⟨_, sel₂⟩, ways, rest⟩ := bind_eq_ok.mp rest
    obtain ⟨⟨_, sel₃⟩, relations, last⟩ := bind_eq_ok.mp rest
    cases last
    exact clean_insertEditions (clean_insertEditions (clean_insertEditions clean nodes) ways) relations

theorem responder_clean (clean : Clean db sel) {e : Endpoint} {sel' : Selection}
    (done : e.responder cfg limits db sel = .ok sel') : Clean db sel' := by
  cases e with
  | map bounds => exact (mapResponder_keeps done).clean clean
  | object t id => exact (objectResponder_keeps done).clean clean
  | version t id v =>
      obtain ⟨⟨n, sel₁⟩, selected, last⟩ := bind_eq_ok.mp done
      dsimp only at last
      split at last
      · cases last
      · cases last
        exact selectHistorical_clean clean selected
  | history t id =>
      obtain ⟨⟨n, sel₁⟩, selected, last⟩ := bind_eq_ok.mp done
      dsimp only at last
      split at last
      · cases last
      · cases last
        exact selectWithHistory_clean clean selected
  | objects t ids =>
      obtain ⟨_, -, done⟩ := bind_eq_ok.mp done
      obtain ⟨_, -, done⟩ := bind_eq_ok.mp done
      obtain ⟨⟨n, sel₁⟩, selected, last⟩ := bind_eq_ok.mp done
      dsimp only at last
      split at last
      · cases last
      · cases last
        exact selectHistorical_clean ((KeepsHistoric.selectObjects sel _).clean clean) selected
  | wayFull id => exact (wayFullResponder_keeps done).clean clean
  | relationFull id => exact (relationFullResponder_keeps done).clean clean
  | nodeWays id => exact (parentsResponder_keeps done).clean clean
  | nodeRelations id => exact (parentsResponder_keeps done).clean clean
  | wayRelations id => exact (parentsResponder_keeps done).clean clean
  | relationRelations id => exact (relationRelationsResponder_keeps done).clean clean
  | changeset id discussion => exact (changesetResponder_keeps done).clean clean
  | changesetDownload id =>
      have kept : KeepsHistoric sel (selectChangesets db sel [id]).2 := ⟨rfl, rfl⟩
      change changesetDownloadResponder db sel id = _ at done
      unfold changesetDownloadResponder at done
      dsimp only at done
      split at done
      · cases done
      · obtain ⟨⟨n, sel₁⟩, selected, last⟩ := bind_eq_ok.mp done
        cases last
        exact selectHistoricalByChangesets_clean (kept.clean clean) selected

private theorem selectHistoricalByChangesets_congr (same : SameExceptRedacted db db')
    (clean : Clean db sel) (ids : List Int) :
    selectHistoricalByChangesets db sel ids = selectHistoricalByChangesets db' sel ids := by
  unfold selectHistoricalByChangesets
  split
  · rfl
  · rw [← selectByChangesets_congr same clean.hidden]
    cases nodes : selectByChangesets db .node sel ids with
    | error e => rfl
    | ok first =>
        have clean₁ : Clean db first.2 := clean_insertEditions clean nodes
        dsimp only [bind, Except.bind]
        rw [← selectByChangesets_congr same clean₁.hidden]
        cases ways : selectByChangesets db .way first.2 ids with
        | error e => rfl
        | ok second =>
            have clean₂ : Clean db second.2 := clean_insertEditions clean₁ ways
            dsimp only
            rw [← selectByChangesets_congr same clean₂.hidden]

private theorem parentsResponder_congr (same : SameExceptRedacted db db') (t t' : ObjectType)
    (id : Nat) : parentsResponder db sel t t' id = parentsResponder db' sel t t' id := by
  unfold parentsResponder
  simp only [selectObjects_congr same, checkVisibility_congr same, selectParents_congr same]

theorem responder_congr (same : SameExceptRedacted db db') (clean : Clean db sel) (e : Endpoint) :
    e.responder cfg limits db sel = e.responder cfg limits db' sel := by
  cases e with
  | version t id v =>
      change versionResponder db sel t id v = versionResponder db' sel t id v
      unfold versionResponder
      rw [selectHistorical_congr same clean.hidden]
  | history t id =>
      change historyResponder db sel t id = historyResponder db' sel t id
      unfold historyResponder
      rw [selectWithHistory_congr same clean.hidden]
  | objects t ids =>
      change objectsResponder db sel t ids = objectsResponder db' sel t ids
      unfold objectsResponder
      simp only [← selectObjects_congr same]
      rw [selectHistorical_congr same]
      exact clean.hidden
  | changesetDownload id =>
      have kept : KeepsHistoric sel (selectChangesets db sel [id]).2 := ⟨rfl, rfl⟩
      change changesetDownloadResponder db sel id = changesetDownloadResponder db' sel id
      unfold changesetDownloadResponder
      simp only [← selectChangesets_congr same]
      rw [selectHistoricalByChangesets_congr same (kept.clean clean)]
  | map bounds =>
      have nodes : selectNodesFromBbox db sel cfg bounds limits.maxNodes =
          selectNodesFromBbox db' sel cfg bounds limits.maxNodes := by
        rw [same.rest]
        rfl
      change mapResponder cfg limits db sel bounds = mapResponder cfg limits db' sel bounds
      unfold mapResponder
      simp only [nodes, selectParents_congr same, selectMembers_congr same, relations_congr same]
  | object t id =>
      change objectResponder db sel t id = objectResponder db' sel t id
      unfold objectResponder
      simp only [selectObjects_congr same, checkVisibility_congr same]
  | wayFull id =>
      change wayFullResponder db sel id = wayFullResponder db' sel id
      unfold wayFullResponder checkFull
      simp only [selectObjects_congr same, checkVisibility_congr same, selectMembers_congr same]
  | relationFull id =>
      change relationFullResponder db sel id = relationFullResponder db' sel id
      unfold relationFullResponder checkFull
      simp only [selectObjects_congr same, checkVisibility_congr same, selectMembers_congr same]
  | nodeWays id => exact parentsResponder_congr same .way .node id
  | nodeRelations id => exact parentsResponder_congr same .relation .node id
  | wayRelations id => exact parentsResponder_congr same .relation .way id
  | relationRelations id =>
      change relationRelationsResponder db sel id = relationRelationsResponder db' sel id
      unfold relationRelationsResponder
      simp only [selectObjects_congr same, checkVisibility_congr same, relations_congr same]
  | changeset id discussion =>
      change changesetResponder db sel id discussion = changesetResponder db' sel id discussion
      unfold changesetResponder
      simp only [selectChangesets_congr same]

end Responders

section Ordering

private theorem orderByKey_congr (same : SameExceptRedacted db db') {h : HistoryRow t}
    (member : h ∈ db.history t) (plain : h.redactionId = none) :
    orderByKey (db.historyTagsOf t h.id h.version) =
      orderByKey (db'.historyTagsOf t h.id h.version) := by
  have perm : ((db.historyTags t).select (fun r =>
      decide (r.owner = h.id ∧ r.version = h.version))).Perm ((db'.historyTags t).select (fun r =>
        decide (r.owner = h.id ∧ r.version = h.version))) :=
    select_perm fun r hit =>
      same.tags t h member plain r (of_decide_eq_true hit).1 (of_decide_eq_true hit).2
  exact insertionSort_congr (fun p : String × String => p.1) (perm.map _)
    (nodup_historyTagsOf t db h.id h.version)

private theorem orderBySequence_congr (same : SameExceptRedacted db db') {h : HistoryRow t}
    (member : h ∈ db.history t) (plain : h.redactionId = none) :
    orderBySequence (db.historyRefsOf t h.id h.version) =
      orderBySequence (db'.historyRefsOf t h.id h.version) := by
  have perm : ((db.historyRefs t).select (fun r =>
      decide (r.owner = h.id ∧ r.version = h.version))).Perm ((db'.historyRefs t).select (fun r =>
        decide (r.owner = h.id ∧ r.version = h.version))) :=
    select_perm fun r hit =>
      same.refs t h member plain r (of_decide_eq_true hit).1 (of_decide_eq_true hit).2
  exact congrArg (List.map Prod.snd) (insertionSort_congr (fun p : Nat × Ref t => p.1) (perm.map _)
    (nodup_historyRefsOf t db h.id h.version))

end Ordering

section Writing

variable {accounts : Accounts}

/-- What the extraction uses of a row. -/
private def normal (x : Extracted t) : CurrentRow t × List (String × String) × List (Ref t) :=
  (x.row, orderByKey x.tags, orderBySequence x.refs)

private theorem extract_congr (same : SameExceptRedacted db db') {x x' : Extracted t}
    (normals : normal x = normal x') :
    extract (⟨db, accounts⟩ : Store) x = extract ⟨db', accounts⟩ x' := by
  have parts := Prod.mk.inj normals
  obtain ⟨tags, refs⟩ := Prod.mk.inj parts.2
  have users : ∀ c, userOf (⟨db, accounts⟩ : Store) c = userOf ⟨db', accounts⟩ c := by
    intro c
    rw [same.rest]
    rfl
  unfold extract extractElem
  rw [parts.1, tags, refs]
  simp only [users]

private theorem writeRows_congr (same : SameExceptRedacted db db') {rows rows' : List (Extracted t)}
    (normals : rows.map normal = rows'.map normal) :
    writeRows (⟨db, accounts⟩ : Store) t rows = writeRows ⟨db', accounts⟩ t rows' := by
  have related : List.Forall₂ (fun x x' => normal x = normal x') rows rows' := by
    have equal : List.Forall₂ (· = ·) (rows.map normal) (rows'.map normal) := by
      rw [normals, List.forall₂_eq_eq_eq]
    exact List.forall₂_map_right_iff.mp (List.forall₂_map_left_iff.mp equal)
  have changesets : rows.map (fun x => x.row.changesetId) = rows'.map (fun x => x.row.changesetId) := by
    rw [← List.forall₂_eq_eq_eq, List.forall₂_map_left_iff, List.forall₂_map_right_iff]
    exact related.imp fun x x' both => congrArg CurrentRow.changesetId (Prod.mk.inj both).1
  have written : rows.map (extract (⟨db, accounts⟩ : Store)) = rows'.map (extract ⟨db', accounts⟩) := by
    rw [← List.forall₂_eq_eq_eq, List.forall₂_map_left_iff, List.forall₂_map_right_iff]
    exact related.imp fun x x' both => extract_congr same both
  have fetched : ∀ ids, fetchChangesets (⟨db, accounts⟩ : Store) ids =
      fetchChangesets ⟨db', accounts⟩ ids := by
    intro ids
    rw [same.rest]
    rfl
  unfold writeRows
  rw [changesets, written, fetched]

private theorem find_congr (same : SameExceptRedacted db db') {ed : Edition}
    (plain : Plain db t ed) (plain' : Plain db' t ed) :
    (db.history t).find? (ofLex ed) = (db'.history t).find? (ofLex ed) := by
  have moves : ∀ {db db' : Db}, SameExceptRedacted db db' → Plain db t ed → ∀ h,
      (db.history t).find? (ofLex ed) = some h → (db'.history t).find? (ofLex ed) = some h := by
    intro db db' same plain h found
    obtain ⟨member, key⟩ := Table.find?_eq_some.mp found
    exact Table.find?_eq_some.mpr ⟨(same.rows t h (plain h found)).mp member, key⟩
  cases found : (db.history t).find? (ofLex ed) with
  | some h => exact (moves same plain h found).symm
  | none =>
      cases found' : (db'.history t).find? (ofLex ed) with
      | none => rfl
      | some h =>
          rw [moves same.symm plain' h found'] at found
          cases found

private theorem historicRows_congr (same : SameExceptRedacted db db')
    (plain : ∀ ed ∈ sel.historic t, Plain db t ed) (plain' : ∀ ed ∈ sel.historic t, Plain db' t ed) :
    (historicRows (⟨db, accounts⟩ : Store) t sel).map normal =
      (historicRows ⟨db', accounts⟩ t sel).map normal := by
  unfold historicRows
  rw [List.map_filterMap, List.map_filterMap]
  refine List.filterMap_congr fun ed member => ?_
  have selected := (Finset.mem_sort _).mp member
  have found := find_congr same (plain ed selected) (plain' ed selected)
  simp only [← found, Option.map_map]
  refine Option.map_congr fun h named => ?_
  have row := (Table.find?_eq_some.mp named).1
  have open' := plain ed selected h named
  change (h.toCurrentRow, _, _) = (h.toCurrentRow, _, _)
  rw [orderByKey_congr same row open', orderBySequence_congr same row open']

private theorem plain_of_current (current : CurrentUnredacted db) {rows : List (CurrentRow t)}
    (members : ∀ r ∈ rows, r ∈ db.current t) {found : Finset Edition}
    (read : readEditions rows = .ok found) : ∀ ed ∈ found, Plain db t ed := by
  intro ed member
  unfold readEditions at read
  split at read
  · cases read
    simp only [List.mem_toFinset, List.mem_map] at member
    obtain ⟨r, inside, rfl⟩ := member
    exact current t r (members r inside)
  · cases read

/-- What is written of the selected objects is the same for both databases. -/
theorem writeObjects_congr (same : SameExceptRedacted db db') (current : CurrentUnredacted db)
    (current' : CurrentUnredacted db') (clean : Clean db sel) (clean' : Clean db' sel) :
    writeObjects (⟨db, accounts⟩ : Store) t sel = writeObjects ⟨db', accounts⟩ t sel := by
  have tables : db'.current = db.current := by
    rw [same.rest]
  have merged : mergeCurrent (⟨db, accounts⟩ : Store) t sel =
      mergeCurrent (⟨db', accounts⟩ : Store) t sel := by
    unfold mergeCurrent
    dsimp only
    rw [tables]
  have live : ∀ sel, currentRows (⟨db, accounts⟩ : Store) t sel = currentRows ⟨db', accounts⟩ t sel := by
    intro sel
    rw [same.rest]
    rfl
  have plain : ∀ {db : Db}, CurrentUnredacted db → Clean db sel → ∀ sel',
      mergeCurrent (⟨db, accounts⟩ : Store) t sel = .ok sel' →
      ∀ ed ∈ sel'.historic t, Plain db t ed := by
    intro db current clean sel' done ed member
    unfold mergeCurrent at done
    split at done
    · obtain ⟨found, read, last⟩ := bind_eq_ok.mp done
      cases last
      simp only [Function.update_self, Finset.mem_union] at member
      rcases member with old | new
      · exact clean.historic t ed old
      · refine plain_of_current current (fun r inside => ?_) read ed new
        obtain ⟨id, -, row⟩ := List.mem_filterMap.mp inside
        exact (Table.find?_eq_some.mp row).1
    · cases done
      exact clean.historic t ed member
  unfold writeObjects
  rw [← merged]
  cases done : mergeCurrent (⟨db, accounts⟩ : Store) t sel with
  | error e => rfl
  | ok sel' =>
      dsimp only
      split
      · rw [live, writeRows_congr same rfl]
      · split
        · exact writeRows_congr same (historicRows_congr same (plain current clean sel' done)
            (plain current' clean' sel' (merged ▸ done)))
        · rfl

section Documents

variable (same : SameExceptRedacted db db') (current : CurrentUnredacted db)
  (current' : CurrentUnredacted db') (clean : Clean db sel) (clean' : Clean db' sel)

include same current current' clean clean'

theorem writeCurrent_congr (bounds : Option GeoBox) :
    writeCurrent (⟨db, accounts⟩ : Store) sel bounds = writeCurrent ⟨db', accounts⟩ sel bounds := by
  have objects : ∀ t, writeObjects (⟨db, accounts⟩ : Store) t sel =
      writeObjects ⟨db', accounts⟩ t sel := fun t =>
    writeObjects_congr same current current' clean clean'
  unfold writeCurrent writeCalls
  simp only [objects]

/-- The documents of an endpoint are the same for both databases. -/
theorem write_congr (now : Int) (e : Endpoint) :
    e.write (⟨db, accounts⟩ : Store) sel now = e.write ⟨db', accounts⟩ sel now := by
  have osm : ∀ bounds, writeCurrent (⟨db, accounts⟩ : Store) sel bounds =
      writeCurrent ⟨db', accounts⟩ sel bounds := fun bounds =>
    writeCurrent_congr same current current' clean clean' bounds
  have objects : ∀ t, writeObjects (⟨db, accounts⟩ : Store) t sel =
      writeObjects ⟨db', accounts⟩ t sel := fun t =>
    writeObjects_congr same current current' clean clean'
  cases e with
  | map bounds => exact osm _
  | changeset id discussion =>
      rw [same.rest]
      rfl
  | changesetDownload id =>
      change writeOsmChange (⟨db, accounts⟩ : Store) sel = writeOsmChange ⟨db', accounts⟩ sel
      unfold writeOsmChange sortable
      simp only [objects]
  | _ => exact osm none

end Documents

end Writing

end Cgimap.Read.Redaction
