/- path: Cgimap/Read/Extraction
   generality: I
   source: none
   digest: Reading a row gives its content exactly when the version fits an int. -/

import Cgimap.Library.ExceptLists
import Cgimap.Read.DataSelection

set_option autoImplicit false
set_option relaxedAutoImplicit false

namespace Cgimap.Read.Extraction

open Cgimap.Library.ExceptLists
open Cgimap.Library.KeyedTable
open Cgimap.Model.Types
open Cgimap.Model.Database
open Cgimap.Model.Users
open Cgimap.Read.ArrayText
open Cgimap.Read.DataSelection

variable {t : ObjectType} {store : Store}

section Columns

theorem extractTags_columns (t : ObjectType) (tags : List (String × String)) :
    extractTags (tagColumn t (tags.map Prod.fst)) (tagColumn t (tags.map Prod.snd)) = .ok tags := by
  have read : ∀ texts, psqlArrayToVector (tagColumn t texts) = texts := by
    intro texts
    cases t with
    | node => exact psqlArrayToVector_arrayAggJoined texts
    | way => exact psqlArrayToVector_arrayAgg texts
    | relation => exact psqlArrayToVector_arrayAgg texts
  unfold extractTags
  simp only [read, List.length_map, if_true]
  exact congrArg Except.ok (List.zip_of_prod rfl rfl).symm

theorem typeFromName_name (t : ObjectType) : typeFromName t.name = .ok t := by
  cases t <;> rfl

theorem extractMembers_columns {members : List Member}
    (small : ∀ m ∈ members, m.memberId < 2 ^ 64) :
    extractMembers (arrayAgg (members.map (fun m => toString m.memberId)))
      (arrayAgg (members.map (fun m => m.memberType.name)))
      (arrayAgg (members.map Member.memberRole)) = .ok members := by
  have ids : psqlArrayIdsToVector (arrayAgg (members.map (fun m => toString m.memberId))) =
      .ok (members.map Member.memberId) := by
    have split : members.map (fun m => toString m.memberId) =
        (members.map Member.memberId).map toString := by
      rw [List.map_map]
      rfl
    rw [split]
    refine psqlArrayIdsToVector_arrayAgg fun id member => ?_
    obtain ⟨m, inside, rfl⟩ := List.mem_map.mp member
    exact small m inside
  unfold extractMembers
  rw [ids]
  change (if _ ∧ _ then _ else _) = _
  rw [psqlArrayToVector_arrayAgg, psqlArrayToVector_arrayAgg, if_pos (by simp), List.zip_map',
    List.zip_map', mapM_eq_ok, List.forall₂_map_left_iff, List.forall₂_same]
  intro m _
  simp only [typeFromName_name]
  rfl

private theorem extractWayNodes_columns {nodes : List WayNode}
    (small : ∀ w ∈ nodes, w.nodeId < 2 ^ 64) :
    psqlArrayIdsToVector (arrayAgg (nodes.map (fun w => toString w.nodeId))) =
      .ok (nodes.map WayNode.nodeId) := by
  have ids_small : ∀ id ∈ nodes.map WayNode.nodeId, id < 2 ^ 64 := List.forall_mem_map.mpr small
  have read := psqlArrayIdsToVector_arrayAgg ids_small
  rw [List.map_map] at read
  exact read

/-- What the three kinds of rows carry beside the columns that they share. -/
def content : {t : ObjectType} → CurrentRow t → List (Ref t) → Extra t
  | .node, r, _ => ((r.coord : NodeCoord).lon, (r.coord : NodeCoord).lat)
  | .way, _, refs => (refs : List WayNode).map WayNode.nodeId
  | .relation, _, refs => refs

theorem extractExtra_content (row : CurrentRow t) {refs : List (Ref t)}
    (small : ∀ r ∈ refs, r.target.2 < 2 ^ 64) : extractExtra row refs = .ok (content row refs) := by
  cases t with
  | node => rfl
  | way => exact extractWayNodes_columns small
  | relation => exact extractMembers_columns small

private theorem small_of_extractExtra {row : CurrentRow t} {refs : List (Ref t)} {extra : Extra t}
    (done : extractExtra row refs = .ok extra) : ∀ r ∈ refs, r.target.2 < 2 ^ 64 := by
  have listed : ∀ {α : Type} {l : List α} {f : α → Nat} {read : List Nat},
      psqlArrayIdsToVector (arrayAgg (l.map (fun a => toString (f a)))) = .ok read →
        ∀ a ∈ l, f a < 2 ^ 64 := by
    intro α l f read done a member
    have split : l.map (fun a => toString (f a)) = (l.map f).map toString := by
      rw [List.map_map]
      rfl
    rw [split] at done
    exact small_of_psqlArrayIdsToVector done _ (List.mem_map_of_mem member)
  cases t with
  | node => exact fun r => nomatch r
  | way => exact listed done
  | relation =>
      obtain ⟨ids, read, -⟩ := bind_eq_ok.mp done
      exact listed read

end Columns

section Keys

variable (db : Db) (t) (id v : Nat)

theorem nodup_tagsOf : ((db.tagsOf t id).map Prod.fst).Nodup := by
  unfold Db.tagsOf
  rw [List.map_map]
  refine nodup_select_column (db.currentTags t) fun r r' own own' k => ?_
  exact Prod.ext ((of_decide_eq_true own).trans (of_decide_eq_true own').symm) k

theorem nodup_refsOf : ((db.refsOf t id).map Prod.fst).Nodup := by
  unfold Db.refsOf
  rw [List.map_map]
  refine nodup_select_column (db.currentRefs t) fun r r' own own' position => ?_
  exact Prod.ext ((of_decide_eq_true own).trans (of_decide_eq_true own').symm) position

theorem nodup_historyTagsOf : ((db.historyTagsOf t id v).map Prod.fst).Nodup := by
  unfold Db.historyTagsOf
  rw [List.map_map]
  refine nodup_select_column (db.historyTags t) fun r r' own own' k => ?_
  obtain ⟨owner, version⟩ := of_decide_eq_true own
  obtain ⟨owner', version'⟩ := of_decide_eq_true own'
  exact Prod.ext (owner.trans owner'.symm) (Prod.ext (version.trans version'.symm) k)

theorem nodup_historyRefsOf : ((db.historyRefsOf t id v).map Prod.fst).Nodup := by
  unfold Db.historyRefsOf
  rw [List.map_map]
  refine nodup_select_column (db.historyRefs t) fun r r' own own' position => ?_
  obtain ⟨owner, version⟩ := of_decide_eq_true own
  obtain ⟨owner', version'⟩ := of_decide_eq_true own'
  exact Prod.ext (owner.trans owner'.symm) (Prod.ext (version.trans version'.symm) position)

end Keys

section Rows

def infoOf (store : Store) (r : CurrentRow t) : ElementInfo :=
  ⟨r.id, r.version, r.changesetId, toCharIso r.timestamp, (userOf store r.changesetId).1,
    (userOf store r.changesetId).2, r.visible⟩

/-- What `extract` makes of a row. -/
def contentOf (store : Store) (x : Extracted t) : Written t :=
  ⟨infoOf store x.row, content x.row (orderBySequence x.refs), orderByKey x.tags⟩

theorem extract_eq {x : Extracted t} (small : ∀ r ∈ x.refs, r.2.target.2 < 2 ^ 64) :
    extract store x = (do
      let _ ← asInt x.row.version
      .ok (contentOf store x)) := by
  have ordered : ∀ r ∈ orderBySequence x.refs, r.target.2 < 2 ^ 64 := by
    intro r member
    obtain ⟨p, inside, rfl⟩ := List.mem_map.mp member
    exact small p ((List.mem_insertionSort _).mp inside)
  unfold extract extractElem
  rw [extractExtra_content x.row ordered]
  dsimp only
  rw [extractTags_columns]
  unfold asInt
  split <;> rfl

/-- A row is read exactly when its version fits an `int`. -/
theorem extract_eq_ok {x : Extracted t} (small : ∀ r ∈ x.refs, r.2.target.2 < 2 ^ 64)
    {w : Written t} :
    extract store x = .ok w ↔ x.row.version < 2 ^ 31 ∧ w = contentOf store x := by
  rw [extract_eq small]
  unfold asInt
  split
  · rename_i fits
    change Except.ok (contentOf store x) = Except.ok w ↔ _
    rw [Except.ok.injEq]
    exact ⟨fun same => ⟨fits, same.symm⟩, fun both => both.2.symm⟩
  · rename_i large
    constructor
    · intro failed
      cases failed
    · exact fun both => absurd both.1 large

theorem contentOf_of_extract {x : Extracted t} {w : Written t} (done : extract store x = .ok w) :
    w = contentOf store x := by
  obtain ⟨extra, columns, -⟩ := bind_eq_ok.mp done
  have small : ∀ r ∈ x.refs, r.2.target.2 < 2 ^ 64 := by
    intro r member
    exact small_of_extractExtra columns r.2
      (List.mem_map_of_mem ((List.mem_insertionSort _).mpr member))
  exact ((extract_eq_ok small).mp done).2

end Rows

section Lists

variable {α : Type}

theorem untilError_eq {l : List (Except Exception α)} {out : List α} :
    untilError l = (out, none) ↔ l = out.map Except.ok := by
  induction l generalizing out with
  | nil =>
      constructor
      · intro same
        cases same
        rfl
      · intro same
        rw [List.map_eq_nil_iff.mp same.symm]
        rfl
  | cons x l ih =>
      cases x with
      | error e => cases out <;> simp [untilError]
      | ok a =>
          cases out with
          | nil => simp [untilError]
          | cons b out =>
              have rest := @ih out
              rw [Prod.ext_iff] at rest
              simp only [untilError, Prod.mk.injEq, List.cons.injEq, List.map_cons,
                Except.ok.injEq, and_assoc]
              rw [rest]

theorem extracted_of_writeRows {rows : List (Extracted t)} {out : List (Written t)}
    (complete : writeRows store t rows = (out, none)) {x : Extracted t} (member : x ∈ rows) :
    ∃ w ∈ out, extract store x = .ok w := by
  unfold writeRows at complete
  split at complete
  · cases complete
  · have all := untilError_eq.mp complete
    have inside : extract store x ∈ rows.map (extract store) := List.mem_map_of_mem member
    rw [all] at inside
    obtain ⟨w, listed, same⟩ := List.mem_map.mp inside
    exact ⟨w, listed, same.symm⟩

/-- Rows whose changesets have users are written up to the first that is not read. -/
theorem writeRows_eq {rows : List (Extracted t)}
    (users : ∀ x ∈ rows, (changesetUser store x.row.changesetId).isSome) :
    writeRows store t rows = untilError (rows.map (extract store)) := by
  have known : fetchChangesets store (rows.map (fun x => x.row.changesetId)).toFinset = .ok () := by
    have all : (inOrder (rows.map (fun x => x.row.changesetId)).toFinset).find?
        (fun id => (changesetUser store id).isNone) = none := by
      rw [List.find?_eq_none]
      intro id member missing
      rw [inOrder, Finset.mem_sort, List.mem_toFinset] at member
      obtain ⟨x, inside, rfl⟩ := List.mem_map.mp member
      rw [Option.isNone_iff_eq_none] at missing
      exact absurd (users x inside) (by rw [missing]; decide)
    unfold fetchChangesets
    rw [all]
  unfold writeRows
  rw [known]

theorem writeRows_singleton {x : Extracted t}
    (user : (changesetUser store x.row.changesetId).isSome) :
    writeRows store t [x] = untilError [extract store x] := by
  refine writeRows_eq fun y member => ?_
  rw [List.mem_singleton.mp member]
  exact user

end Lists

section Selections

variable (t) (id v : Nat)

def onlyObject : Selection :=
  { Selection.empty with current := Function.update Selection.empty.current t {id} }

def onlyEdition : Selection :=
  { Selection.empty with historic := Function.update Selection.empty.historic t {toLex (id, v)} }

def currentRow (db : Db) (r : CurrentRow t) : Extracted t :=
  ⟨r, db.tagsOf t r.id, db.refsOf t r.id⟩

def historicRow (db : Db) (h : HistoryRow t) : Extracted t :=
  ⟨h.toCurrentRow, db.historyTagsOf t h.id h.version, db.historyRefsOf t h.id h.version⟩

variable {t id v}

theorem writeObjects_onlyObject {r : CurrentRow t} (found : (store.db.current t).find? id = some r) :
    writeObjects store t (onlyObject t id) = writeRows store t [currentRow t store.db r] := by
  have own : r.id = id := (Table.find?_eq_some.mp found).2
  have merged : mergeCurrent store t (onlyObject t id) = .ok (onlyObject t id) := by
    unfold mergeCurrent
    rw [if_neg]
    exact fun both => both.2 rfl
  have current : (onlyObject t id).current t = {id} := Function.update_self ..
  have rows : currentRows store t (onlyObject t id) = [currentRow t store.db r] := by
    unfold currentRows
    rw [current, Finset.sort_singleton]
    subst own
    simp [found, currentRow]
  unfold writeObjects
  rw [merged]
  simp only [current, rows]
  rw [if_pos (Finset.singleton_ne_empty id)]

theorem writeObjects_onlyEdition {h : HistoryRow t}
    (found : (store.db.history t).find? (id, v) = some h) :
    writeObjects store t (onlyEdition t id v) = writeRows store t [historicRow t store.db h] := by
  have merged : mergeCurrent store t (onlyEdition t id v) = .ok (onlyEdition t id v) := by
    unfold mergeCurrent
    rw [if_neg]
    exact fun both => both.1 rfl
  have historic : (onlyEdition t id v).historic t = {toLex (id, v)} := Function.update_self ..
  have none : (onlyEdition t id v).current t = ∅ := rfl
  have rows : historicRows store t (onlyEdition t id v) = [historicRow t store.db h] := by
    unfold historicRows
    rw [historic, Finset.sort_singleton]
    simp [found, historicRow]
  unfold writeObjects
  rw [merged]
  simp only [none, historic, rows]
  rw [if_neg (by simp), if_pos (Finset.singleton_ne_empty _)]

/-- A selected edition is read from its row, whatever else is selected. -/
theorem extracted_of_edition {sel : Selection} {out : List (Written t)} {h : HistoryRow t}
    (selected : toLex (id, v) ∈ sel.historic t)
    (found : (store.db.history t).find? (id, v) = some h)
    (complete : writeObjects store t sel = (out, none)) :
    ∃ w ∈ out, extract store (historicRow t store.db h) = .ok w := by
  have listed : ∀ sel' : Selection, toLex (id, v) ∈ sel'.historic t →
      historicRow t store.db h ∈ historicRows store t sel' := by
    intro sel' inside
    refine List.mem_filterMap.mpr ⟨toLex (id, v), (Finset.mem_sort _).mpr inside, ?_⟩
    simp [found, historicRow]
  have some : sel.historic t ≠ ∅ := Finset.ne_empty_of_mem selected
  unfold writeObjects mergeCurrent at complete
  by_cases mixed : sel.current t ≠ ∅ ∧ sel.historic t ≠ ∅
  · rw [if_pos mixed] at complete
    cases read : readEditions ((sel.current t).sort.filterMap fun id =>
        (store.db.current t).find? id) with
    | error e =>
        rw [read] at complete
        cases complete
    | ok editions =>
        rw [read] at complete
        change (if _ then _ else _) = _ at complete
        simp only [Function.update_self, ne_eq, not_true, if_false] at complete
        have inside : toLex (id, v) ∈ sel.historic t ∪ editions := Finset.mem_union_left _ selected
        rw [if_pos (Finset.ne_empty_of_mem inside)] at complete
        exact extracted_of_writeRows complete (listed _ (by simpa using inside))
  · rw [if_neg mixed] at complete
    have none : sel.current t = ∅ := by
      by_contra nonempty
      exact mixed ⟨nonempty, some⟩
    change (if _ then _ else _) = _ at complete
    rw [if_neg (fun nonempty => nonempty none), if_pos some] at complete
    exact extracted_of_writeRows complete (listed sel selected)

/-- A selected object is read from its current row, or from the row of its version when
editions are selected too. -/
theorem extracted_of_object {sel : Selection} {out : List (Written t)} {r : CurrentRow t}
    {h : HistoryRow t} (selected : id ∈ sel.current t)
    (row : (store.db.current t).find? id = some r)
    (found : (store.db.history t).find? (id, r.version) = some h)
    (complete : writeObjects store t sel = (out, none)) :
    ∃ w ∈ out, extract store (currentRow t store.db r) = .ok w ∨
      extract store (historicRow t store.db h) = .ok w := by
  have own : r.id = id := (Table.find?_eq_some.mp row).2
  have some : sel.current t ≠ ∅ := Finset.ne_empty_of_mem selected
  have first : r ∈ (sel.current t).sort.filterMap fun id => (store.db.current t).find? id :=
    List.mem_filterMap.mpr ⟨id, (Finset.mem_sort _).mpr selected, row⟩
  unfold writeObjects mergeCurrent at complete
  by_cases mixed : sel.current t ≠ ∅ ∧ sel.historic t ≠ ∅
  · rw [if_pos mixed] at complete
    cases read : readEditions ((sel.current t).sort.filterMap fun id =>
        (store.db.current t).find? id) with
    | error e =>
        rw [read] at complete
        cases complete
    | ok editions =>
        have edition : toLex (id, r.version) ∈ editions := by
          unfold readEditions at read
          split at read
          · cases read
            rw [List.mem_toFinset, List.mem_map]
            exact ⟨r, first, by rw [own]⟩
          · cases read
        rw [read] at complete
        change (if _ then _ else _) = _ at complete
        simp only [Function.update_self, ne_eq, not_true, if_false] at complete
        have inside : toLex (id, r.version) ∈ sel.historic t ∪ editions :=
          Finset.mem_union_right _ edition
        rw [if_pos (Finset.ne_empty_of_mem inside)] at complete
        have listed : historicRow t store.db h ∈ historicRows store t
            { sel with
              historic := Function.update sel.historic t (sel.historic t ∪ editions)
              current := Function.update sel.current t ∅ } := by
          refine List.mem_filterMap.mpr ⟨toLex (id, r.version), (Finset.mem_sort _).mpr ?_, ?_⟩
          · simpa using inside
          · simp [found, historicRow]
        obtain ⟨w, member, done⟩ := extracted_of_writeRows complete listed
        exact ⟨w, member, .inr done⟩
  · rw [if_neg mixed] at complete
    change (if _ then _ else _) = _ at complete
    rw [if_pos some] at complete
    have listed : currentRow t store.db r ∈ currentRows store t sel := by
      refine List.mem_filterMap.mpr ⟨id, (Finset.mem_sort _).mpr selected, ?_⟩
      subst own
      simp [row, currentRow]
    obtain ⟨w, member, done⟩ := extracted_of_writeRows complete listed
    exact ⟨w, member, .inl done⟩

end Selections

end Cgimap.Read.Extraction
