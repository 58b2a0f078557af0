/- path: Cgimap/Output/ChangesetDownloads
   generality: I
   source: src/api06/changeset_download_handler.cpp, src/osmchange_responder.cpp,
     src/backend/apidb/readonly_pgsql_selection.cpp
   digest: What the download of a changeset holds, in every committed state. -/

import Cgimap.Changeset.ConcurrentCounters
import Cgimap.Output.CurrentDocuments
import Mathlib.Data.String.Basic

set_option autoImplicit false
set_option relaxedAutoImplicit false

namespace Cgimap.Output.ChangesetDownloads

open Cgimap.Library.ExceptLists
open Cgimap.Library.KeyedTable
open Cgimap.Library.OwnedRecords
open Cgimap.Model.Types
open Cgimap.Model.Database
open Cgimap.Model.Users
open Cgimap.Osmchange.ObjectState
open Cgimap.Osmchange.ElementTrace
open Cgimap.Osmchange.ElementCounts
open Cgimap.Osmchange.Integrity
open Cgimap.Osmchange.VersionHistory
open Cgimap.Osmchange.OwnedWrites
open Cgimap.Osmchange.XmlParser (FromCharsDouble)
open Cgimap.Changeset.Responders
open Cgimap.Changeset.PayloadSizes (Sax LimitsExpansion)
open Cgimap.Changeset.Accounting
open Cgimap.Changeset.ClosingRaces
open Cgimap.Changeset.OwnedRequests
open Cgimap.Changeset.ConcurrentHistories
open Cgimap.Changeset.ConcurrentCounters
open Cgimap.Read.DataSelection
open Cgimap.Read.Endpoints
open Cgimap.Read.Extraction
open Cgimap.Output.Documents
open Cgimap.Output.CurrentDocuments

section Selections

variable {db : Db} {sel sel' : Selection} {c : Int} {t : ObjectType}
  {P : ObjectType → Nat × Nat → Prop}

/-- The versions that a changeset has made, without the redacted ones if these are hidden. -/
def downloaded (db : Db) (redactions : Bool) (c : Int) (t : ObjectType) : List (HistoryRow t) :=
  (db.history t).select (fun r =>
    decide (r.changesetId = c) && (r.redactionId.isNone || redactions))

theorem mem_downloaded {redactions : Bool} {h : HistoryRow t} : h ∈ downloaded db redactions c t ↔
    h ∈ db.history t ∧ h.changesetId = c ∧ (h.redactionId.isNone || redactions) = true := by
  rw [downloaded, Table.mem_select, Bool.and_eq_true, decide_eq_true_eq]

structure SelectsVersions (sel : Selection) (P : ObjectType → Nat × Nat → Prop) : Prop where
  current : ∀ t, sel.current t = ∅
  historic : ∀ t k, toLex k ∈ sel.historic t ↔ P t k

private theorem selects_byChangesets (selects : SelectsVersions sel P) {n : Nat}
    (done : selectByChangesets db t sel [c] = .ok (n, sel')) :
    sel'.redactionsVisible = sel.redactionsVisible ∧ SelectsVersions sel' (fun u k =>
      P u k ∨ u = t ∧ k ∈ (downloaded db sel.redactionsVisible c u).map HistoryRow.key) := by
  obtain ⟨found, read, rest⟩ := bind_eq_ok.mp done
  unfold readEditions at read
  split at read
  · cases read
    cases rest
    refine ⟨rfl, selects.current, fun u k => ?_⟩
    by_cases own : u = t
    · subst own
      have rows : toLex k ∈ (((db.history u).select (fun r => decide (r.changesetId ∈ [c]) &&
          unredacted u sel r)).map HistoryRow.toCurrentRow).map (fun r => toLex (r.id, r.version)) ↔
            k ∈ (downloaded db sel.redactionsVisible c u).map HistoryRow.key := by
        rw [List.map_map, downloaded]
        simp only [List.mem_singleton]
        rfl
      simp only [Function.update_self, Finset.mem_union, List.mem_toFinset, selects.historic, rows,
        true_and]
    · simp only [Function.update_of_ne own, selects.historic, own, false_and, or_false]
  · cases read

/-- The download selects the versions that the changeset has made. -/
theorem selects_download (fresh : Selects sel fun _ _ => False)
    (accepted : changesetDownloadResponder db sel c = .ok sel') :
    (db.changesets.find? c).isSome ∧ SelectsVersions sel' (fun t k =>
      k ∈ (downloaded db sel.redactionsVisible c t).map HistoryRow.key) := by
  have start : SelectsVersions (selectChangesets db sel [c]).2 (fun _ _ => False) := by
    refine ⟨fun t => Finset.eq_empty_of_forall_notMem fun id => (fresh.current t id).mp, fun t k => ?_⟩
    change toLex k ∈ sel.historic t ↔ False
    rw [fresh.historic]
    exact iff_of_false (Finset.notMem_empty _) id
  unfold changesetDownloadResponder at accepted
  dsimp only at accepted
  split at accepted
  · cases accepted
  · rename_i counted
    refine ⟨?_, ?_⟩
    · by_contra absent
      refine counted ?_
      simp [selectChangesets, Finset.filter_singleton, absent]
    · obtain ⟨⟨_, last⟩, selected, same⟩ := bind_eq_ok.mp accepted
      cases same
      unfold selectHistoricalByChangesets at selected
      rw [if_neg (List.cons_ne_nil c [])] at selected
      obtain ⟨⟨_, first⟩, nodes, selected⟩ := bind_eq_ok.mp selected
      obtain ⟨⟨_, second⟩, ways, selected⟩ := bind_eq_ok.mp selected
      obtain ⟨⟨_, third⟩, relations, selected⟩ := bind_eq_ok.mp selected
      cases selected
      obtain ⟨shown, one⟩ := selects_byChangesets start nodes
      obtain ⟨shown', two⟩ := selects_byChangesets one ways
      obtain ⟨-, three⟩ := selects_byChangesets two relations
      refine ⟨three.current, fun t k => (three.historic t k).trans ?_⟩
      rw [shown', shown]
      cases t with
      | node => simp [selectChangesets]
      | way => simp [selectChangesets]
      | relation => simp [selectChangesets]

end Selections

section Rows

variable {store : Store} {sel : Selection} {P : ObjectType → Nat × Nat → Prop} {t : ObjectType}

def versionContent (store : Store) (h : HistoryRow t) : AnyWritten :=
  ⟨t, contentOf store (historicRow t store.db h)⟩

theorem perm_historicRows {rows : List (HistoryRow t)} (distinct : rows.Nodup)
    (stored : ∀ h ∈ rows, h ∈ store.db.history t)
    (same : ∀ k, toLex k ∈ sel.historic t ↔ k ∈ rows.map HistoryRow.key) :
    (historicRows store t sel).Perm (rows.map (historicRow t store.db)) := by
  have read : historicRows store t sel = ((sel.historic t).sort.filterMap (fun ed =>
      (store.db.history t).find? (ofLex ed))).map (historicRow t store.db) := by
    unfold historicRows
    rw [List.map_filterMap]
    rfl
  rw [read]
  refine List.Perm.map _ ((List.perm_ext_iff_of_nodup ?_ distinct).mpr fun h => ?_)
  · refine List.Nodup.filterMap (fun ed ed' h found found' => ?_) (Finset.sort_nodup _ _)
    exact ofLex_inj.mp ((Table.find?_eq_some.mp found).2.symm.trans (Table.find?_eq_some.mp found').2)
  · simp only [List.mem_filterMap, Finset.mem_sort, Table.find?_eq_some]
    constructor
    · rintro ⟨ed, inside, row, key⟩
      obtain ⟨h', member, key'⟩ := List.mem_map.mp ((same (ofLex ed)).mp inside)
      rwa [Table.eq_of_key row (stored h' member) (key.trans key'.symm)]
    · exact fun member => ⟨toLex h.key, (same h.key).mpr (List.mem_map_of_mem member), stored h member, rfl⟩

private theorem reaches_sortable (store : Store) (selects : SelectsVersions sel P) (t : ObjectType) :
    Reaches (sortable store sel t)
      ((historicRows store t sel).map (fun x => (⟨t, contentOf store x⟩ : AnyWritten))) := by
  have rows := (reaches_writeRows store (historicRows store t sel)).map (Sigma.mk t)
  rw [List.map_map] at rows
  have merged : mergeCurrent store t sel = .ok sel := by
    unfold mergeCurrent
    rw [if_neg]
    exact fun both => both.1 (selects.current t)
  have same : writeObjects store t sel = writeRows store t (historicRows store t sel) := by
    unfold writeObjects
    rw [merged]
    by_cases none : sel.historic t = ∅
    · simp [none, selects.current t, historicRows, writeRows, fetchChangesets, inOrder, untilError]
    · simp [none, selects.current t]
  unfold sortable
  rw [same]
  exact rows

/-- The contents of the versions that a changeset has made. -/
def versionsOf (store : Store) (redactions : Bool) (c : Int) : List AnyWritten :=
  (downloaded store.db redactions c .node).map (versionContent store) ++
    ((downloaded store.db redactions c .way).map (versionContent store) ++
      (downloaded store.db redactions c .relation).map (versionContent store))

theorem mem_versionsOf {redactions : Bool} {c : Int} {w : AnyWritten} :
    w ∈ versionsOf store redactions c ↔
      ∃ t, ∃ h ∈ downloaded store.db redactions c t, w = versionContent store h := by
  simp only [versionsOf, List.mem_append, List.mem_map]
  constructor
  · rintro (⟨h, made, rfl⟩ | ⟨h, made, rfl⟩ | ⟨h, made, rfl⟩)
    · exact ⟨_, h, made, rfl⟩
    · exact ⟨_, h, made, rfl⟩
    · exact ⟨_, h, made, rfl⟩
  · rintro ⟨t, h, made, rfl⟩
    cases t with
    | node => exact .inl ⟨h, made, rfl⟩
    | way => exact .inr (.inl ⟨h, made, rfl⟩)
    | relation => exact .inr (.inr ⟨h, made, rfl⟩)

theorem perm_of_readAll (store : Store) {redactions : Bool} {c : Int}
    (selects : SelectsVersions sel fun t k =>
      k ∈ (downloaded store.db redactions c t).map HistoryRow.key)
    (complete : (readAll store sel).2 = none) :
    (readAll store sel).1.Perm (versionsOf store redactions c) := by
  have part := reaches_sortable store selects
  have whole := ((part .node).andThen ((part .way).andThen (part .relation))).complete complete
  have rows : ∀ t, ((historicRows store t sel).map (fun x => (⟨t, contentOf store x⟩ : AnyWritten))).Perm
      ((downloaded store.db redactions c t).map (versionContent store)) := by
    intro t
    have read := (perm_historicRows ((List.Nodup.of_map _ (store.db.history t).nodup).filter _)
      (fun h made => (mem_downloaded.mp made).1) (selects.historic t)).map
        (fun x => (⟨t, contentOf store x⟩ : AnyWritten))
    rwa [List.map_map] at read
  change (readAll store sel).1 = _ at whole
  rw [whole]
  exact (rows .node).append ((rows .way).append (rows .relation))

end Rows

section Order

/-- The order of the elements of an osmChange is the order of these keys. -/
def sortKey (w : AnyWritten) : String ×ₗ ℕ ×ₗ ℕ ×ₗ ℕ :=
  toLex (w.2.elem.timestamp, toLex (w.2.elem.version, toLex (typeRank w.1, w.2.elem.id)))

theorem typeRank_injective : Function.Injective typeRank := by
  intro t t' same
  cases t <;> cases t' <;> first | rfl | cases same

theorem beforeOrEqual_iff {w w' : AnyWritten} : beforeOrEqual w w' = true ↔ sortKey w ≤ sortKey w' := by
  simp only [sortKey, Prod.Lex.toLex_le_toLex]
  unfold beforeOrEqual
  split
  · rename_i time
    simp [time]
  · rename_i time
    split
    · rename_i version
      simp [not_not.mp time, version]
    · rename_i version
      split
      · rename_i type
        simp [not_not.mp time, not_not.mp version, typeRank_injective.ne type]
      · rename_i type
        simp [not_not.mp time, not_not.mp version, not_not.mp type]

theorem pairwise_sorted (elements : List AnyWritten) :
    (sorted elements).Pairwise (fun w w' => beforeOrEqual w w' = true) := by
  have total : Std.Total (fun w w' : AnyWritten => beforeOrEqual w w' = true) := ⟨fun w w' => by
    rw [beforeOrEqual_iff, beforeOrEqual_iff]
    exact le_total _ _⟩
  have transitive : IsTrans AnyWritten (fun w w' => beforeOrEqual w w' = true) := ⟨by
    intro w w' w'' first second
    rw [beforeOrEqual_iff] at first second ⊢
    exact first.trans second⟩
  exact List.pairwise_insertionSort _ elements

/-- What is sorted and written, unless a read has failed. -/
def changesRead (store : Store) (sel : Selection) : Except Exception (List AnyWritten) :=
  match (readAll store sel).2 with
  | some e => .error e
  | none => .ok (sorted (readAll store sel).1)

end Order

section Counts

variable {store : Store} {redactions : Bool} {c : Int}

/-- Nothing that the changeset has made is hidden. -/
def Unhidden (db : Db) (redactions : Bool) (c : Int) : Prop :=
  ∀ t, ∀ h ∈ db.history t, h.changesetId = c → (h.redactionId.isNone || redactions) = true

private theorem downloaded_eq (db : Db) (t : ObjectType) : downloaded db redactions c t =
    (historyRowsOf db t c).filter (fun h => h.redactionId.isNone || redactions) := by
  unfold downloaded historyRowsOf Table.select
  rw [List.filter_filter]
  exact List.filter_congr fun h _ => Bool.and_comm _ _

private theorem length_versionsOf (store : Store) : (versionsOf store redactions c).length =
    (downloaded store.db redactions c .node).length + (downloaded store.db redactions c .way).length +
      (downloaded store.db redactions c .relation).length := by
  simp only [versionsOf, List.length_append, List.length_map]
  omega

theorem length_versionsOf_le (store : Store) :
    (versionsOf store redactions c).length ≤ historyCount store.db c := by
  have part : ∀ t, (downloaded store.db redactions c t).length ≤ (historyRowsOf store.db t c).length := by
    intro t
    rw [downloaded_eq]
    exact List.length_filter_le _ _
  rw [length_versionsOf, historyCount]
  exact Nat.add_le_add (Nat.add_le_add (part .node) (part .way)) (part .relation)

theorem length_versionsOf_eq (shown : Unhidden store.db redactions c) :
    (versionsOf store redactions c).length = historyCount store.db c := by
  have part : ∀ t, downloaded store.db redactions c t = historyRowsOf store.db t c := by
    intro t
    rw [downloaded_eq, List.filter_eq_self]
    intro h made
    obtain ⟨row, own⟩ := (Table.mem_select _ _).mp made
    exact shown t h row (of_decide_eq_true own)
  rw [length_versionsOf, historyCount, part, part, part]

end Counts

section Owners

variable {σ σ₁ σ' σ'' : dbRecords.Contents}

/-- Changesets keep their owners, and the same users exist. -/
structure KeepsOwners (σ σ' : dbRecords.Contents) : Prop where
  owner : ∀ c r, changesetOf σ c = some r → ∃ r', changesetOf σ' c = some r' ∧ r'.userId = r.userId
  users : ∀ u, (userOf σ' u).isSome = (userOf σ u).isSome

theorem KeepsOwners.refl (σ : dbRecords.Contents) : KeepsOwners σ σ :=
  ⟨fun _ r found => ⟨r, found, rfl⟩, fun _ => rfl⟩

theorem KeepsOwners.trans (first : KeepsOwners σ σ₁) (next : KeepsOwners σ₁ σ') :
    KeepsOwners σ σ' := by
  refine ⟨fun c r found => ?_, fun u => (next.users u).trans (first.users u)⟩
  obtain ⟨r₁, found₁, own₁⟩ := first.owner c r found
  obtain ⟨r', found', own'⟩ := next.owner c r₁ found₁
  exact ⟨r', found', own'.trans own₁⟩

private theorem keepsOwners_of_sets {c : Int} {r r' : ChangesetRow} (sets : SetsRecord c r' σ₁ σ')
    (same : ∀ x, (∀ o, x ≠ .object o) → σ₁ x = σ x) (found : changesetOf σ c = some r)
    (own : r'.userId = r.userId) : KeepsOwners σ σ' := by
  refine ⟨fun c' s found' => ?_, fun u => ?_⟩
  · by_cases here : c' = c
    · subst here
      obtain rfl := Option.some.inj (found.symm.trans found')
      exact ⟨r', sets.self, own⟩
    · refine ⟨s, ?_, rfl⟩
      exact ((sets.other (.changeset c') (by simpa using here)).trans
        (same (.changeset c') fun _ => by simp)).trans found'
  · have row : userOf σ' u = userOf σ u :=
      (sets.other (.user u) (by simp)).trans (same (.user u) fun _ => by simp)
    rw [row]

private theorem keepsOwners_of_does {tx : Transaction} {reply : Reply} (does : Does tx σ σ' reply) :
    KeepsOwners σ σ' := by
  cases does with
  | create request user fresh opened found counted other =>
      rename_i tags c row
      refine ⟨fun c' r found' => ⟨r, ?_, rfl⟩, fun u => ?_⟩
      · have here : c' ≠ c := by
          rintro rfl
          rw [fresh] at found'
          cases found'
        exact (other (.changeset c') (by simpa using here) (by simp)).trans found'
      · by_cases own : u = row.id
        · rw [own, counted, found]
          rfl
        · have same : userOf σ' u = userOf σ u := other (.user u) (by simp) (by simpa using own)
          rw [same]
  | update request found user notClosed sets => exact keepsOwners_of_sets sets (fun _ _ => rfl) found rfl
  | close request found user notClosed sets => exact keepsOwners_of_sets sets (fun _ _ => rfl) found rfl
  | upload request found user notClosed notFull plays told fits sets =>
      exact keepsOwners_of_sets sets plays.other found rfl

theorem changesetUser_same {db db' : Db} (accounts : Accounts) {c : Int}
    (keeps : KeepsOwners (dbRecords.contents db) (dbRecords.contents db'))
    (known : (db.changesets.find? c).isSome) :
    changesetUser ⟨db', accounts⟩ c = changesetUser ⟨db, accounts⟩ c := by
  obtain ⟨r, found⟩ := Option.isSome_iff_exists.mp known
  obtain ⟨r', found', own⟩ := keeps.owner c r found
  have users : (db'.users.find? r.userId).isSome = (db.users.find? r.userId).isSome :=
    keeps.users r.userId
  change db'.changesets.find? c = some r' at found'
  unfold changesetUser
  simp only [found, found', Option.bind_some, own]
  cases row : db.users.find? r.userId with
  | none =>
      rw [row, Option.isSome_none, Option.isSome_eq_false_iff, Option.isNone_iff_eq_none] at users
      rw [users]
  | some u =>
      rw [row, Option.isSome_some, Option.isSome_iff_exists] at users
      obtain ⟨u', row'⟩ := users
      have same : u'.id = u.id :=
        (Table.find?_eq_some.mp row').2.trans (Table.find?_eq_some.mp row).2.symm
      rw [row', Option.map_some, Option.map_some, same]

end Owners

section Runs

variable {sax : Sax} {fromCharsDouble : String → FromCharsDouble}
  {I : Type} [DecidableEq I] {txs : I → Transaction} {cfg : Settings}

theorem owners_committed (run : DbRun txs) {m n : Nat} (later : m ≤ n) :
    KeepsOwners (dbRecords.contents (run.state m).base) (dbRecords.contents (run.state n).base) :=
  contents_related KeepsOwners.refl (fun _ _ _ first next => first.trans next) respects_dbRecords
    (fun i σ => (responder_safe (txs i) σ).mono fun _ _ _ does => keepsOwners_of_does does) run later

theorem versionsOf_kept (run : DbRun txs) (keys : ForeignKeys (run.state 0).base)
    (inv : HistoryInvariant (run.state 0).base) {m n : Nat} (later : m ≤ n) (accounts : Accounts)
    (redactions : Bool) {c : Int} (known : ((run.state m).base.changesets.find? c).isSome) :
    versionsOf ⟨(run.state m).base, accounts⟩ redactions c ⊆
      versionsOf ⟨(run.state n).base, accounts⟩ redactions c := by
  intro w listed
  obtain ⟨t, h, made, rfl⟩ := mem_versionsOf.mp listed
  obtain ⟨row, own, shown⟩ := mem_downloaded.mp made
  have saved := saved_committed run keys inv m t h.id
  obtain ⟨k, kept⟩ := lasts_committed run later (t, h.id) saved.1 saved.2
  obtain ⟨found, tags, refs⟩ := kept.history.kept h.version h (Table.find?_key row)
  have stored : h ∈ (run.state n).base.history t := (Table.find?_eq_some.mp found).1
  refine mem_versionsOf.mpr ⟨t, h, mem_downloaded.mpr ⟨stored, own, shown⟩, ?_⟩
  have user := changesetUser_same accounts (owners_committed run later) known
  have info : infoOf ⟨(run.state n).base, accounts⟩ h.toCurrentRow =
      infoOf ⟨(run.state m).base, accounts⟩ h.toCurrentRow := by
    simp only [infoOf, Read.DataSelection.userOf, own, user]
  have rows : historicRow t (run.state n).base h = historicRow t (run.state m).base h := by
    change (⟨_, _, _⟩ : Extracted t) = ⟨_, _, _⟩
    exact congrArg₂ (Extracted.mk h.toCurrentRow) tags refs
  unfold versionContent contentOf
  rw [rows]
  exact congrArg (fun i => (⟨t, ⟨i, _, _⟩⟩ : AnyWritten)) info.symm

private theorem counted_committed (run : DbRun txs) (settings : ∀ i, (txs i).cfg = cfg)
    (limits : LimitsExpansion sax) (admitted : ∀ i, Admitted sax fromCharsDouble cfg (txs i).request)
    (start : Counted cfg (run.state 0).base) (n : Nat) :
    Counted cfg (run.state n).base := by
  induction n with
  | zero => exact start
  | succ n before => exact counted_next run settings limits admitted before

/-- The elements of a download: all that the changeset has made, in the order of the times,
as many as it counts. -/
structure Downloads (store : Store) (redactions : Bool) (c : Int) (elements : List AnyWritten) :
    Prop where
  content : elements.Perm (versionsOf store redactions c)
  ordered : elements.Pairwise (fun w w' => beforeOrEqual w w' = true)
  counted : ∃ r, store.db.changesets.find? c = some r ∧ elements.length ≤ r.numChanges ∧
    (Unhidden store.db redactions c → elements.length = r.numChanges)

/-- Whatever requests run side by side, the download of a changeset has what the changeset
has made up to a committed state, or says why it has nothing, and a later download has all
that an earlier one could have. -/
theorem downloads_of_run (run : DbRun txs) (settings : ∀ i, (txs i).cfg = cfg)
    (limits : LimitsExpansion sax) (admitted : ∀ i, Admitted sax fromCharsDouble cfg (txs i).request)
    (keys : ForeignKeys (run.state 0).base)
    (inv : HistoryInvariant (run.state 0).base) (start : Counted cfg (run.state 0).base) (n : Nat)
    (accounts : Accounts) {c : Int} {sel sel' : Selection} (fresh : Selects sel fun _ _ => False)
    (accepted : changesetDownloadResponder (run.state n).base sel c = .ok sel') :
    writeOsmChange ⟨(run.state n).base, accounts⟩ sel' =
        (DocumentBody.changes (changesRead ⟨(run.state n).base, accounts⟩ sel')).calls ∧
      ∀ elements, changesRead ⟨(run.state n).base, accounts⟩ sel' = .ok elements →
        Downloads ⟨(run.state n).base, accounts⟩ sel.redactionsVisible c elements ∧
          ∀ m, m ≤ n → ((run.state m).base.changesets.find? c).isSome →
            versionsOf ⟨(run.state m).base, accounts⟩ sel.redactionsVisible c ⊆ elements := by
  obtain ⟨known, selects⟩ := selects_download fresh accepted
  refine ⟨writeOsmChange_eq _ sel', fun elements read => ?_⟩
  unfold changesRead at read
  split at read
  · cases read
  · rename_i complete
    cases read
    have content := (List.perm_insertionSort (fun w w' => beforeOrEqual w w' = true) _).trans
      (perm_of_readAll ⟨(run.state n).base, accounts⟩ selects complete)
    obtain ⟨r, found⟩ := Option.isSome_iff_exists.mp known
    have counted := ((counted_committed run settings limits admitted start n).changesets c).counted r found
    refine ⟨⟨content, pairwise_sorted _, r, found, ?_, fun shown => ?_⟩, fun m later before => ?_⟩
    · exact (content.length_eq.trans_le (length_versionsOf_le _)).trans_eq counted
    · exact (content.length_eq.trans (length_versionsOf_eq shown)).trans counted
    · exact List.Subset.trans (versionsOf_kept run keys inv later accounts _ before)
        content.symm.subset

end Runs

section Samples

/-- The download of the changeset whose upload has made the second version of a node. -/
theorem downloads_sampleTurns : ∃ sel elements,
    changesetDownloadResponder (sampleTurns.state 32).base .empty 8 = .ok sel ∧
      writeOsmChange ⟨(sampleTurns.state 32).base, samplePublic⟩ sel =
        (DocumentBody.changes (.ok elements)).calls ∧
      Downloads ⟨(sampleTurns.state 32).base, samplePublic⟩ false 8 elements := by
  have answered : (match changesetDownloadResponder (sampleTurns.state 32).base .empty 8 with
    | .ok sel => (changesRead ⟨(sampleTurns.state 32).base, samplePublic⟩ sel).toBool
    | .error _ => false) = true := by decide +kernel
  cases accepted : changesetDownloadResponder (sampleTurns.state 32).base .empty 8 with
  | error e =>
      rw [accepted] at answered
      cases answered
  | ok sel =>
      rw [accepted] at answered
      obtain ⟨document, holds⟩ := downloads_of_run sampleTurns (fun i => (admitted_sampleEdits i).1) limits_sampleRead
        (fun i => (admitted_sampleEdits i).2) integrity_sampleTurns.1 integrity_sampleTurns.2
        counted_sampleStart 32 samplePublic ⟨by simp [Selection.empty], fun _ => rfl⟩ accepted
      cases read : changesRead ⟨(sampleTurns.state 32).base, samplePublic⟩ sel with
      | error e =>
          simp only [read] at answered
          cases answered
      | ok elements =>
          rw [read] at document
          exact ⟨sel, elements, rfl, document, (holds elements read).1⟩

end Samples

end Cgimap.Output.ChangesetDownloads
