/- path: Cgimap/Osmchange/ElementCounts
   generality: I
   source: none
   digest: What an upload counts are its executed elements, one history row each. -/

import Cgimap.Osmchange.ElementTrace

set_option autoImplicit false
set_option relaxedAutoImplicit false

namespace Cgimap.Osmchange.ElementCounts

open Cgimap.Library.EventLog
open Cgimap.Library.KeyedTable
open Cgimap.Model.Types
open Cgimap.Model.Database
open Cgimap.Osmchange.DiffTracking
open Cgimap.Osmchange.UploadRecords
open Cgimap.Osmchange.SqlStatements
open Cgimap.Osmchange.UpdaterChecks
open Cgimap.Osmchange.Handler
open Cgimap.Osmchange.ObjectState
open Cgimap.Osmchange.WriteEffects
open Cgimap.Osmchange.CheckEffects
open Cgimap.Osmchange.Placeholders
open Cgimap.Osmchange.CreateEffects
open Cgimap.Osmchange.ModifyEffects
open Cgimap.Osmchange.DeletionEffects
open Cgimap.Osmchange.DeleteEffects
open Cgimap.Osmchange.DocumentRuns
open Cgimap.Osmchange.ElementTrace

variable {t : ObjectType} {env : Env}

def executedCount (trace : Trace) : Nat := trace.countP (fun x => !x.2.skipped)

theorem executedCount_append (trace trace' : Trace) :
    executedCount (trace ++ trace') = executedCount trace + executedCount trace' :=
  List.countP_append ..

section Tracking

variable {b : Batch}

/-- The number of entries that the statistics are made of. -/
def entries (ct : Tracking) : Nat :=
  ((ct.created .node).length + (ct.modified .node).length + (ct.deleted .node).length) +
    ((ct.created .way).length + (ct.modified .way).length + (ct.deleted .way).length) +
    ((ct.created .relation).length + (ct.modified .relation).length +
      (ct.deleted .relation).length)

theorem total_getStats (st : Upload) : (getStats st).total = entries st.ct := rfl

theorem entries_addCreated (ct : Tracking) (t : ObjectType) (ms : List ObjectIdMapping) :
    entries (ct.addCreated t ms) = entries ct + ms.length := by
  cases t <;> simp [entries, Tracking.addCreated, Function.update] <;> omega

theorem entries_addModified (ct : Tracking) (t : ObjectType) (ms : List ObjectIdMapping) :
    entries (ct.addModified t ms) = entries ct + ms.length := by
  cases t <;> simp [entries, Tracking.addModified, Function.update] <;> omega

theorem entries_addDeleted (ct : Tracking) (t : ObjectType) (ids : List Int) :
    entries (ct.addDeleted t ids) = entries ct + ids.length := by
  cases t <;> simp [entries, Tracking.addDeleted, Function.update] <;> omega

theorem entries_congr {ct ct' : Tracking} (created : ct'.created = ct.created)
    (modified : ct'.modified = ct.modified) (deleted : ct'.deleted = ct.deleted) :
    entries ct' = entries ct := by
  rw [entries, entries, created, modified, deleted]

theorem length_elemsIn (env : Env) (t : ObjectType) (els : List Element) :
    (elemsIn env t els).length = els.countP (fun el => decide (el.objType = t)) := by
  induction els with
  | nil => rfl
  | cons el els ih =>
      by_cases type : el.objType = t
      · subst type
        rw [elemsIn_cons_self, List.length_cons, ih, List.countP_cons_of_pos (by simp)]
      · rw [elemsIn_cons_other (Ne.symm type), ih, List.countP_cons_of_neg (by simpa using type)]

theorem length_by_type (env : Env) (els : List Element) :
    els.length = (elemsIn env .node els).length + (elemsIn env .way els).length +
      (elemsIn env .relation els).length := by
  simp only [length_elemsIn]
  induction els with
  | nil => rfl
  | cons el els ih =>
      simp only [List.length_cons, List.countP_cons]
      rw [ih]
      cases el.objType <;> simp <;> omega

theorem length_replaced {ct : Tracking} {es es' : List (Elem t)}
    (done : replaceOldIds ct es = .ok es') : es'.length = es.length := by
  rw [replaceOldIds_eq_map done, List.length_map]

theorem executedCount_traceBy {ct : Tracking} {spared : Obj → Bool} {els : List Element}
    {op : Operation} (ops : ∀ el ∈ els, el.op = op) (changes : op ≠ .delete) :
    executedCount (traceBy env ct spared els) = els.length := by
  have all : ∀ x ∈ traceBy env ct spared els, (!x.2.skipped) = true := by
    intro x member
    obtain ⟨el, inside, rfl⟩ := List.mem_map.mp member
    have other : el.op ≠ .delete := by
      rw [ops el inside]
      exact changes
    simp [other]
  rw [executedCount, List.countP_eq_length.mpr all, traceBy, List.length_map]

private theorem executedCount_traceOf {op : Operation} (ops : ∀ el ∈ b.els, el.op = op)
    (changes : op ≠ .delete) : executedCount (traceOf env b) = b.els.length := by
  rw [traceOf_eq]
  exact executedCount_traceBy ops changes

private theorem countP_objects (ct : Tracking) (els : List Element)
    (types : ∀ el ∈ els, el.objType = t) (p : Obj → Bool) :
    els.countP (fun el => p (el.objType, (resolved ct (elemOf env el)).id)) =
      ((elemsIn env t els).map (resolved ct)).countP (fun e => p (t, e.id)) := by
  induction els with
  | nil => rfl
  | cons el els ih =>
      obtain rfl := types el List.mem_cons_self
      rw [elemsIn_cons_self, List.map_cons, List.countP_cons, List.countP_cons,
        ih fun d inside => types d (List.mem_cons_of_mem el inside)]

private theorem count_ids (es : List (Elem t)) (id : Nat) :
    (es.map Elem.id).count id = (elemsOf es id).length := by
  rw [List.count_eq_countP, List.countP_map, elemsOf, List.countP_eq_length_filter]
  rfl

private theorem length_executed {es executed : List (Elem t)}
    (together : ∀ id ∈ executed.map Elem.id, elemsOf es id = elemsOf executed id) :
    (es.filter (fun e => decide (e.id ∈ executed.map Elem.id))).length = executed.length := by
  have ids : ∀ es : List (Elem t), (es.map Elem.id).length = es.length := fun _ => List.length_map _
  rw [← ids, ← ids executed]
  refine (List.perm_iff_count.mpr fun id => ?_).length_eq
  rw [count_ids, count_ids]
  by_cases present : id ∈ executed.map Elem.id
  · rw [← together id present, elemsOf, elemsOf, List.filter_filter]
    refine congrArg List.length (List.filter_congr fun e _ => ?_)
    by_cases same : e.id = id
    · rw [same, decide_eq_true present, Bool.and_true]
    · rw [decide_eq_false same, Bool.false_and]
  · rw [elemsOf_eq_nil present, elemsOf_eq_nil]
    intro member
    obtain ⟨e, inside, rfl⟩ := List.mem_map.mp member
    exact present (of_decide_eq_true (List.mem_filter.mp inside).2)

theorem executedCount_deletions {ct : Tracking} {spared : Obj → Bool} {els : List Element}
    {es executed : List (Elem t)} (ops : ∀ el ∈ els, el.op = .delete ∧ el.objType = t)
    (replaced : replaceOldIds ct (elemsIn env t els) = .ok es)
    (together : ∀ id ∈ executed.map Elem.id, elemsOf es id = elemsOf executed id)
    (spares : ∀ id, spared (t, id) = decide (id ∉ executed.map Elem.id)) :
    executedCount (traceBy env ct spared els) = executed.length := by
  have count : executedCount (traceBy env ct spared els) =
      els.countP (fun el => !spared (el.objType, (resolved ct (elemOf env el)).id)) := by
    rw [executedCount, traceBy, List.countP_map]
    refine List.countP_congr fun el member => ?_
    simp [(ops el member).1]
  rw [count, countP_objects ct els (fun el member => (ops el member).2) (fun o => !spared o),
    ← replaceOldIds_eq_map replaced, ← length_executed together, List.countP_eq_length_filter]
  refine congrArg List.length (List.filter_congr fun e _ => ?_)
  rw [spares, decide_not, Bool.not_not]

private theorem countP_delete {es executed : List (Elem t)} {used : List ObjectIdMapping}
    {deleted : List Int} (batch : DeleteBatch env b t es executed used deleted) :
    executedCount (traceOf env b) = executed.length := by
  have effect := batch.effect
  have created : b.flushed.ct.created = b.pushed.ct.created := by rw [batch.tracking]; rfl
  rw [traceOf_eq]
  refine executedCount_deletions batch.ops ((replaceOldIds_congr created).trans batch.replaced)
    (fun id => elemsOf_executed effect) (sparedBy_eq (fun e member => ?_) effect.matching.distinct
      effect.acts.same)
  exact (visible_eq b.before t e.id).symm.trans (effect.mem_executed.mp member).2.1

theorem entries_batch (effect : BatchEffect env b) (st : Upload)
    (pushed : Pushed env b.els st b.pushed) :
    entries b.flushed.ct = entries st.ct + executedCount (traceOf env b) := by
  have before : entries b.pushed.ct = entries st.ct := by
    rw [pushed.tracking]
    exact entries_congr rfl rfl rfl
  cases effect with
  | create t es batch =>
      have ops : ∀ el ∈ b.els, el.op = .create := fun el member => (batch.ops el member).1
      have all : (elemsIn env t b.els).length = b.els.length := by
        rw [length_elemsIn, List.countP_eq_length]
        exact fun el member => decide_eq_true (batch.ops el member).2
      rw [executedCount_traceOf ops (by decide), batch.tracking, entries_addCreated, before,
        ← all]
      simp [createdEntries, idsMapping]
  | modify es db₁ db₂ modified batch =>
      have counts : ∀ t, (modified t).length = (elemsIn env t b.els).length := by
        intro t
        rw [(batch.entries t).length_eq, modifiedEntries, List.length_map,
          length_replaced (batch.replaced t)]
      rw [executedCount_traceOf batch.ops (by decide), batch.tracking, entries_addModified,
        entries_addModified, entries_addModified, before, length_by_type env b.els]
      simp only [counts]
      omega
  | delete t es executed used deleted batch =>
      rw [countP_delete batch, batch.tracking, entries_addDeleted, batch.entries.length_eq,
        List.length_map]
      have same : entries ((b.pushed.ct.addSkipDeleted t
          ((deletedRows b.before es).map (skippedEntry es))).addSkipDeleted t used) =
          entries b.pushed.ct := entries_congr rfl rfl rfl
      rw [same, before]

/-- The statistics of a processed document count its executed elements. -/
theorem total_of_executed {doc : List Element} {db db' : Db} {batches : List Batch} {st : Upload}
    (executed : Executed env doc db batches st db') :
    (getStats st).total = executedCount (documentTrace env batches) := by
  obtain ⟨st₁, runs, rfl⟩ := executed.runs
  rw [total_getStats]
  refine runs.invariant
    (I := fun done st' _ => entries st'.ct = executedCount (documentTrace env done))
    (idle_empty env) rfl fun done st₂ b _ before executes effect => ?_
  have split : documentTrace env (done ++ [b]) = documentTrace env done ++ traceOf env b := by
    simp [documentTrace]
  rw [split, executedCount_append, ← before]
  exact entries_batch effect { st₂ with state := b.pushed.state } executes.pushed

end Tracking

section Versions

variable (now : Int) (id : Nat) {s : ObjState t}

def newVersion? (ev : Event t) : Option Nat :=
  if ev.skipped then none
  else
    match ev.op with
    | .create => some 1
    | .modify => some (ev.elem.version + 1)
    | .delete => some (ev.elem.version + 1)

/-- `s'` has one more version in its history, written for a changeset. -/
structure AddsVersion (c : Int) (v : Nat) (s s' : ObjState t) : Prop where
  free : s.history v = none
  others : ∀ w, w ≠ v → s'.history w = s.history w
  written : ∃ h, s'.history v = some h ∧ h.changesetId = c

private theorem saveRow_adds {s₀ : ObjState t} {r : CurrentRow t} (row : s.row = some r)
    (history : s.history = s₀.history) (free : s₀.history r.version = none) :
    AddsVersion r.changesetId r.version s₀ s.saveRow := by
  have saved : ∀ w, s.saveRow.history w = (s.history w).or
      ((s.row.filter (fun r => decide (r.version = w))).map (fun r => ⟨r, none⟩)) := fun _ => rfl
  refine ⟨free, fun w other => ?_, ⟨r, none⟩, ?_, rfl⟩
  · rw [saved, row, Option.filter_some_neg (by simpa using Ne.symm other), Option.map_none,
      Option.or_none, history]
  · rw [saved, row, history, free, Option.none_or, Option.filter_some_pos (by simp)]
    rfl

private theorem adds_of_history {c : Int} {v : Nat} {s₀ s' : ObjState t}
    (adds : AddsVersion c v s₀ s) (same : s'.history = s.history) : AddsVersion c v s₀ s' where
  free := adds.free
  others w ne := by rw [same, adds.others w ne]
  written := by
    rw [same]
    exact adds.written

private theorem write_adds {visible : Bool} {e : Elem t} {tags : List (String × String)}
    {refs : List (Nat × Ref t)} (version : s.version? = some e.version)
    (free : s.history (e.version + 1) = none) :
    AddsVersion e.changesetId (e.version + 1) s (s.write now visible e tags refs).archive := by
  obtain ⟨r, found, -⟩ := Option.map_eq_some_iff.mp version
  have row : (s.write now visible e tags refs).row = some (setRow t now visible r e) := by
    simp [ObjState.write, found]
  exact adds_of_history (saveRow_adds row rfl free) rfl

/-- One event: a skipped one leaves the history alone, an executed one adds a version. -/
theorem adds_act {ev : Event t} (allowed : ev.Allowed s) :
    (newVersion? ev = none → (ev.act now id s).history = s.history) ∧
      ∀ v, newVersion? ev = some v → AddsVersion ev.elem.changesetId v s (ev.act now id s) := by
  obtain ⟨op, e, skipped⟩ := ev
  cases skipped with
  | true => exact ⟨fun _ => rfl, nofun⟩
  | false =>
      cases op with
      | create =>
          obtain ⟨fresh, free⟩ := allowed
          refine ⟨nofun, fun v same => ?_⟩
          cases same
          let r : CurrentRow t := ⟨id, 1, e.changesetId, true, now, e.coord⟩
          have saved : AddsVersion e.changesetId 1 s (ObjState.saveRow { s with row := some r }) :=
            saveRow_adds (r := r) rfl rfl free
          refine adds_of_history saved ?_
          change (s.create now id e).history = _
          unfold ObjState.create
          split
          · rfl
          · rfl
      | modify =>
          obtain ⟨version, -, free⟩ := allowed
          refine ⟨nofun, fun v same => ?_⟩
          cases same
          exact write_adds now version free
      | delete =>
          obtain ⟨version, -, free⟩ := allowed
          refine ⟨nofun, fun v same => ?_⟩
          cases same
          exact write_adds now version free

/-- `s'` has the versions `vs` more in its history, all written for one changeset. -/
structure AddsVersions (c : Int) (vs : List Nat) (s s' : ObjState t) : Prop where
  distinct : vs.Nodup
  free : ∀ v ∈ vs, s.history v = none
  others : ∀ w, w ∉ vs → s'.history w = s.history w
  written : ∀ v ∈ vs, ∃ h, s'.history v = some h ∧ h.changesetId = c

/-- The versions that the events of one object write, by induction over the events. -/
theorem adds_replayAt {c : Int} {evs : List (Event t)}
    (lawful : (machine now).LawfulAt (k := (t, id)) s evs)
    (owner : ∀ ev ∈ evs, ev.elem.changesetId = c) :
    AddsVersions c (evs.filterMap newVersion?) s
      ((machine now).replayAt (k := (t, id)) s evs) := by
  induction evs generalizing s with
  | nil => exact ⟨List.nodup_nil, nofun, fun _ _ => rfl, nofun⟩
  | cons ev evs ih =>
      have rest := ih lawful.2 fun d inside => owner d (List.mem_cons_of_mem ev inside)
      obtain ⟨skip, add⟩ := adds_act now id lawful.1
      cases version : newVersion? ev with
      | none =>
          have same : (ev.act now id s).history = s.history := skip version
          rw [List.filterMap_cons_none version]
          refine ⟨rest.distinct, fun v member => ?_, fun w away => ?_, rest.written⟩
          · rw [← same]
            exact rest.free v member
          · rw [← same]
            exact rest.others w away
      | some v =>
          have one := add v version
          rw [owner ev List.mem_cons_self] at one
          obtain ⟨h, here, carries⟩ := one.written
          have new : v ∉ evs.filterMap newVersion? := fun member => by
            have empty : (ev.act now id s).history v = none := rest.free v member
            rw [here] at empty
            cases empty
          rw [List.filterMap_cons_some version]
          refine ⟨List.nodup_cons.mpr ⟨new, rest.distinct⟩, fun w member => ?_, fun w away => ?_,
            fun w member => ?_⟩
          · rcases List.mem_cons.mp member with rfl | later
            · exact one.free
            · have other : w ≠ v := fun same => new (same ▸ later)
              rw [← one.others w other]
              exact rest.free w later
          · rw [List.mem_cons, not_or] at away
            rw [← one.others w away.1]
            exact rest.others w away.2
          · rcases List.mem_cons.mp member with rfl | later
            · exact ⟨h, (rest.others w new).trans here, carries⟩
            · exact rest.written w later

end Versions

section Rows

variable {c : Int} {db db' : Db}

/-- The history rows of one type that carry a changeset id. -/
def historyRowsOf (db : Db) (t : ObjectType) (c : Int) : List (HistoryRow t) :=
  (db.history t).select (fun r => decide (r.changesetId = c))

/-- The number of history rows that carry a changeset id. -/
def historyCount (db : Db) (c : Int) : Nat :=
  (historyRowsOf db .node c).length + (historyRowsOf db .way c).length +
    (historyRowsOf db .relation c).length

/-- The keys that the executed events of one type write. -/
def newKeys (trace : Trace) (t : ObjectType) : List (Nat × Nat) :=
  trace.filterMap (fun x =>
    if x.1.1 = t then (newVersion? x.2).map (fun v => (x.1.2, v)) else none)

private theorem newVersion?_isSome (ev : Event t) : (newVersion? ev).isSome = !ev.skipped := by
  obtain ⟨op, e, skipped⟩ := ev
  cases skipped with
  | true => rfl
  | false => cases op <;> rfl

private theorem length_newKeys (trace : Trace) :
    (newKeys trace .node).length + (newKeys trace .way).length +
      (newKeys trace .relation).length = executedCount trace := by
  induction trace with
  | nil => rfl
  | cons x trace ih =>
      obtain ⟨⟨t, id⟩, ev⟩ := x
      have some := newVersion?_isSome ev
      simp only [executedCount, List.countP_cons] at ih ⊢
      rw [← ih]
      cases version : newVersion? ev with
      | none =>
          rw [version] at some
          simp only [Option.isSome_none] at some
          simp [newKeys, version, ← some]
      | some v =>
          rw [version] at some
          simp only [Option.isSome_some] at some
          cases t <;> simp [newKeys, version, ← some] <;> omega

private theorem newKeys_filter (trace : Trace) (t : ObjectType) (id : Nat) :
    ((newKeys trace t).filter (fun k => decide (k.1 = id))).map Prod.snd =
      (eventsOf trace (t, id)).filterMap newVersion? := by
  induction trace with
  | nil => rfl
  | cons x trace ih =>
      obtain ⟨⟨t', id'⟩, ev⟩ := x
      by_cases same : (t', id') = (t, id)
      · cases same
        rw [eventsOf_cons_self]
        cases version : newVersion? ev with
        | none =>
            rw [List.filterMap_cons_none version, ← ih]
            simp [newKeys, version]
        | some v =>
            rw [List.filterMap_cons_some version, ← ih]
            simp [newKeys, version]
      · rw [eventsOf_cons_other same, ← ih]
        by_cases type : t' = t
        · subst type
          have other : id' ≠ id := fun eq => same (by rw [eq])
          cases version : newVersion? ev with
          | none => simp [newKeys, version]
          | some v => simp [newKeys, version, other]
        · simp [newKeys, type]

private theorem mem_newKeys {trace : Trace} {id v : Nat} :
    (id, v) ∈ newKeys trace t ↔ v ∈ (eventsOf trace (t, id)).filterMap newVersion? := by
  rw [← newKeys_filter]
  simp

private theorem nodup_of_fibers {l : List (Nat × Nat)}
    (fibers : ∀ id, ((l.filter (fun k => decide (k.1 = id))).map Prod.snd).Nodup) : l.Nodup := by
  rw [List.nodup_iff_count_le_one]
  intro k
  have fiber := List.nodup_iff_count_le_one.mp (fibers k.1) k.2
  refine le_trans ?_ fiber
  calc l.count k = (l.filter (fun x => decide (x.1 = k.1))).count k := by
        rw [List.count_filter (by simp)]
    _ ≤ ((l.filter (fun x => decide (x.1 = k.1))).map Prod.snd).count k.2 :=
        List.count_le_count_map

private theorem mem_historyKeys {k : Nat × Nat} :
    k ∈ (historyRowsOf db t c).map HistoryRow.key ↔
      ∃ h, (object db t k.1).history k.2 = some h ∧ h.changesetId = c := by
  rw [List.mem_map]
  constructor
  · rintro ⟨h, member, rfl⟩
    obtain ⟨row, own⟩ := List.mem_filter.mp member
    exact ⟨h, Table.find?_key row, of_decide_eq_true own⟩
  · rintro ⟨h, found, own⟩
    obtain ⟨row, key⟩ := Table.find?_eq_some.mp found
    exact ⟨h, List.mem_filter.mpr ⟨row, decide_eq_true own⟩, key⟩

private theorem historyKeys_nodup (db : Db) (t : ObjectType) (c : Int) :
    ((historyRowsOf db t c).map HistoryRow.key).Nodup :=
  (db.history t).nodup.sublist (List.filter_sublist.map _)

private theorem perm_otherRows {trace : Trace} {c' : Int} (other : c' ≠ c)
    (each : ∀ id, AddsVersions c ((eventsOf trace (t, id)).filterMap newVersion?)
      (object db t id) (object db' t id)) :
    ((historyRowsOf db' t c').map HistoryRow.key).Perm
      ((historyRowsOf db t c').map HistoryRow.key) := by
  refine (List.perm_ext_iff_of_nodup (historyKeys_nodup db' t c')
    (historyKeys_nodup db t c')).mpr fun k => ?_
  rw [mem_historyKeys, mem_historyKeys]
  by_cases new : k.2 ∈ (eventsOf trace (t, k.1)).filterMap newVersion?
  · obtain ⟨h, written, own⟩ := (each k.1).written k.2 new
    rw [written, (each k.1).free k.2 new]
    constructor
    · rintro ⟨h', same, carries⟩
      obtain rfl := Option.some.inj same
      exact absurd (carries.symm.trans own) other
    · exact fun ⟨_, absent, _⟩ => nomatch absent
  · rw [(each k.1).others k.2 new]

private theorem perm_historyRows {trace : Trace}
    (each : ∀ id, AddsVersions c ((eventsOf trace (t, id)).filterMap newVersion?)
      (object db t id) (object db' t id)) :
    ((historyRowsOf db' t c).map HistoryRow.key).Perm
      ((historyRowsOf db t c).map HistoryRow.key ++ newKeys trace t) := by
  have distinct : (newKeys trace t).Nodup := nodup_of_fibers fun id => by
    rw [newKeys_filter]
    exact (each id).distinct
  have apart : ∀ k ∈ newKeys trace t, (object db t k.1).history k.2 = none := fun k member =>
    (each k.1).free k.2 (mem_newKeys.mp member)
  refine (List.perm_ext_iff_of_nodup (historyKeys_nodup db' t c) ?_).mpr fun k => ?_
  · refine List.Nodup.append (historyKeys_nodup db t c) distinct fun k old new => ?_
    obtain ⟨h, found, -⟩ := mem_historyKeys.mp old
    rw [apart k new] at found
    cases found
  · rw [List.mem_append, mem_historyKeys, mem_historyKeys]
    by_cases new : k ∈ newKeys trace t
    · have written := (each k.1).written k.2 (mem_newKeys.mp new)
      exact ⟨fun _ => .inr new, fun _ => written⟩
    · have same := (each k.1).others k.2 fun member => new (mem_newKeys.mpr member)
      rw [same]
      exact ⟨.inl, fun either => either.resolve_right new⟩

private theorem recordOf_changesetId (env : Env) (b : Batch) (el : Element) :
    (recordOf env b el).changesetId = env.changeset := by
  unfold recordOf resolved
  split
  · rename_i e' done
    rw [(replaceOldIdsInElem_eq_ok.mp done).changesetId, elemOf_changesetId]
  · exact elemOf_changesetId el

private theorem adds_of_executed {doc : List Element} {batches : List Batch} {st : Upload}
    (executed : Executed env doc db batches st db') (t : ObjectType) (id : Nat) :
    AddsVersions env.changeset
      ((eventsOf (documentTrace env batches) (t, id)).filterMap newVersion?)
      (object db t id) (object db' t id) := by
  obtain ⟨lawful, final⟩ := object_refines executed t id
  rw [← final]
  refine adds_replayAt env.now id lawful fun ev member => ?_
  obtain ⟨b, -, el, -, same⟩ := mem_documentTrace.mp (mem_eventsOf.mp member)
  cases same
  exact recordOf_changesetId env b el

/-- The versions that a log adds are history rows, all of one changeset. -/
theorem historyCount_of_log {log : Trace}
    (each : ∀ t id, AddsVersions c ((eventsOf log (t, id)).filterMap newVersion?)
      (object db t id) (object db' t id)) (c' : Int) :
    historyCount db' c' = historyCount db c' + if c' = c then executedCount log else 0 := by
  split
  · rename_i own
    subst own
    have count : ∀ t, (historyRowsOf db' t c').length =
        (historyRowsOf db t c').length + (newKeys log t).length := by
      intro t
      have perm := (perm_historyRows (each t)).length_eq
      rwa [List.length_append, List.length_map, List.length_map] at perm
    rw [historyCount, historyCount, count, count, count, ← length_newKeys]
    omega
  · rename_i other
    have count : ∀ t, (historyRowsOf db' t c').length = (historyRowsOf db t c').length := by
      intro t
      have perm := (perm_otherRows other (each t)).length_eq
      rwa [List.length_map, List.length_map] at perm
    rw [historyCount, historyCount, count, count, count, Nat.add_zero]

/-- A processed document adds one history row for each executed element, and every
row it adds carries the changeset of the upload. -/
theorem historyCount_of_executed {doc : List Element} {batches : List Batch} {st : Upload}
    (executed : Executed env doc db batches st db') (c : Int) :
    historyCount db' c = historyCount db c +
      if c = env.changeset then executedCount (documentTrace env batches) else 0 :=
  historyCount_of_log (adds_of_executed executed) c

theorem executedCount_le {doc : List Element} {batches : List Batch} {st : Upload}
    (executed : Executed env doc db batches st db') :
    executedCount (documentTrace env batches) ≤ doc.length := by
  have length : (documentTrace env batches).length = doc.length := by
    rw [documentTrace_eq_map, List.length_map, ← List.length_map (f := Prod.snd), elementsOf_els,
      executed.elements]
  rw [← length]
  exact List.countP_le_length

end Rows

end Cgimap.Osmchange.ElementCounts
