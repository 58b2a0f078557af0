/- path: Cgimap/Osmchange/DiffResults
   generality: I
   source: none
   digest: When the rows of the diffResult describe what happened to each element. -/

import Cgimap.Osmchange.ElementTrace

set_option autoImplicit false
set_option relaxedAutoImplicit false

namespace Cgimap.Osmchange.DiffResults

open Cgimap.Library.EventLog
open Cgimap.Library.ExceptLists
open Cgimap.Library.StatementProgram
open Cgimap.Library.StatementProgram.Prog
open Cgimap.Model.Types
open Cgimap.Model.Database
open Cgimap.Osmchange.DiffTracking
open Cgimap.Osmchange.UploadRecords
open Cgimap.Osmchange.UpdaterChecks
open Cgimap.Osmchange.Handler
open Cgimap.Osmchange.ObjectState
open Cgimap.Osmchange.WriteEffects
open Cgimap.Osmchange.CheckEffects
open Cgimap.Osmchange.DeletionEffects
open Cgimap.Osmchange.Placeholders
open Cgimap.Osmchange.CreateEffects
open Cgimap.Osmchange.ModifyEffects
open Cgimap.Osmchange.DeleteEffects
open Cgimap.Osmchange.DocumentRuns
open Cgimap.Osmchange.ElementTrace

variable {t : ObjectType} {env : Env} {b : Batch}

/-- The row that describes an element of a batch. A skipped deletion reports the
version that the object has at that moment. -/
def rowFor (env : Env) (b : Batch) (el : Element) : DiffResult :=
  let id := (recordOf env b el).id
  match el.op with
  | .create => ⟨.create, el.objType, el.object.id, id, 1, false⟩
  | .modify => ⟨.modify, el.objType, el.object.id, id, el.object.version + 1, false⟩
  | .delete =>
      if keeps b (objectOf env b el) then
        ⟨.delete, el.objType, el.object.id, id, (b.before.version? el.objType id).getD 0, true⟩
      else ⟨.delete, el.objType, el.object.id, 0, 0, false⟩

/-- One row per element, in document order. -/
def documentRows (env : Env) (batches : List Batch) : List DiffResult :=
  batches.flatMap (fun b => b.els.map (rowFor env b))

/-- The id under which a batch names an object last. -/
def lastName (env : Env) (b : Batch) (o : Obj) : Int :=
  ((b.els.reverse.find? (fun el => decide (objectOf env b el = o))).map
    (fun el => el.object.id)).getD 0

section Records

/-- The id that stands for a written id: itself, or the one a placeholder got. -/
def Named (ct : Tracking) (t : ObjectType) (written : Int) (id : Nat) : Prop :=
  (0 ≤ written ∧ id = toUnsigned written) ∨ (written < 0 ∧ lookup ct t written = some id)

theorem Named.unique {ct : Tracking} {written : Int} {id id' : Nat} (one : Named ct t written id)
    (other : Named ct t written id') : id = id' := by
  rcases one with ⟨nonneg, rfl⟩ | ⟨negative, found⟩
  · rcases other with ⟨-, rfl⟩ | ⟨negative, -⟩
    · rfl
    · omega
  · rcases other with ⟨nonneg, -⟩ | ⟨-, found'⟩
    · omega
    · exact Option.some.inj (found.symm.trans found')

/-- Later creations do not change what a placeholder stands for. -/
theorem Named.mono {ct ct' : Tracking} {written : Int} {id : Nat} (named : Named ct t written id)
    (grows : ∃ more, ct'.created t = ct.created t ++ more) : Named ct' t written id := by
  obtain ⟨more, same⟩ := grows
  refine named.imp_right fun ⟨negative, found⟩ => ⟨negative, ?_⟩
  unfold lookup at found ⊢
  obtain ⟨m, first, rfl⟩ := Option.map_eq_some_iff.mp found
  rw [same, List.find?_append, first]
  rfl

theorem mem_records {els : List Element} {e : Elem t} :
    e ∈ (elemsIn env t els).map (resolved b.flushed.ct) ↔
      ∃ el ∈ els, ∃ own : el.objType = t, e = own ▸ recordOf env b el := by
  simp only [List.mem_map, elemsIn, List.mem_filterMap]
  constructor
  · rintro ⟨d, ⟨el, member, found⟩, rfl⟩
    unfold elemOf? at found
    split at found
    · rename_i own
      subst own
      cases found
      exact ⟨el, member, rfl, rfl⟩
    · cases found
  · rintro ⟨el, member, rfl, rfl⟩
    exact ⟨elemOf env el, ⟨el, member, elemOf?_self el⟩, rfl⟩

private theorem idToOldId_records (env : Env) (b : Batch) (id : Nat) :
    idToOldId ((elemsIn env t b.els).map (resolved b.flushed.ct)) id = lastName env b (t, id) := by
  unfold idToOldId lastName
  rw [← List.map_reverse, elemsIn, ← List.filterMap_reverse]
  congr 1
  induction b.els.reverse with
  | nil => rfl
  | cons el els ih =>
      rw [List.find?_cons]
      by_cases own : el.objType = t
      · subst own
        rw [List.filterMap_cons, elemOf?_self, List.map_cons, List.find?_cons]
        by_cases same : (recordOf env b el).id = id
        · have here : decide (objectOf env b el = (el.objType, id)) = true :=
            decide_eq_true (Prod.ext rfl same)
          have there : decide ((resolved b.flushed.ct (elemOf env el)).id = id) = true :=
            decide_eq_true same
          simp only [here, there, Option.map_some, resolved_oldId, elemOf_oldId]
        · have here : decide (objectOf env b el = (el.objType, id)) = false :=
            decide_eq_false fun key => same (congrArg Prod.snd key)
          have there : decide ((resolved b.flushed.ct (elemOf env el)).id = id) = false :=
            decide_eq_false same
          simp only [here, there]
          exact ih
      · have here : decide (objectOf env b el = (t, id)) = false :=
          decide_eq_false fun key => own (congrArg Prod.fst key)
        rw [List.filterMap_cons, elemOf?_other (Ne.symm own)]
        simp only [here]
        exact ih

end Records

section Tracked

private structure Adds (env : Env) (b : Batch) (ct ct' : Tracking) : Prop where
  orig : ct'.origSequence = ct.origSequence
  created : ∀ t, ∃ more, ct'.created t = ct.created t ++ more ∧ ∀ m ∈ more, m.newVersion = 1
  small : ∀ el ∈ b.els, el.op = .modify → el.object.version + 1 < versionBound
  modified : ∀ t m, m ∈ ct'.modified t ↔ m ∈ ct.modified t ∨ ∃ el ∈ b.els, el.op = .modify ∧
    el.objType = t ∧ m = ⟨el.object.id, (recordOf env b el).id, el.object.version + 1⟩
  deleted : ∀ t o, o ∈ ct'.deleted t ↔ o ∈ ct.deleted t ∨ ∃ el ∈ b.els, el.op = .delete ∧
    el.objType = t ∧ keeps b (objectOf env b el) = false ∧ o = el.object.id
  skipped : ∀ t m, m ∈ ct'.skipDeleted t ↔ m ∈ ct.skipDeleted t ∨ ∃ el ∈ b.els, el.op = .delete ∧
    el.objType = t ∧ keeps b (objectOf env b el) = true ∧
    m = ⟨lastName env b (objectOf env b el), (recordOf env b el).id,
      (b.before.version? t (recordOf env b el).id).getD 0⟩

private theorem or_absurd {P Q : Prop} (never : ¬ Q) : P ↔ P ∨ Q := by
  simp [never]

private theorem create_adds {es : List (Elem t)} (batch : CreateBatch env b t es) :
    Adds env b b.pushed.ct b.flushed.ct := by
  have other : ∀ {op : Operation} {P : Element → Prop}, op ≠ .create →
      ¬ ∃ el ∈ b.els, el.op = op ∧ P el := by
    rintro op P ne ⟨el, member, same, -⟩
    exact ne (same.symm.trans (batch.ops el member).1)
  rw [batch.tracking]
  refine ⟨rfl, fun t' => ?_, fun el member same => ?_, fun t' m => or_absurd (other nofun),
    fun t' o => or_absurd (other nofun), fun t' m => or_absurd (other nofun)⟩
  · by_cases own : t' = t
    · subst own
      refine ⟨_, Function.update_self .., fun m member => ?_⟩
      obtain ⟨row, -, rfl⟩ := List.mem_map.mp member
      rfl
    · exact ⟨[], by rw [List.append_nil]; exact Function.update_of_ne own .., nofun⟩
  · exact nomatch same.symm.trans (batch.ops el member).1

private theorem modify_adds {es : (t : ObjectType) → List (Elem t)} {db₁ db₂ : Db}
    {modified : ObjectType → List ObjectIdMapping}
    (batch : ModifyBatch env b es db₁ db₂ modified) : Adds env b b.pushed.ct b.flushed.ct := by
  have effect : BatchEffect env b := .modify es db₁ db₂ modified batch
  have other : ∀ {P : Element → Prop}, ¬ ∃ el ∈ b.els, el.op = .delete ∧ P el := by
    rintro P ⟨el, member, same, -⟩
    exact nomatch same.symm.trans (batch.ops el member)
  have same : b.flushed.ct.created = b.pushed.ct.created := by rw [batch.tracking]; rfl
  have records : ∀ t, es t = (elemsIn env t b.els).map (resolved b.flushed.ct) := fun t =>
    replaceOldIds_eq_map ((replaceOldIds_congr same).trans (batch.replaced t))
  have appended : ∀ t, b.flushed.ct.modified t = b.pushed.ct.modified t ++ modified t := by
    rw [batch.tracking]
    intro t
    cases t <;> rfl
  have changes : ∀ el ∈ b.els, el.op ≠ .create := fun el member same =>
    nomatch same.symm.trans (batch.ops el member)
  refine ⟨by rw [batch.tracking]; rfl, fun t => ⟨[], by rw [same, List.append_nil], nofun⟩,
    fun el member _ => ?_, fun t m => ?_, fun t o => ?_, fun t m => ?_⟩
  · have inside : recordOf env b el ∈ es el.objType := by
      rw [records]
      exact mem_records.mpr ⟨el, member, rfl, rfl⟩
    have small := (batch.object el.objType (recordOf env b el).id).1.small _
      (mem_elemsOf.mpr ⟨inside, rfl⟩)
    rwa [recordOf_version effect member (changes el member)] at small
  · rw [appended, List.mem_append, (batch.entries t).mem_iff, modifiedEntries, List.mem_map]
    refine or_congr_right ⟨?_, ?_⟩
    · rintro ⟨e, inside, rfl⟩
      rw [records] at inside
      obtain ⟨el, member, rfl, rfl⟩ := mem_records.mp inside
      refine ⟨el, member, batch.ops el member, rfl, ?_⟩
      rw [← recordOf_version effect member (changes el member), ← recordOf_oldId env b]
    · rintro ⟨el, member, -, rfl, rfl⟩
      refine ⟨recordOf env b el, ?_, ?_⟩
      · rw [records]
        exact mem_records.mpr ⟨el, member, rfl, rfl⟩
      · rw [← recordOf_version effect member (changes el member), ← recordOf_oldId env b]
  · rw [batch.tracking]
    exact or_absurd other
  · rw [batch.tracking]
    exact or_absurd other

theorem keeps_iff {es executed : List (Elem t)} {used : List ObjectIdMapping} {deleted : List Int}
    (batch : DeleteBatch env b t es executed used deleted) {e : Elem t} (member : e ∈ es) :
    keeps b (t, e.id) = true ↔ e ∉ executed := by
  rw [← mem_executed_of_id batch.effect member]
  constructor
  · intro stays inside
    obtain ⟨d, there, same⟩ := List.mem_map.mp inside
    have shown := (batch.effect.mem_executed.mp there).2.1
    have hidden := hidden_of_executed batch.effect there
    rw [same] at shown hidden
    simp [keeps, shown, hidden] at stays
  · intro outside
    have same : object b.after t e.id = object b.before t e.id :=
      object_spared batch.effect fun gone => outside gone.2
    rw [keeps, visible_eq, visible_eq, same]
    simp

section Deletions

variable {es executed : List (Elem t)} {used : List ObjectIdMapping} {deleted : List Int}

private theorem created_of_deletions (batch : DeleteBatch env b t es executed used deleted) :
    b.flushed.ct.created = b.pushed.ct.created := by
  rw [batch.tracking]
  rfl

private theorem records_of_deletions (batch : DeleteBatch env b t es executed used deleted) :
    es = (elemsIn env t b.els).map (resolved b.flushed.ct) :=
  replaceOldIds_eq_map ((replaceOldIds_congr (created_of_deletions batch)).trans batch.replaced)

private theorem mem_deletions (batch : DeleteBatch env b t es executed used deleted) {e : Elem t} :
    e ∈ es ↔ ∃ el ∈ b.els, ∃ own : el.objType = t, e = own ▸ recordOf env b el := by
  rw [records_of_deletions batch]
  exact mem_records

private theorem mem_deleted_ids (batch : DeleteBatch env b t es executed used deleted) {o : Int} :
    o ∈ executed.map Elem.oldId ↔ ∃ el ∈ b.els, el.op = .delete ∧ el.objType = t ∧
      keeps b (objectOf env b el) = false ∧ o = el.object.id := by
  rw [List.mem_map]
  constructor
  · rintro ⟨e, done, rfl⟩
    have member := (batch.effect.mem_executed.mp done).1
    have gone : keeps b (t, e.id) = false := by
      rw [← Bool.not_eq_true, keeps_iff batch member, not_not]
      exact done
    obtain ⟨el, there, rfl, rfl⟩ := (mem_deletions batch).mp member
    exact ⟨el, there, (batch.ops el there).1, rfl, gone, recordOf_oldId env b el⟩
  · rintro ⟨el, there, -, rfl, gone, rfl⟩
    have member : recordOf env b el ∈ es := (mem_deletions batch).mpr ⟨el, there, rfl, rfl⟩
    refine ⟨recordOf env b el, ?_, recordOf_oldId env b el⟩
    by_contra skipped
    rw [objectOf, (keeps_iff batch member).mpr skipped] at gone
    cases gone

private theorem mem_kept_entries (batch : DeleteBatch env b t es executed used deleted)
    {m : ObjectIdMapping} :
    m ∈ (deletedRows b.before es).map (skippedEntry es) ++ used ↔ ∃ el ∈ b.els, el.op = .delete ∧
      el.objType = t ∧ keeps b (objectOf env b el) = true ∧
      m = ⟨lastName env b (objectOf env b el), (recordOf env b el).id,
        (b.before.version? t (recordOf env b el).id).getD 0⟩ := by
  rw [List.mem_append, mem_skippedEntries batch.effect]
  constructor
  · rintro ⟨e, member, skipped, rfl⟩
    have stays := (keeps_iff batch member).mpr skipped
    rw [skippedEntry, records_of_deletions batch, idToOldId_records env b]
    obtain ⟨el, there, rfl, rfl⟩ := (mem_deletions batch).mp member
    exact ⟨el, there, (batch.ops el there).1, rfl, stays, rfl⟩
  · rintro ⟨el, there, -, rfl, stays, rfl⟩
    have member : recordOf env b el ∈ es := (mem_deletions batch).mpr ⟨el, there, rfl, rfl⟩
    refine ⟨recordOf env b el, member, (keeps_iff batch member).mp stays, ?_⟩
    rw [skippedEntry, records_of_deletions batch, idToOldId_records env b]
    rfl

private theorem delete_adds (batch : DeleteBatch env b t es executed used deleted) :
    Adds env b b.pushed.ct b.flushed.ct := by
  have other : ∀ {t' : ObjectType} {P : Element → Prop}, t' ≠ t →
      ¬ ∃ el ∈ b.els, el.op = .delete ∧ el.objType = t' ∧ P el := by
    rintro t' P ne ⟨el, member, -, own, -⟩
    exact ne (own.symm.trans (batch.ops el member).2)
  have same := created_of_deletions batch
  refine ⟨by rw [batch.tracking]; rfl, fun t => ⟨[], by rw [same, List.append_nil], nofun⟩,
    fun el member change => ?_, fun t m => ?_, fun t' o => ?_, fun t' m => ?_⟩
  · exact nomatch change.symm.trans (batch.ops el member).1
  · rw [batch.tracking]
    refine or_absurd ?_
    rintro ⟨el, member, change, -⟩
    exact nomatch change.symm.trans (batch.ops el member).1
  · by_cases own : t' = t
    · subst own
      have appended : b.flushed.ct.deleted t' = b.pushed.ct.deleted t' ++ deleted := by
        rw [batch.tracking]
        simp
      rw [appended, List.mem_append, batch.entries.mem_iff, mem_deleted_ids batch]
    · have unchanged : b.flushed.ct.deleted t' = b.pushed.ct.deleted t' := by
        rw [batch.tracking]
        simp [Function.update_of_ne own]
      rw [unchanged]
      exact or_absurd (other own)
  · by_cases own : t' = t
    · subst own
      have appended : b.flushed.ct.skipDeleted t' = b.pushed.ct.skipDeleted t' ++
          ((deletedRows b.before es).map (skippedEntry es) ++ used) := by
        rw [batch.tracking]
        simp
      rw [appended, List.mem_append, mem_kept_entries batch]
    · have unchanged : b.flushed.ct.skipDeleted t' = b.pushed.ct.skipDeleted t' := by
        rw [batch.tracking]
        simp [Function.update_of_ne own]
      rw [unchanged]
      exact or_absurd (other own)

end Deletions

/-- What the tracking says about the elements of the executed batches. -/
structure Tracked (env : Env) (done : List Batch) (ct : Tracking) : Prop where
  orig : ct.origSequence = (done.flatMap Batch.els).map (origOf env)
  created : ∀ t, ∀ m ∈ ct.created t, m.newVersion = 1
  uniform : ∀ b ∈ done, ∀ el ∈ b.els, ∀ d ∈ b.els, el.op = d.op
  negative : ∀ b ∈ done, ∀ el ∈ b.els, el.op = .create → el.object.id < 0
  names : ∀ b ∈ done, ∀ el ∈ b.els, Named ct el.objType el.object.id (recordOf env b el).id
  small : ∀ b ∈ done, ∀ el ∈ b.els, el.op = .modify → el.object.version + 1 < versionBound
  modified : ∀ t m, m ∈ ct.modified t ↔ ∃ b ∈ done, ∃ el ∈ b.els, el.op = .modify ∧
    el.objType = t ∧ m = ⟨el.object.id, (recordOf env b el).id, el.object.version + 1⟩
  deleted : ∀ t o, o ∈ ct.deleted t ↔ ∃ b ∈ done, ∃ el ∈ b.els, el.op = .delete ∧
    el.objType = t ∧ keeps b (objectOf env b el) = false ∧ o = el.object.id
  skipped : ∀ t m, m ∈ ct.skipDeleted t ↔ ∃ b ∈ done, ∃ el ∈ b.els, el.op = .delete ∧
    el.objType = t ∧ keeps b (objectOf env b el) = true ∧
    m = ⟨lastName env b (objectOf env b el), (recordOf env b el).id,
      (b.before.version? t (recordOf env b el).id).getD 0⟩

private theorem adds_of_effect (effect : BatchEffect env b) :
    Adds env b b.pushed.ct b.flushed.ct := by
  cases effect with
  | create t es batch => exact create_adds batch
  | modify es db₁ db₂ modified batch => exact modify_adds batch
  | delete t es executed used deleted batch => exact delete_adds batch

private theorem named_of_resolved {ct : Tracking} {el : Element} {e : Elem el.objType}
    (resolves : Resolved ct (elemOf env el) e) (negative : el.op = .create → el.object.id < 0) :
    Named ct el.objType el.object.id e.id := by
  rw [← show (elemOf env el).oldId = el.object.id from elemOf_oldId el]
  rcases resolves.id with ⟨nonneg, same⟩ | placeholder
  · have changes : el.op ≠ .create := by
      intro creates
      rw [elemOf_oldId] at nonneg
      exact absurd (negative creates) (not_lt.mpr nonneg)
    exact .inl ⟨nonneg, by rw [same, elemOf_id changes, elemOf_oldId]⟩
  · exact .inr placeholder

private theorem exists_snoc {done : List Batch} {P : Batch → Prop} :
    (∃ c ∈ done ++ [b], P c) ↔ (∃ c ∈ done, P c) ∨ P b := by
  simp [List.mem_append, or_and_right, exists_or]

private theorem tracked_step {done : List Batch} {st : Upload} (tracked : Tracked env done st.ct)
    (executes : b.Executes env st) (effect : BatchEffect env b) :
    Tracked env (done ++ [b]) b.flushed.ct := by
  have adds := adds_of_effect effect
  have pushed := executes.pushed
  have created : ∀ t, b.pushed.ct.created t = st.ct.created t := by rw [pushed.tracking]; simp
  have grows : ∀ t, ∃ more, b.flushed.ct.created t = st.ct.created t ++ more := by
    intro t
    obtain ⟨more, same, -⟩ := adds.created t
    exact ⟨more, by rw [same, created]⟩
  refine ⟨?_, fun t m member => ?_, ?_, ?_, ?_, ?_, fun t m => ?_, fun t o => ?_, fun t m => ?_⟩
  · rw [adds.orig, pushed.tracking]
    simp [tracked.orig]
  · obtain ⟨more, same, first⟩ := adds.created t
    rw [same, created] at member
    exact (List.mem_append.mp member).elim (tracked.created t m) (first m)
  · rw [List.forall_mem_append, List.forall_mem_singleton]
    refine ⟨tracked.uniform, fun el member d there => ?_⟩
    rcases executes.op_eq with ⟨t, -, ops⟩ | ⟨-, ops⟩ | ⟨t, -, ops⟩
    · rw [(ops el member).1, (ops d there).1]
    · rw [ops el member, ops d there]
    · rw [(ops el member).1, (ops d there).1]
  · rw [List.forall_mem_append, List.forall_mem_singleton]
    exact ⟨tracked.negative, pushed.negative⟩
  · rw [List.forall_mem_append, List.forall_mem_singleton]
    exact ⟨fun c inside el member => (tracked.names c inside el member).mono (grows el.objType),
      fun el member => named_of_resolved (recordOf_resolved effect member)
        (pushed.negative el member)⟩
  · rw [List.forall_mem_append, List.forall_mem_singleton]
    exact ⟨tracked.small, adds.small⟩
  · rw [adds.modified, exists_snoc, ← tracked.modified, pushed.tracking]
  · rw [adds.deleted, exists_snoc, ← tracked.deleted, pushed.tracking]
  · rw [adds.skipped, exists_snoc, ← tracked.skipped, pushed.tracking]

theorem tracked_of_executed {doc : List Element} {db db' : Db} {batches : List Batch} {st : Upload}
    (executed : Executed env doc db batches st db') : Tracked env batches st.ct := by
  obtain ⟨st₁, runs, rfl⟩ := executed.runs
  refine runs.invariant (I := fun done st _ => Tracked env done st.ct) (idle_empty env) ?_
    fun done st₂ b _ before executes effect => tracked_step before executes effect
  have none : ∀ {α : Type} {a : α} {P : Prop}, a ∈ ([] : List α) → P := fun member =>
    (List.not_mem_nil member).elim
  exact ⟨rfl, fun _ _ => none, fun _ => none, fun _ => none, fun _ => none, fun _ => none,
    fun t m => by simp [Upload.empty, Tracking.empty],
    fun t o => by simp [Upload.empty, Tracking.empty],
    fun t m => by simp [Upload.empty, Tracking.empty]⟩

end Tracked

/-- When the rows can be told from the tracking: only deletions with the if-unused flag
are skipped, such deletions of one written id all have the same outcome, and the
written id of each skipped one is the last name of its object in some batch. -/
structure Consistent (env : Env) (batches : List Batch) : Prop where
  flagged : ∀ b ∈ batches, ∀ el ∈ b.els, el.op = .delete → keeps b (objectOf env b el) = true →
    el.ifUnused = true
  same : ∀ b ∈ batches, ∀ el ∈ b.els, ∀ c ∈ batches, ∀ d ∈ c.els,
    el.op = .delete → d.op = .delete → el.ifUnused = true → d.ifUnused = true →
    el.objType = d.objType → el.object.id = d.object.id → rowFor env b el = rowFor env c d
  named : ∀ b ∈ batches, ∀ el ∈ b.els, el.op = .delete → keeps b (objectOf env b el) = true →
    ∃ c ∈ batches, ∃ d ∈ c.els, d.op = .delete ∧ keeps c (objectOf env c d) = true ∧
      d.objType = el.objType ∧ lastName env c (objectOf env c d) = el.object.id

section Rows

variable {ct : Tracking} {batches : List Batch}

private theorem same_record (tracked : Tracked env batches ct) {c : Batch} (inside : b ∈ batches)
    (there : c ∈ batches) {el d : Element} (member : el ∈ b.els) (here : d ∈ c.els)
    (type : d.objType = el.objType) (written : d.object.id = el.object.id) :
    (recordOf env c d).id = (recordOf env b el).id := by
  have transport : ∀ t w id, t = el.objType → w = el.object.id → Named ct t w id →
      Named ct el.objType el.object.id id := by
    rintro t w id rfl rfl named
    exact named
  exact (transport _ _ _ type written (tracked.names c there d here)).unique
    (tracked.names b inside el member)

theorem assembleRow_create (tracked : Tracked env batches ct) (inside : b ∈ batches)
    {el : Element} (member : el ∈ b.els) (op : el.op = .create) :
    assembleRow ct (origOf env el) = .ok (rowFor env b el) := by
  have negative := tracked.negative b inside el member op
  rcases tracked.names b inside el member with ⟨nonneg, -⟩ | ⟨-, found⟩
  · exact absurd negative (not_lt.mpr nonneg)
  · obtain ⟨m, first, new⟩ := Option.map_eq_some_iff.mp found
    have old : m.oldId = el.object.id := by simpa using List.find?_some first
    have one := tracked.created el.objType m (List.mem_of_find?_eq_some first)
    simp only [assembleRow, origOf, rowFor, op, elemOf_oldId, first, old, one, new]

theorem assembleRow_modify (tracked : Tracked env batches ct) (inside : b ∈ batches)
    {el : Element} (member : el ∈ b.els) (op : el.op = .modify) :
    assembleRow ct (origOf env el) = .ok (rowFor env b el) := by
  have small := tracked.small b inside el member op
  have entry := (tracked.modified el.objType _).mpr ⟨b, inside, el, member, op, rfl, rfl⟩
  have hit : ((ct.modified el.objType).find? (fun m => decide (m.oldId = el.object.id ∧
      m.newVersion = (el.object.version + 1) % versionBound))).isSome := by
    rw [List.find?_isSome]
    refine ⟨_, entry, ?_⟩
    rw [Nat.mod_eq_of_lt small]
    exact decide_eq_true ⟨rfl, rfl⟩
  obtain ⟨m, first⟩ := Option.isSome_iff_exists.mp hit
  have keys : m.oldId = el.object.id ∧ m.newVersion = (el.object.version + 1) % versionBound := by
    simpa only [decide_eq_true_eq] using List.find?_some first
  rw [Nat.mod_eq_of_lt small] at keys
  -- any entry with this key is for the same object
  obtain ⟨c, there, d, here, -, type, found⟩ :=
    (tracked.modified _ _).mp (List.mem_of_find?_eq_some first)
  have id : m.newId = (recordOf env b el).id := by
    rw [found] at keys ⊢
    exact same_record tracked inside there member here type keys.1
  have version : (elemOf env el).version = el.object.version := elemOf_version (by rw [op]; nofun)
  simp only [assembleRow, origOf, rowFor, op, elemOf_oldId, version, first, keys.1, keys.2, id]

private theorem assembleRow_executed {el : Element} (op : el.op = .delete)
    (executed : el.object.id ∈ ct.deleted el.objType)
    (unskipped : el.ifUnused = true → ∀ m ∈ ct.skipDeleted el.objType, m.oldId ≠ el.object.id) :
    assembleRow ct (origOf env el) =
      .ok ⟨.delete, el.objType, el.object.id, 0, 0, false⟩ := by
  have unused : (elemOf env el).ifUnused = el.ifUnused := elemOf_ifUnused op
  cases flag : el.ifUnused with
  | false => simp [assembleRow, origOf, op, elemOf_oldId, unused, flag, executed]
  | true =>
      have none : (ct.skipDeleted el.objType).find?
          (fun m => decide (m.oldId = el.object.id)) = none := by
        rw [List.find?_eq_none]
        exact fun m member same => unskipped flag m member (of_decide_eq_true same)
      simp [assembleRow, origOf, op, elemOf_oldId, unused, flag, none, executed]

private theorem assembleRow_skipped {el : Element} (op : el.op = .delete)
    {row : DiffResult} (done : assembleRow ct (origOf env el) = .ok row)
    (skipped : row.deletionSkipped = true) :
    el.ifUnused = true ∧ ∃ m ∈ ct.skipDeleted el.objType, m.oldId = el.object.id := by
  have unused : (elemOf env el).ifUnused = el.ifUnused := elemOf_ifUnused op
  have plain : ∀ {x : Except Exception DiffResult}, x = .ok row →
      x = (if el.object.id ∈ ct.deleted el.objType then
        .ok ⟨.delete, el.objType, el.object.id, 0, 0, false⟩ else .error notProcessed) → False := by
    rintro x rfl same
    split at same
    · cases same
      cases skipped
    · cases same
  cases flag : el.ifUnused with
  | false =>
      refine (plain done ?_).elim
      simp only [assembleRow, origOf, op, elemOf_oldId, unused, flag, Bool.false_eq_true, if_false]
  | true =>
      refine ⟨rfl, ?_⟩
      cases first : (ct.skipDeleted el.objType).find?
          (fun m => decide (m.oldId = el.object.id)) with
      | none =>
          refine (plain done ?_).elim
          simp only [assembleRow, origOf, op, elemOf_oldId, unused, flag, if_true, first]
      | some m =>
          exact ⟨m, List.mem_of_find?_eq_some first, by simpa using List.find?_some first⟩

private theorem assembleRow_congr (env : Env) (ct : Tracking) {el d : Element} (op : el.op = .delete) (op' : d.op = .delete)
    (unused : el.ifUnused = d.ifUnused) (type : el.objType = d.objType)
    (written : el.object.id = d.object.id) :
    assembleRow ct (origOf env el) = assembleRow ct (origOf env d) := by
  simp only [assembleRow, origOf, op, op', elemOf_oldId, elemOf_ifUnused op, elemOf_ifUnused op',
    unused]
  rw [written, type]

private theorem lastName_spec (env : Env) {el : Element} (member : el ∈ b.els) :
    ∃ d ∈ b.els, objectOf env b d = objectOf env b el ∧
      d.object.id = lastName env b (objectOf env b el) := by
  have hit : (b.els.reverse.find? (fun d => decide (objectOf env b d = objectOf env b el))).isSome := by
    rw [List.find?_isSome]
    exact ⟨el, List.mem_reverse.mpr member, decide_eq_true rfl⟩
  obtain ⟨d, found⟩ := Option.isSome_iff_exists.mp hit
  have same : objectOf env b d = objectOf env b el := by
    simpa only [decide_eq_true_eq] using List.find?_some found
  refine ⟨d, List.mem_reverse.mp (List.mem_of_find?_eq_some found), same, ?_⟩
  rw [lastName, found]
  rfl

private theorem rowFor_skipped {el : Element} (op : el.op = .delete)
    (stays : keeps b (objectOf env b el) = true) :
    rowFor env b el = ⟨.delete, el.objType, el.object.id, (recordOf env b el).id,
      (b.before.version? el.objType (recordOf env b el).id).getD 0, true⟩ := by
  simp only [rowFor, op, stays, if_true]

private theorem rowFor_executed {el : Element} (op : el.op = .delete)
    (gone : keeps b (objectOf env b el) = false) :
    rowFor env b el = ⟨.delete, el.objType, el.object.id, 0, 0, false⟩ := by
  simp only [rowFor, op, gone, Bool.false_eq_true, if_false]

private theorem entry_row (tracked : Tracked env batches ct) (consistent : Consistent env batches)
    {m : ObjectIdMapping} (entry : m ∈ ct.skipDeleted t) :
    ∃ c ∈ batches, ∃ d ∈ c.els, d.op = .delete ∧ d.ifUnused = true ∧ d.objType = t ∧
      d.object.id = m.oldId ∧
      rowFor env c d = ⟨.delete, t, m.oldId, m.newId, m.newVersion, true⟩ := by
  obtain ⟨c, there, d₀, here₀, op₀, rfl, stays, rfl⟩ := (tracked.skipped _ m).mp entry
  obtain ⟨d, here, same, last⟩ := lastName_spec env here₀
  have op : d.op = .delete := (tracked.uniform c there d here d₀ here₀).trans op₀
  rw [← same] at stays
  have type : d.objType = d₀.objType := congrArg Prod.fst same
  have id : (recordOf env c d).id = (recordOf env c d₀).id := congrArg Prod.snd same
  refine ⟨c, there, d, here, op, consistent.flagged c there d here op stays, type, last, ?_⟩
  rw [rowFor_skipped op stays, id, last, type]

/-- The rows come out right exactly when the outcomes are consistent. -/
theorem assembleRow_iff (tracked : Tracked env batches ct) :
    (∀ b ∈ batches, ∀ el ∈ b.els, assembleRow ct (origOf env el) = .ok (rowFor env b el)) ↔
      Consistent env batches := by
  constructor
  · intro rows
    refine ⟨fun b inside el member op stays => ?_, ?_, fun b inside el member op stays => ?_⟩
    · have row := rows b inside el member
      rw [rowFor_skipped op stays] at row
      exact (assembleRow_skipped op row rfl).1
    · intro b inside el member c there d here op op' flag flag' type written
      have same := assembleRow_congr env ct op op' (flag.trans flag'.symm) type written
      rw [rows b inside el member, rows c there d here] at same
      exact Except.ok.inj same
    · have row := rows b inside el member
      rw [rowFor_skipped op stays] at row
      obtain ⟨-, m, entry, old⟩ := assembleRow_skipped op row rfl
      obtain ⟨c, there, d, here, op', type, stays', rfl⟩ := (tracked.skipped _ m).mp entry
      exact ⟨c, there, d, here, op', stays', type, old⟩
  · intro consistent b inside el member
    cases op : el.op with
    | create => exact assembleRow_create tracked inside member op
    | modify => exact assembleRow_modify tracked inside member op
    | delete =>
        cases outcome : keeps b (objectOf env b el) with
        | false =>
            rw [rowFor_executed op outcome]
            refine assembleRow_executed op ((tracked.deleted _ _).mpr
              ⟨b, inside, el, member, op, rfl, outcome, rfl⟩) fun flag m entry old => ?_
            obtain ⟨c, there, d, here, op', flag', type, written, row⟩ :=
              entry_row tracked consistent entry
            have same := consistent.same b inside el member c there d here op op' flag flag'
              type.symm (old.symm.trans written.symm)
            rw [rowFor_executed op outcome, row] at same
            exact nomatch congrArg DiffResult.deletionSkipped same
        | true =>
            have flag := consistent.flagged b inside el member op outcome
            obtain ⟨c₀, there₀, d₀, here₀, op₀, stays₀, type₀, last₀⟩ :=
              consistent.named b inside el member op outcome
            have entry₀ := (tracked.skipped el.objType _).mpr
              ⟨c₀, there₀, d₀, here₀, op₀, type₀, stays₀, rfl⟩
            have hit : ((ct.skipDeleted el.objType).find?
                (fun m => decide (m.oldId = el.object.id))).isSome := by
              rw [List.find?_isSome]
              exact ⟨_, entry₀, decide_eq_true last₀⟩
            obtain ⟨m, first⟩ := Option.isSome_iff_exists.mp hit
            have old : m.oldId = el.object.id := by
              simpa only [decide_eq_true_eq] using List.find?_some first
            obtain ⟨c, there, d, here, op', flag', type, written, row⟩ :=
              entry_row tracked consistent (List.mem_of_find?_eq_some first)
            rw [consistent.same b inside el member c there d here op op' flag flag' type.symm
              (old.symm.trans written.symm), row]
            simp only [assembleRow, origOf, op, elemOf_oldId, elemOf_ifUnused op, flag, if_true,
              first]

end Rows

/-- The rows of an executed document come out right exactly when the outcomes are
consistent. -/
theorem assembleDiffresult_of_executed {doc : List Element} {db db' : Db} {batches : List Batch}
    {st : Upload} (executed : Executed env doc db batches st db') :
    assembleDiffresult st.ct = .ok (documentRows env batches) ↔ Consistent env batches := by
  have tracked := tracked_of_executed executed
  rw [← assembleRow_iff tracked, assembleDiffresult, mapM_eq_ok, tracked.orig, documentRows]
  have right : batches.flatMap (fun b => b.els.map (rowFor env b)) =
      (elementsOf batches).map (fun p => rowFor env p.1 p.2) := by
    simp [elementsOf, List.map_flatMap, Function.comp_def]
  rw [← elementsOf_els, List.map_map, right, List.forall₂_map_left_iff,
    List.forall₂_map_right_iff, List.forall₂_same]
  constructor
  · exact fun all b inside el member => all (b, el) (mem_elementsOf.mpr ⟨inside, member⟩)
  · intro all p member
    obtain ⟨inside, here⟩ := mem_elementsOf.mp member
    exact all p.1 inside p.2 here

/-- A processed document gets one row per element, in document order, that describes
what happened to it, exactly when the outcomes of its deletions are consistent. -/
theorem assembleDiffresult_iff {doc : List Element} {db db' : Db} {st : Upload}
    (done : (processDocument env doc).run db = .ok (st, db')) :
    (∃ batches, Executed env doc db batches st db') ∧
      ∀ batches, Executed env doc db batches st db' →
        (assembleDiffresult st.ct = .ok (documentRows env batches) ↔ Consistent env batches) :=
  ⟨executed_of_processDocument done, fun _ executed => assembleDiffresult_of_executed executed⟩

theorem assembleDiffresult_sampleUse : ∃ st db' batches,
    Executed sampleEnv (sampleUse false) Db.empty batches st db' ∧
      (assembleDiffresult st.ct = .ok (documentRows sampleEnv batches) ↔
        Consistent sampleEnv batches) := by
  obtain ⟨st, db', run, -⟩ := of_check (processDocument sampleEnv (sampleUse false)) Db.empty
    (fun _ _ => true) (by decide +kernel)
  obtain ⟨⟨batches, executed⟩, rows⟩ := assembleDiffresult_iff run
  exact ⟨st, db', batches, executed, rows batches executed⟩

private theorem visible_of_skipped {now : Int} {id : Nat} {s : ObjState t} {evs : List (Event t)}
    (lawful : (machine now).LawfulAt (k := (t, id)) s evs)
    (skipped : ∀ ev ∈ evs, ev.op = .delete → ev.skipped = true)
    (start : ∀ r, s.row = some r → r.visible = true) :
    ∀ r, ((machine now).replayAt (k := (t, id)) s evs).row = some r → r.visible = true := by
  induction evs generalizing s with
  | nil => exact start
  | cons ev evs ih =>
      refine ih lawful.2 (fun ev' member => skipped ev' (List.mem_cons_of_mem ev member)) ?_
      have first := skipped ev List.mem_cons_self
      intro r row
      change (ev.act now id s).row = some r at row
      unfold Event.act at row
      split at row
      · exact start r row
      · rename_i executed
        cases op : ev.op with
        | create =>
            rw [op, ObjState.create_row] at row
            cases row
            rfl
        | modify =>
            rw [op, ObjState.modify_row] at row
            obtain ⟨r', -, rfl⟩ := Option.map_eq_some_iff.mp row
            rfl
        | delete => exact absurd (first op) executed

/-- A row that says executed for no deletion, and an object that is deleted all the same. -/
def misreported (st : Upload) (db : Db) : Bool :=
  (match assembleDiffresult st.ct with
    | .ok rows => rows.all (fun row => decide (row.op = .delete → row.deletionSkipped = true))
    | .error _ => false) &&
  (match (db.current .node).find? 1 with
    | some r => !r.visible
    | none => false)

/-- A node whose deletion is skipped at first and executed later, both times under the
same written id and with the flag: the second row says that it was skipped. -/
theorem misreported_sampleUse : ∃ st db' batches,
    Executed sampleEnv (sampleUse true) Db.empty batches st db' ∧
      assembleDiffresult st.ct ≠ .ok (documentRows sampleEnv batches) := by
  obtain ⟨st, db', run, wrong⟩ := of_check (processDocument sampleEnv (sampleUse true)) Db.empty
    misreported (by decide +kernel)
  obtain ⟨batches, executed⟩ := executed_of_processDocument run
  refine ⟨st, db', batches, executed, fun right => ?_⟩
  rw [misreported, right, Bool.and_eq_true, List.all_eq_true] at wrong
  obtain ⟨skips, gone⟩ := wrong
  obtain ⟨lawful, final⟩ := object_refines executed .node 1
  have skipped : ∀ x ∈ documentTrace sampleEnv batches, x.2.op = .delete → x.2.skipped = true := by
    intro x member op
    obtain ⟨b, inside, el, there, rfl⟩ := mem_documentTrace.mp member
    have row : rowFor sampleEnv b el ∈ documentRows sampleEnv batches :=
      List.mem_flatMap.mpr ⟨b, inside, List.mem_map_of_mem there⟩
    have op : el.op = .delete := op
    cases stays : keeps b (objectOf sampleEnv b el) with
    | false =>
        have told := of_decide_eq_true (skips _ row)
        rw [rowFor_executed op stays] at told
        exact nomatch told rfl
    | true =>
        change (decide (el.op = .delete) && keeps b (objectOf sampleEnv b el)) = true
        rw [op, stays]
        rfl
  have shown := visible_of_skipped lawful
    (fun ev member => skipped ⟨(.node, 1), ev⟩ (mem_eventsOf.mp member))
    (fun r row => nomatch (row : none = some r))
  rw [final] at shown
  cases found : (db'.current .node).find? 1 with
  | none => simp [found] at gone
  | some r =>
      simp only [found, Bool.not_eq_true'] at gone
      rw [shown r found] at gone
      cases gone

end Cgimap.Osmchange.DiffResults
