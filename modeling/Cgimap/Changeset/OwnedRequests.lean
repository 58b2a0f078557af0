/- path: Cgimap/Changeset/OwnedRequests
   generality: I
   source: src/backend/apidb/changeset_upload/changeset_updater.cpp,
     src/api06/changeset_{create,update,close,upload}_handler.cpp
   digest: What the four writing requests do to the rows they have locked. -/

import Cgimap.Changeset.ConcurrentUploads
import Cgimap.Osmchange.OwnedUploads

set_option autoImplicit false
set_option relaxedAutoImplicit false

namespace Cgimap.Changeset.OwnedRequests

open Cgimap.Library.KeyedTable
open Cgimap.Library.StatementProgram
open Cgimap.Library.StatementProgram.Prog
open Cgimap.Library.OwnedRecords
open Cgimap.Model.Types
open Cgimap.Model.Database
open Cgimap.Osmchange.DiffTracking
open Cgimap.Osmchange.UploadRecords
open Cgimap.Osmchange.SqlStatements
open Cgimap.Osmchange.Handler
open Cgimap.Osmchange.ObjectState
open Cgimap.Osmchange.ElementTrace
open Cgimap.Osmchange.OwnedWrites
open Cgimap.Osmchange.OwnedUploads
open Cgimap.Changeset.Updater
open Cgimap.Changeset.Responders
open Cgimap.Changeset.RowEffects
open Cgimap.Changeset.ClosingRaces
open Cgimap.Changeset.ConcurrentUploads

def changesetOf (σ : dbRecords.Contents) (c : Int) : Option ChangesetRow := σ (.changeset c)

def userOf (σ : dbRecords.Contents) (u : Nat) : Option UserRow := σ (.user u)

structure SetsRecord (c : Int) (r : ChangesetRow) (σ σ' : dbRecords.Contents) : Prop where
  self : changesetOf σ' c = some r
  other : ∀ x, x ≠ .changeset c → σ' x = σ x

variable {locks : List (Lockable × LockMode)} {σ σ' : dbRecords.Contents} {s : Session}
  {u : ChangesetUpdater}

namespace SetsRecord

variable {c : Int} {r r' : ChangesetRow} {σ₁ : dbRecords.Contents}

theorem trans (first : SetsRecord c r σ σ₁) (next : SetsRecord c r' σ₁ σ') :
    SetsRecord c r' σ σ' :=
  ⟨next.self, fun x ne => (next.other x ne).trans (first.other x ne)⟩

theorem objects (sets : SetsRecord c r σ σ') : objectsOf σ' = objectsOf σ :=
  funext fun _ => sets.other _ nofun

theorem of_setsRow {db db' : Db} (sets : SetsRow c r db db') (knows : dbRecords.Knows locks db σ)
    (held : Held locks (.changeset c)) :
    SetsRecord c r σ (dbRecords.taken locks db' σ) where
  self := (Records.taken_held held).trans sets.self
  other x ne := by
    by_cases own : Held locks x
    · rw [Records.taken_held own, ← knows x own, sets.rest]
      cases x with
      | object o => rfl
      | changeset c' =>
          change db'.changesets.find? c' = db.changesets.find? c'
          exact sets.other fun same => ne (by rw [same])
      | user u => rfl
    · exact Records.taken_free own

end SetsRecord

section Lock

structure Locked (s : Session) (check : Bool) (u u' : ChangesetUpdater) (r : ChangesetRow)
    (locks : List (Lockable × LockMode)) (σ : dbRecords.Contents) : Prop where
  held : Held locks (.changeset u.changeset)
  found : changesetOf σ u.changeset = some r
  own : r.userId = s.userId
  notClosed : s.now ≤ r.closedAt
  notFull : check = true → wrap32 r.numChanges < s.cfg.changesetMaxElements
  loaded : u' = u.load r.numChanges r.bbox

private theorem single_lockCs : Single (lockCs s u) := by
  refine single_bind (single_perform _) fun row => ?_
  cases row with
  | none => trivial
  | some r => trivial

private theorem lockCs_safe :
    Safe dbRecords (fun x locks' σ' => Keeps locks locks' ∧ σ' = σ ∧
        Held locks' (.changeset u.changeset) ∧ ∃ r, changesetOf σ u.changeset = some r ∧
          r.userId = s.userId ∧ x = (lockedRow s.now r, u.load r.numChanges r.bbox))
      (lockCs s u) locks σ := by
  refine safe_single single_lockCs fun db x db' knows done => ?_
  have locked : firstLocks (lockCs s u) db =
      (ownRow u.changeset s.userId db).toList.map (fun r => (.changeset r.id, .exclusive)) := rfl
  cases row : ownRow u.changeset s.userId db with
  | none =>
      unfold lockCs at done
      rw [run_bind, run_perform] at done
      simp only [changesetCurrentLock, row, Option.map_none] at done
      cases done
  | some r =>
      obtain ⟨found, own⟩ := Option.filter_eq_some_iff.mp row
      have id := (Table.find?_eq_some.mp found).2
      have held : Held (locks ++ firstLocks (lockCs s u) db) (.changeset u.changeset) := by
        refine List.mem_append_right _ ?_
        rw [locked, row, ← id]
        exact List.mem_singleton_self _
      unfold lockCs at done
      rw [run_bind, run_perform] at done
      simp only [changesetCurrentLock, row, Option.map_some] at done
      cases done
      exact ⟨fun y inside => inside.append _, knows.taken_eq, held, r, (knows _ held).symm.trans found,
        of_decide_eq_true own, rfl⟩

private theorem readOnly_checkUserOwnsChangeset : (checkUserOwnsChangeset s u).ReadOnly fun _ => True := by
  refine readOnly_bind (readOnly_query _) fun owner _ => ?_
  cases owner with
  | none => exact readOnly_throw _
  | some owner =>
      dsimp only
      split
      · exact readOnly_pure trivial
      · exact readOnly_throw _

theorem lockCurrentChangeset_safe (check : Bool) :
    Safe dbRecords (fun u' locks' σ' => Keeps locks locks' ∧ σ' = σ ∧
        ∃ r, Locked s check u u' r locks' σ) (lockCurrentChangeset s check u) locks σ := by
  unfold lockCurrentChangeset
  refine check_bind readOnly_checkUserOwnsChangeset fun _ l₁ k₁ _ => ?_
  refine safe_bind lockCs_safe ?_
  rintro _ l₂ _ ⟨k₂, rfl, held, r, found, own, rfl⟩
  dsimp only
  split
  · exact safe_throw _
  · rename_i notClosed
    split
    · exact safe_throw _
    · rename_i notFull
      refine safe_pure ⟨k₁.trans k₂, rfl, r, held, found, own, ?_, fun checks => ?_, rfl⟩
      · exact Int.not_lt.mp fun closed => notClosed (decide_eq_true closed)
      · exact Nat.lt_of_not_le fun full => notFull ⟨checks, full⟩

end Lock

section Update

variable {r : ChangesetRow}

/-- A program of one statement that sets the row of the changeset when it runs alone. -/
private theorem setsRow_safe {α : Type} {p : DbProg α} {c : Int} {r' : ChangesetRow} {a : α}
    (single : Single p) (held : Held locks (.changeset c)) (found : changesetOf σ c = some r)
    (runs : ∀ db : Db, db.changesets.find? c = some r →
      ∃ db', p.run db = .ok (a, db') ∧ SetsRow c r' db db') :
    Safe dbRecords (fun a' locks' σ' => Keeps locks locks' ∧ a' = a ∧ SetsRecord c r' σ σ')
      p locks σ := by
  refine safe_single single fun db a' db' knows done => ?_
  have held := held.append (firstLocks p db)
  obtain ⟨db₁, run, sets⟩ := runs db ((knows _ held).trans found)
  obtain ⟨rfl, rfl⟩ := Prod.mk.inj (Except.ok.inj (done.symm.trans run))
  exact ⟨fun x inside => inside.append _, rfl, .of_setsRow sets knows held⟩

private theorem expectRows_bind {β : Type} {Q : β → List (Lockable × LockMode) → dbRecords.Contents → Prop}
    {k : Unit → DbProg β} {n : Nat} {e : Exception} (rest : Safe dbRecords Q (k ()) locks σ) :
    Safe dbRecords Q (expectRows n n e >>= k) locks σ := by
  rw [expectRows, if_pos rfl]
  exact rest

theorem saveChangeset_safe (new : UploadStats) (held : Held locks (.changeset u.changeset))
    (found : changesetOf σ u.changeset = some r) :
    Safe dbRecords (fun u' locks' σ' => Keeps locks locks' ∧ u' = u ∧
        SetsRecord u.changeset (updatedRow s new u r) σ σ')
      (saveChangeset s new u) locks σ := by
  have counts : ∀ db : Db, db.changesets.find? u.changeset = some r → ∃ db',
      (perform (if u.csBbox = Bbox.undefined s.cfg then changesetUpdate s u
        else changesetUpdateWBbox s u)).run db = .ok (1, db') ∧
        SetsRow u.changeset { updatedRow s new u r with stats := r.stats } db db' := by
    intro db row
    obtain ⟨db', run, sets⟩ := changesetUpdate_run s new row
    exact ⟨db', (run_perform ..).trans run, sets⟩
  unfold saveChangeset
  refine safe_bind (setsRow_safe (single_perform _) held found counts) ?_
  rintro _ l₁ σ₁ ⟨k₁, rfl, sets₁⟩
  refine expectRows_bind (safe_bind (setsRow_safe ?_ (k₁ _ held) sets₁.self fun db row =>
    changesetUpdateEnhancedStats_run s new row) ?_)
  · unfold changesetUpdateEnhancedStats
    split
    · refine single_bind (single_perform _) fun rows => ?_
      unfold expectRows
      split <;> trivial
    · trivial
  · rintro _ l₂ σ₂ ⟨k₂, -, sets₂⟩
    exact safe_pure ⟨k₁.trans k₂, rfl, sets₁.trans sets₂⟩

theorem updateChangeset_safe (new : UploadStats) (bbox : Bbox)
    (held : Held locks (.changeset u.changeset)) (found : changesetOf σ u.changeset = some r) :
    Safe dbRecords (fun u' locks' σ' => Keeps locks locks' ∧
        wrap32 (u.csNumChanges + wrap32 new.total) ≤ s.cfg.changesetMaxElements ∧
        u' = u.count (wrap32 new.total) bbox ∧ SetsRecord u.changeset
          (updatedRow s new (u.count (wrap32 new.total) bbox) r) σ σ')
      (updateChangeset s new bbox u) locks σ := by
  unfold updateChangeset
  dsimp only
  split
  · exact (still_query _).safe_bind fun time more _ => safe_throw _
  · rename_i fits
    refine (saveChangeset_safe (u := u.count (wrap32 new.total) bbox) new held found).mono ?_
    rintro _ l σ' ⟨keeps, rfl, sets⟩
    exact ⟨keeps, Nat.not_lt.mp fits, rfl, sets⟩

end Update

section Tags

private theorem still_expectRows (actual expected : Nat) (e : Exception) :
    Still dbRecords (fun _ => True) (expectRows actual expected e) := by
  unfold expectRows
  split
  · exact still_pure trivial
  · exact still_throw _

theorem still_deleteChangesetTags (id : Int) :
    Still dbRecords (fun _ => True) (perform (deleteChangesetTags id)) := by
  refine still_perform fun db r db' done => ?_
  obtain ⟨-, rfl⟩ := Prod.mk.inj (Except.ok.inj done)
  funext x
  cases x <;> rfl

theorem still_changesetInsertTags (tags : List (String × String)) :
    Still dbRecords (fun _ => True) (changesetInsertTags tags u) := by
  unfold changesetInsertTags
  split
  · exact still_pure trivial
  · refine still_bind (still_perform fun db r db' done => ?_) fun rows _ => still_expectRows _ _ _
    unfold insertChangesetTags at done
    dsimp only at done
    split at done
    · cases done
    · cases done
      funext x
      cases x <;> rfl

theorem still_changesetInsertSubscriber :
    Still dbRecords (fun _ => True) (changesetInsertSubscriber s u) := by
  unfold changesetInsertSubscriber
  refine still_bind (still_perform fun db r db' done => ?_) fun rows _ => still_expectRows _ _ _
  unfold insertChangesetSubscribers at done
  dsimp only at done
  split at done
  · cases done
  · split at done
    · cases done
    · cases done
      funext x
      cases x <;> rfl

end Tags

section Create

theorem changesetInsertCs_safe :
    Safe dbRecords (fun u' locks' σ' => Keeps locks locks' ∧ ∃ c, u' = { u with changeset := c } ∧
        changesetOf σ c = none ∧ SetsRecord c ⟨c, s.userId, s.now,
          s.now + interval s.cfg.changesetTimeoutIdle, none, 0, UploadStats.zero⟩ σ σ')
      (changesetInsertCs s u) locks σ := by
  refine safe_single (single_bind (single_perform _) fun _ => trivial) fun db u' db' knows done => ?_
  have held : Held (locks ++ firstLocks (changesetInsertCs s u) db) (.changeset db.changesetSeq) :=
    List.mem_append_right _ (List.mem_singleton_self _)
  unfold changesetInsertCs createChangeset at done
  rw [run_bind, run_perform] at done
  dsimp only at done
  cases inserted : db.changesets.insert [⟨db.changesetSeq, s.userId, s.now,
      s.now + interval s.cfg.changesetTimeoutIdle, none, 0, UploadStats.zero⟩] with
  | none =>
      rw [inserted] at done
      cases done
  | some T =>
      by_cases unknown : (db.users.find? s.userId).isNone = true
      · simp only [inserted, unknown, if_true] at done
        cases done
      · simp only [inserted, unknown] at done
        cases done
        have fresh : db.changesets.find? db.changesetSeq = none :=
          (Table.insert_eq_some inserted).2.2 _ List.mem_cons_self
        have sets : SetsRow db.changesetSeq ⟨db.changesetSeq, s.userId, s.now,
            s.now + interval s.cfg.changesetTimeoutIdle, none, 0, UploadStats.zero⟩
            { db with changesetSeq := db.changesetSeq + 1 }
            { db with changesets := T, changesetSeq := db.changesetSeq + 1 } := by
          refine ⟨fun c' => ?_, rfl⟩
          change T.find? c' = _
          rw [Table.find?_insert inserted]
          split
          · rename_i here
            rw [here, fresh]
            simp
          · rename_i ne
            simp [Ne.symm ne]
        refine ⟨fun x inside => inside.append _, _, rfl, (knows _ held).symm.trans fresh,
          .of_setsRow sets (fun x inside => ?_) held⟩
        rw [← knows x inside]
        cases x <;> rfl

theorem changesetUpdateUsersCsCount_safe :
    Safe dbRecords (fun _ locks' σ' => Keeps locks locks' ∧ ∃ row : UserRow, row.id = s.userId ∧
        userOf σ row.id = some row ∧
        userOf σ' row.id = some { row with changesetsCount := row.changesetsCount + 1 } ∧
        ∀ x, x ≠ .user row.id → σ' x = σ x)
      (changesetUpdateUsersCsCount s) locks σ := by
  have single : Single (changesetUpdateUsersCsCount s) := by
    refine single_bind (single_perform _) fun rows => ?_
    unfold expectRows
    split <;> trivial
  refine safe_single single fun db x db' knows done => ?_
  have locked : firstLocks (changesetUpdateUsersCsCount s) db =
      (db.users.select (fun r => decide (r.id = s.userId))).map (fun r => (.user r.id, .exclusive)) := rfl
  unfold changesetUpdateUsersCsCount updateUsers at done
  rw [run_bind, run_perform] at done
  dsimp only at done
  by_cases one : (db.users.select (fun r => decide (r.id = s.userId))).length = 1
  · rw [one, expectRows, if_pos rfl] at done
    cases done
    obtain ⟨row, only⟩ := List.length_eq_one_iff.mp one
    have member : row ∈ db.users.select (fun r => decide (r.id = s.userId)) := by
      rw [only]
      exact List.mem_singleton_self row
    obtain ⟨inside, own⟩ := (Table.mem_select _ _).mp member
    have own : row.id = s.userId := of_decide_eq_true own
    have held : Held (locks ++ firstLocks (changesetUpdateUsersCsCount s) db) (.user row.id) := by
      refine List.mem_append_right _ ?_
      rw [locked, only]
      exact List.mem_singleton_self _
    have found : db.users.find? row.id = some row := Table.find?_key inside
    refine ⟨fun y there => there.append _, row, own, (knows _ held).symm.trans found, ?_,
      fun y ne => ?_⟩
    · refine (Records.taken_held held).trans ?_
      change Table.find? _ row.id = _
      rw [Table.find?_update, found, Option.map_some, if_pos own]
    · by_cases there : Held (locks ++ firstLocks (changesetUpdateUsersCsCount s) db) y
      · rw [Records.taken_held there, ← knows y there]
        cases y with
        | object o => rfl
        | changeset c => rfl
        | user u =>
            change Table.find? _ u = db.users.find? u
            rw [Table.find?_update]
            cases other : db.users.find? u with
            | none => rfl
            | some r =>
                have id := (Table.find?_eq_some.mp other).2
                have miss : r.id ≠ s.userId := fun same => ne (by rw [own, ← same, id])
                rw [Option.map_some, if_neg miss]
      · exact Records.taken_free there
  · rw [expectRows, if_neg one] at done
    cases done

end Create

section Responders

variable {tx : Transaction}

/-- What a committed request has done to the records, and replied. -/
inductive Does (tx : Transaction) (σ σ' : dbRecords.Contents) : Reply → Prop where
  | create {tags : Except Exception Tags} {c : Int} {row : UserRow} (request : tx.request = .create tags)
      (user : tx.user = some row.id) (fresh : changesetOf σ c = none)
      (opened : changesetOf σ' c = some (newChangesetRow tx row.id c))
      (found : userOf σ row.id = some row)
      (counted : userOf σ' row.id = some { row with changesetsCount := row.changesetsCount + 1 })
      (other : ∀ x, x ≠ .changeset c → x ≠ .user row.id → σ' x = σ x) :
      Does tx σ σ' (.text (toString c))
  | update {c : Int} {tags : Except Exception Tags} {r : ChangesetRow}
      (request : tx.request = .update c tags) (found : changesetOf σ c = some r)
      (user : tx.user = some r.userId) (notClosed : tx.now ≤ r.closedAt)
      (sets : SetsRecord c (updatedRow (sessionOf tx r.userId) UploadStats.zero
        (((freshUpdater tx c).load r.numChanges r.bbox).count 0 (Bbox.undefined tx.cfg)) r) σ σ') :
      Does tx σ σ' (.text "")
  | close {c : Int} {r : ChangesetRow} (request : tx.request = .close c)
      (found : changesetOf σ c = some r) (user : tx.user = some r.userId)
      (notClosed : tx.now ≤ r.closedAt) (sets : SetsRecord c { r with closedAt := tx.now } σ σ') :
      Does tx σ σ' (.text "")
  | upload {mt : MimeType} {c : Int} {payload : Payload} {r : ChangesetRow} {st : Upload}
      {log : Trace} {σ₁ : dbRecords.Contents} {rows : List DiffResult}
      (request : tx.request = .upload mt c payload) (found : changesetOf σ c = some r)
      (user : tx.user = some r.userId) (notClosed : tx.now ≤ r.closedAt)
      (notFull : wrap32 r.numChanges < tx.cfg.changesetMaxElements)
      (plays : Plays (tx.env c) (parsedElements mt payload) log Tracking.empty st.ct σ σ₁)
      (told : assembleDiffresult st.ct = .ok rows)
      (fits : wrap32 (wrap32 r.numChanges + wrap32 (getStats st).total) ≤ tx.cfg.changesetMaxElements)
      (sets : SetsRecord c (uploadedRow tx c st r) σ₁ σ') : Does tx σ σ' (.diffResult rows)

private theorem newUpdater_bind {c : Int} {β : Type}
    {Q : β → List (Lockable × LockMode) → dbRecords.Contents → Prop}
    {k : Session × ChangesetUpdater → DbProg β}
    (rest : ∀ userId, tx.user = some userId →
      Safe dbRecords Q (k (sessionOf tx userId, freshUpdater tx c)) locks σ) :
    Safe dbRecords Q (liftExcept (newUpdater tx.cfg tx.now tx.user c) >>= k) locks σ := by
  refine safe_liftExcept_bind fun x built => ?_
  unfold newUpdater at built
  split at built
  · cases built
  · rename_i userId user
    cases built
    exact rest userId user

theorem create_safe {tags : Except Exception Tags} (request : tx.request = .create tags) :
    Safe dbRecords (fun reply _ σ' => Does tx σ σ' reply) (changesetCreateResponder tx tags) locks σ := by
  unfold changesetCreateResponder apiCreateChangeset
  refine newUpdater_bind fun userId user => safe_liftExcept_bind fun tags _ => ?_
  refine safe_bind (Q := fun id _ σ' => Does tx σ σ' (.text (toString id)))
    (safe_bind changesetInsertCs_safe ?_) fun id _ _ does => safe_pure does
  rintro _ l₁ σ₁ ⟨k₁, c, rfl, fresh, sets⟩
  refine safe_bind changesetUpdateUsersCsCount_safe ?_
  rintro _ l₂ σ₂ ⟨k₂, row, own, found, counted, other⟩
  refine (still_deleteChangesetTags c).safe_bind fun _ _ _ => ?_
  refine (still_changesetInsertTags _).safe_bind fun _ _ _ => ?_
  refine still_changesetInsertSubscriber.safe_bind fun _ _ _ => safe_pure ?_
  have own : row.id = userId := own
  subst own
  refine .create request user fresh ?_ ?_ counted fun x notChangeset notUser => ?_
  · exact (other (.changeset c) nofun).trans sets.self
  · exact (sets.other (.user row.id) nofun).symm.trans found
  · exact (other x notUser).trans (sets.other x notChangeset)

theorem update_safe {c : Int} {tags : Except Exception Tags} (request : tx.request = .update c tags) :
    Safe dbRecords (fun reply _ σ' => Does tx σ σ' reply) (changesetUpdateResponder tx c tags)
      locks σ := by
  unfold changesetUpdateResponder apiUpdateChangeset
  refine newUpdater_bind fun userId user => safe_liftExcept_bind fun tags _ => ?_
  refine safe_bind (Q := fun _ _ σ' => Does tx σ σ' (.text "")) ?_ fun _ _ _ does => safe_pure does
  refine safe_bind (lockCurrentChangeset_safe false) ?_
  rintro _ l₁ _ ⟨k₁, rfl, r, lock⟩
  obtain ⟨held, found, rfl, notClosed, -, rfl⟩ := lock
  refine (still_deleteChangesetTags _).safe_bind fun _ _ _ => ?_
  refine (still_changesetInsertTags _).safe_bind fun _ _ _ => ?_
  refine (updateChangeset_safe (s := sessionOf tx r.userId)
    (u := (freshUpdater tx c).load r.numChanges r.bbox) UploadStats.zero (Bbox.undefined tx.cfg)
    ((held.append _).append _) found).mono ?_
  rintro _ l₂ σ₂ ⟨k₂, -, -, sets⟩
  exact .update request found user notClosed sets

theorem close_safe {c : Int} (request : tx.request = .close c) :
    Safe dbRecords (fun reply _ σ' => Does tx σ σ' reply) (changesetCloseResponder tx c) locks σ := by
  unfold changesetCloseResponder apiCloseChangeset
  refine newUpdater_bind fun userId user => ?_
  refine safe_bind (Q := fun _ _ σ' => Does tx σ σ' (.text "")) ?_ fun _ _ _ does => safe_pure does
  refine safe_bind (lockCurrentChangeset_safe false) ?_
  rintro _ l₁ _ ⟨k₁, rfl, r, lock⟩
  obtain ⟨held, found, rfl, notClosed, -, rfl⟩ := lock
  have closes : ∀ db : Db, db.changesets.find? c = some r → ∃ db',
      (perform (changesetClose (sessionOf tx r.userId) c)).run db = .ok (1, db') ∧
        SetsRow c { r with closedAt := tx.now } db db' := by
    intro db row
    have only : ∀ x : ChangesetRow, decide (x.id = c ∧ x.userId = r.userId) = true → x.id = c :=
      fun x named => (of_decide_eq_true named).1
    obtain ⟨db', run, sets⟩ := updateChangesets_exec (fun r => { r with closedAt := tx.now })
      (fun _ => rfl) row (decide_eq_true ⟨(Table.find?_eq_some.mp row).2, rfl⟩) only
    exact ⟨db', (run_perform ..).trans run, sets⟩
  refine safe_bind (setsRow_safe (single_perform _) held found closes) ?_
  rintro _ l₂ σ₂ ⟨k₂, rfl, sets⟩
  rw [expectRows, if_pos rfl]
  exact safe_pure (.close request found user notClosed sets)

theorem processPayload_safe {env : Env} {mt : MimeType} {payload : Payload} :
    Safe dbRecords (fun st l σ' => Keeps locks l ∧
        ∃ log, Plays env (parsedElements mt payload) log Tracking.empty st.ct σ σ')
      (processPayload env mt payload) locks σ := by
  unfold processPayload parsedElements
  split
  · unfold processMessage
    refine safe_bind (safe_foldlM (Sofar env locks σ) payload.elements
      (fun done el _ st l σ' sofar => processElement_safe sofar el) sofar_start) fun st l σ' sofar => ?_
    split
    · exact safe_throw _
    · exact finish_safe sofar
  · exact safe_pure ⟨fun _ held => held, [], .refl env _ σ⟩

theorem upload_safe {mt : MimeType} {c : Int} {payload : Payload}
    (request : tx.request = .upload mt c payload) :
    Safe dbRecords (fun reply _ σ' => Does tx σ σ' reply)
      (changesetUploadResponder tx mt c payload) locks σ := by
  unfold changesetUploadResponder
  split
  · exact safe_throw _
  · rename_i id _
    refine newUpdater_bind fun userId user => ?_
    refine safe_bind (lockCurrentChangeset_safe true) ?_
    rintro _ l₁ _ ⟨k₁, rfl, r, lock⟩
    obtain ⟨held, found, rfl, notClosed, notFull, rfl⟩ := lock
    refine safe_bind processPayload_safe ?_
    rintro st l₂ σ₂ ⟨k₂, log, plays⟩
    refine safe_liftExcept_bind fun rows told => ?_
    refine check_bind (readOnly_checkRateLimit _ _ _ _) fun _ l₃ k₃ _ => ?_
    have found₂ : changesetOf σ₂ c = some r := (plays.other (.changeset c) (by simp)).trans found
    refine safe_bind (updateChangeset_safe (getStats st) (getBbox (tx.env c) st)
      (k₃ _ (k₂ _ held)) found₂) ?_
    rintro _ l₄ σ₄ ⟨k₄, fits, rfl, sets⟩
    refine check_bind (readOnly_checkBboxSize _ _ _ _) fun _ l₅ k₅ _ => ?_
    exact safe_pure (.upload request found user notClosed (notFull rfl) plays told fits sets)

/-- Every request does what it says to the rows that it has locked. -/
theorem responder_safe (tx : Transaction) (σ : dbRecords.Contents) :
    Safe dbRecords (fun reply _ σ' => Does tx σ σ' reply) tx.responder [] σ := by
  unfold Transaction.responder
  split
  · rename_i tags request
    exact create_safe request
  · rename_i c tags request
    exact update_safe request
  · rename_i c request
    exact close_safe request
  · rename_i mt c payload request
    exact upload_safe request

end Responders

end Cgimap.Changeset.OwnedRequests
