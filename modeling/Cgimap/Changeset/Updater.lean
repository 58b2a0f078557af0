/- path: Cgimap/Changeset/Updater
   generality: I
   source: src/backend/apidb/changeset_upload/changeset_updater.cpp,
     include/cgimap/request_context.hpp, include/cgimap/api06/changeset_upload/changeset_stats.hpp
   digest: The statements and functions that create, lock, extend and close a changeset. -/

import Cgimap.Osmchange.SqlStatements

set_option autoImplicit false
set_option relaxedAutoImplicit false

namespace Cgimap.Changeset.Updater

open Cgimap.Library.KeyedTable
open Cgimap.Library.StatementProgram
open Cgimap.Library.StatementProgram.Prog
open Cgimap.Model.Types
open Cgimap.Model.Database
open Cgimap.Osmchange.SqlStatements

section Clock

/-- An `interval` of so many seconds. Timestamps count microseconds, as the
database does. -/
def interval (seconds : Int) : Int := seconds * 1000000

/-- Year, month and day of a day counted from 1970-01-01, in the calendar of
`to_char`. Years begin in March here, so that the leap day is the last one. -/
def civil (day : Int) : Int × Int × Int :=
  let z := day + 719468
  let era := z / 146097
  let doe := z - era * 146097
  let yoe := (doe - doe / 1460 + doe / 36524 - doe / 146096) / 365
  let doy := doe - (365 * yoe + yoe / 4 - yoe / 100)
  let mp := (5 * doy + 2) / 153
  let month := if mp < 10 then mp + 3 else mp - 9
  (yoe + era * 400 + (if month ≤ 2 then 1 else 0), month, doy - (153 * mp + 2) / 5 + 1)

def padded (width : Nat) (n : Int) : String :=
  let digits := toString n
  String.ofList (List.replicate (width - digits.length) '0') ++ digits

def toChar (time : Int) : String :=
  let second := time / 1000000
  let (year, month, day) := civil (second / 86400)
  let ofDay := second % 86400
  padded 4 year ++ "-" ++ padded 2 month ++ "-" ++ padded 2 day ++ " " ++
    padded 2 (ofDay / 3600) ++ ":" ++ padded 2 (ofDay / 60 % 60) ++ ":" ++
    padded 2 (ofDay % 60) ++ " UTC"

example : toChar 0 = "1970-01-01 00:00:00 UTC" := by decide +kernel

example : toChar (interval 1740787199) = "2025-02-28 23:59:59 UTC" := by decide +kernel

end Clock

/-- The value of a `uint32_t` expression. -/
def wrap32 (n : Nat) : Nat := n % 2 ^ 32

theorem wrap32_of_lt {n : Nat} (small : n < 2 ^ 32) : wrap32 n = n := Nat.mod_eq_of_lt small

/-- What stays fixed for one updater: the settings, `now()` of its transaction and
`req_ctx.user->id`. -/
structure Session where
  cfg : Settings
  now : Int
  userId : Nat

/-- The members of `ApiDB_Changeset_Updater` that its functions change. -/
structure ChangesetUpdater where
  changeset : Int
  csNumChanges : Nat
  csBbox : Bbox
  deriving DecidableEq

/-- The members that `lock_cs` reads from the row; without a box the default one
stays. -/
def ChangesetUpdater.load (u : ChangesetUpdater) (numChanges : Nat) (bbox : Option Bbox) :
    ChangesetUpdater :=
  { u with csNumChanges := wrap32 numChanges, csBbox := bbox.getD u.csBbox }

/-- The members that `update_changeset` adds to. -/
def ChangesetUpdater.count (u : ChangesetUpdater) (numNewChanges : Nat) (bbox : Bbox) :
    ChangesetUpdater :=
  { u with
    csNumChanges := wrap32 (u.csNumChanges + numNewChanges)
    csBbox := u.csBbox.expand bbox }

def newUpdater (cfg : Settings) (now : Int) (user : Option Nat) (changeset : Int) :
    Except Exception (Session × ChangesetUpdater) :=
  match user with
  | none => .error (.serverError "Cannot create changeset - no user id")
  | some id => .ok (⟨cfg, now, id⟩, ⟨changeset, 0, Bbox.undefined cfg⟩)

section Statements

def setWhere (hits : ChangesetRow → Bool) (set : ChangesetRow → ChangesetRow) (r : ChangesetRow) :
    ChangesetRow :=
  if hits r then set r else r

theorem setWhere_id {hits : ChangesetRow → Bool} {set : ChangesetRow → ChangesetRow}
    (keeps : ∀ r, (set r).id = r.id) (r : ChangesetRow) : (setWhere hits set r).id = r.id := by
  unfold setWhere
  split
  · exact keeps r
  · rfl

/-- `UPDATE changesets SET … WHERE …`; returns the number of affected rows. -/
def updateChangesets (hits : ChangesetRow → Bool) (set : ChangesetRow → ChangesetRow)
    (keeps : ∀ r, (set r).id = r.id) : SqlStmt Nat where
  exec db := .ok ((db.changesets.select hits).length,
    { db with changesets := db.changesets.update (setWhere hits set) (setWhere_id keeps) })
  locks db := (db.changesets.select hits).map (fun r => (.changeset r.id, .exclusive))

def changesetExists (id : Int) : SqlStmt (Option Nat) :=
  .query fun db => (db.changesets.find? id).map ChangesetRow.userId

/-- The columns that `changeset_current_lock` returns. -/
structure LockedRow where
  numChanges : Nat
  bbox : Option Bbox
  closedAt : String
  isClosed : Bool
  currentTime : String

def lockedRow (now : Int) (r : ChangesetRow) : LockedRow where
  numChanges := r.numChanges
  bbox := r.bbox
  closedAt := toChar r.closedAt
  isClosed := decide (r.closedAt < now)
  currentTime := toChar now

def ownRow (id : Int) (userId : Nat) (db : Db) : Option ChangesetRow :=
  (db.changesets.find? id).filter (fun r => decide (r.userId = userId))

def changesetCurrentLock (s : Session) (id : Int) : SqlStmt (Option LockedRow) where
  exec db := .ok ((ownRow id s.userId db).map (lockedRow s.now), db)
  locks db := (ownRow id s.userId db).toList.map (fun r => (.changeset r.id, .exclusive))
  busy := some (.conflict s!"Changeset {id} is currently locked by another process.")

/-- The `CASE` expression for `closed_at` of `changeset_update` and
`changeset_update_w_bbox`. -/
def extendedClosedAt (s : Session) (r : ChangesetRow) : Int :=
  if r.closedAt - r.createdAt >
      interval s.cfg.changesetTimeoutOpenMax - interval s.cfg.changesetTimeoutIdle then
    r.createdAt + interval s.cfg.changesetTimeoutOpenMax
  else s.now + interval s.cfg.changesetTimeoutIdle

def hasId (id : Int) (r : ChangesetRow) : Bool := decide (r.id = id)

def changesetUpdateWBbox (s : Session) (u : ChangesetUpdater) : SqlStmt Nat :=
  updateChangesets (hasId u.changeset)
    (fun r => { r with
      numChanges := u.csNumChanges
      bbox := some u.csBbox
      closedAt := extendedClosedAt s r })
    (fun _ => rfl)

def changesetUpdate (s : Session) (u : ChangesetUpdater) : SqlStmt Nat :=
  updateChangesets (hasId u.changeset)
    (fun r => { r with numChanges := u.csNumChanges, closedAt := extendedClosedAt s r })
    (fun _ => rfl)

/-- `changeset_update_enhanced_stats`. -/
def addStats (id : Int) (new : UploadStats) : SqlStmt Nat :=
  updateChangesets (hasId id) (fun r => { r with stats := r.stats.add new }) (fun _ => rfl)

def changesetClose (s : Session) (id : Int) : SqlStmt Nat :=
  updateChangesets (fun r => decide (r.id = id ∧ r.userId = s.userId))
    (fun r => { r with closedAt := s.now }) (fun _ => rfl)

def selectCurrentTime (s : Session) : SqlStmt String := .query fun _ => toChar s.now

def foreignKeyViolation : Exception :=
  .std "insert or update on table violates foreign key constraint"

/-- `create_changeset`; the id comes from `changesets_id_seq`. -/
def createChangeset (s : Session) : SqlStmt Int where
  exec db :=
    let row : ChangesetRow := ⟨db.changesetSeq, s.userId, s.now,
      s.now + interval s.cfg.changesetTimeoutIdle, none, 0, UploadStats.zero⟩
    match db.changesets.insert [row] with
    | none => .error uniqueViolation
    | some T =>
        if (db.users.find? s.userId).isNone then .error foreignKeyViolation
        else .ok (row.id, { db with changesets := T, changesetSeq := db.changesetSeq + 1 })
  locks db := [(.changeset db.changesetSeq, .exclusive)]

def updateUsers (id : Nat) : SqlStmt Nat where
  exec db := .ok ((db.users.select (fun r => decide (r.id = id))).length,
    { db with
      users := db.users.update
        (fun r => if r.id = id then { r with changesetsCount := r.changesetsCount + 1 } else r)
        (fun r => by split <;> rfl) })
  locks db := (db.users.select (fun r => decide (r.id = id))).map (fun r => (.user r.id, .exclusive))

def deleteChangesetTags (id : Int) : SqlStmt Unit where
  exec db := .ok ((), { db with
    changesetTags := db.changesetTags.delete (fun r => decide (r.changesetId = id)) })

def insertChangesetTags (id : Int) (tags : List (String × String)) : SqlStmt Nat where
  exec db :=
    match db.changesetTags.insert (tags.map (fun p => ⟨id, p.1, p.2⟩)) with
    | none => .error uniqueViolation
    | some T => .ok (tags.length, { db with changesetTags := T })

def insertChangesetSubscribers (userId : Nat) (id : Int) : SqlStmt Nat where
  exec db :=
    match db.subscribers.insert [⟨userId, id⟩] with
    | none => .error uniqueViolation
    | some T =>
        if (db.users.find? userId).isNone then .error foreignKeyViolation
        else .ok (1, { db with subscribers := T })

end Statements

section Functions

variable (s : Session)

def expectRows (actual expected : Nat) (e : Exception) : DbProg Unit :=
  if actual = expected then return () else throw e

def checkUserOwnsChangeset (u : ChangesetUpdater) : DbProg Unit := do
  match ← perform (changesetExists u.changeset) with
  | none => throw (.notFound "")
  | some owner =>
      if owner = s.userId then return ()
      else throw (.conflict "The user doesn't own that changeset")

def lockCs (u : ChangesetUpdater) : DbProg (LockedRow × ChangesetUpdater) := do
  match ← perform (changesetCurrentLock s u.changeset) with
  | none => throw (.conflict "The user doesn't own that changeset")
  | some r => return (r, u.load r.numChanges r.bbox)

def closedAtMessage (changeset : Int) (time : String) : Exception :=
  .conflict s!"The changeset {changeset} was closed at {time}"

def lockCurrentChangeset (checkMaxElementsLimit : Bool) (u : ChangesetUpdater) :
    DbProg ChangesetUpdater := do
  checkUserOwnsChangeset s u
  let (r, u) ← lockCs s u
  if r.isClosed then throw (closedAtMessage u.changeset r.closedAt)
  else if checkMaxElementsLimit ∧ s.cfg.changesetMaxElements ≤ u.csNumChanges then
    throw (closedAtMessage u.changeset r.currentTime)
  else return u

def changesetUpdateEnhancedStats (new : UploadStats) (u : ChangesetUpdater) : DbProg Unit := do
  if s.cfg.changesetEnhancedStats ∧ 0 < new.total then
    let rows ← perform (addStats u.changeset new)
    expectRows rows 1 (.serverError "Cannot update changeset - changeset_update_enhanced_stats")
  else return ()

/-- The rest of `update_changeset`, with the new counter and box. -/
def saveChangeset (new : UploadStats) (u : ChangesetUpdater) : DbProg ChangesetUpdater := do
  let rows ← perform (if u.csBbox = Bbox.undefined s.cfg then changesetUpdate s u
    else changesetUpdateWBbox s u)
  expectRows rows 1 (.serverError "Cannot update changeset")
  changesetUpdateEnhancedStats s new u
  return u

def updateChangeset (new : UploadStats) (bbox : Bbox) (u : ChangesetUpdater) :
    DbProg ChangesetUpdater := do
  let numNewChanges := wrap32 new.total
  if s.cfg.changesetMaxElements < wrap32 (u.csNumChanges + numNewChanges) then
    let time ← perform (selectCurrentTime s)
    throw (closedAtMessage u.changeset time)
  else
    saveChangeset s new (u.count numNewChanges bbox)

def changesetInsertCs (u : ChangesetUpdater) : DbProg ChangesetUpdater := do
  let id ← perform (createChangeset s)
  return { u with changeset := id }

def changesetUpdateUsersCsCount : DbProg Unit := do
  let rows ← perform (updateUsers s.userId)
  expectRows rows 1 (.serverError "Cannot create changeset - update changesets_count")

def changesetInsertTags (tags : List (String × String)) (u : ChangesetUpdater) : DbProg Unit := do
  if tags = [] then return ()
  else
    let rows ← perform (insertChangesetTags u.changeset tags)
    expectRows rows tags.length (.serverError "Cannot create changeset - changeset_insert_tags")

def changesetInsertSubscriber (u : ChangesetUpdater) : DbProg Unit := do
  let rows ← perform (insertChangesetSubscribers s.userId u.changeset)
  expectRows rows 1 (.serverError "Cannot create changeset - insert_changeset_subscribers")

def apiCreateChangeset (tags : List (String × String)) (u : ChangesetUpdater) : DbProg Int := do
  let u ← changesetInsertCs s u
  changesetUpdateUsersCsCount s
  perform (deleteChangesetTags u.changeset)
  changesetInsertTags tags u
  changesetInsertSubscriber s u
  return u.changeset

def apiUpdateChangeset (tags : List (String × String)) (u : ChangesetUpdater) :
    DbProg ChangesetUpdater := do
  let u ← lockCurrentChangeset s false u
  perform (deleteChangesetTags u.changeset)
  changesetInsertTags tags u
  updateChangeset s UploadStats.zero (Bbox.undefined s.cfg) u

def apiCloseChangeset (u : ChangesetUpdater) : DbProg Unit := do
  let u ← lockCurrentChangeset s false u
  let rows ← perform (changesetClose s u.changeset)
  expectRows rows 1 (.serverError "Cannot close changeset")

end Functions

end Cgimap.Changeset.Updater
