/- path: Cgimap/Http/Atomicity
   generality: I
   source: none
   digest: An error response leaves the tables alone exactly when the headers can be negotiated. -/

import Cgimap.Changeset.PayloadSizes
import Cgimap.Changeset.RowEffects
import Cgimap.Http.CommittedUpdates
import Cgimap.Library.ExceptLists

set_option autoImplicit false
set_option relaxedAutoImplicit false

namespace Cgimap.Http.Atomicity

open Cgimap.Library.ExceptLists
open Cgimap.Library.KeyedTable
open Cgimap.Library.StatementProgram
open Cgimap.Library.StatementProgram.Prog
open Cgimap.Model.Types
open Cgimap.Model.Database
open Cgimap.Model.Users
open Cgimap.Osmchange.DiffTracking
open Cgimap.Osmchange.UploadRecords
open Cgimap.Osmchange.Handler
open Cgimap.Changeset.Updater
open Cgimap.Changeset.Responders
open Cgimap.Changeset.PayloadSizes (samplePayload)
open Cgimap.Changeset.RowEffects
open Cgimap.Read.DataSelection
open Cgimap.Read.Endpoints
open Cgimap.Http.Requests
open Cgimap.Http.Negotiation
open Cgimap.Http.Routing
open Cgimap.Http.ProcessRequest
open Cgimap.Http.CommittedUpdates

section Statement

def answerTypes : UpdateEndpoint → List MimeType
  | .create | .close _ => [.textPlain]
  | .update _ | .upload _ => [.applicationXml, .applicationJson]

/-- The headers of the request leave a content encoding and a media type for the answer
to an update. -/
def Negotiable (server : Server) (req : HttpRequest) (e : UpdateEndpoint)
    (resourceType : MimeType) : Prop :=
  ∃ chosen, negotiate server req (answerTypes e) resourceType = .ok chosen

/-- What a request does not say itself: its payload and its time, the limits, and the
state of the database. -/
structure Circumstances where
  payload : Except Exception Body
  now : Int
  limits : Limits
  limiter : String → Bool → Option Int
  updateFactory : Option Bool
  fuel : Nat
  times : Times
  seen : Store
  store : Store

def Circumstances.server (x : Circumstances) (server : Server) : Server :=
  { server with
    limits := x.limits
    limiter := x.limiter
    updateFactory := x.updateFactory
    fuel := x.fuel }

def Circumstances.request (x : Circumstances) (req : HttpRequest) : HttpRequest :=
  { req with payload := x.payload, now := x.now }

/-- A response that reports an error belongs to a request that left the tables as they
were. -/
def ErrorKeepsTables (server : Server) (req : HttpRequest) (x : Circumstances) : Prop :=
  (processRequest (x.server server) (x.request req) x.times x.seen x.store).1.reportsError →
    (processRequest (x.server server) (x.request req) x.times x.seen x.store).2 = x.store.db

end Statement

section Errors

variable {server : Server} {req : HttpRequest}

/-- An error that is answered as one. -/
def IsError : HttpError → Prop
  | .thrown (.http code _) => 400 ≤ code
  | _ => True

private theorem reportsError_respondError {code : Nat} (high : 400 ≤ code) (message : String)
    (more : List (String × String)) : (respondError req code message more).reportsError := by
  unfold respondError
  split
  · exact .inr ⟨code, message, rfl⟩
  · exact .inl high

theorem reportsError_respond {failure : HttpError} (isError : IsError failure) :
    (respond server req failure).reportsError := by
  cases failure with
  | methodNotAllowed allowed =>
      exact .inl (show 400 ≤ 405 by omega)
  | bandwidthLimitExceeded retry => exact reportsError_respondError (by omega) _ _
  | thrown e =>
      cases e with
      | http code message =>
          unfold respond
          dsimp only
          split
          · exact .inl (show 400 ≤ 404 by omega)
          · split
            · exact .inl (show 400 ≤ 401 by omega)
            · split
              · exact .inl (show 400 ≤ 415 by omega)
              · exact reportsError_respondError isError _ _
      | std what => exact reportsError_respondError (by omega) _ _
      | outOfFuel => exact reportsError_respondError (by omega) _ _

/-- The exceptions that the negotiation throws. -/
private def IsFailure (e : Exception) : Prop := IsError (.thrown e)

theorem mapError_eq_error {α : Type} {x : Except Exception α} {failure : HttpError}
    (failed : x.mapError HttpError.thrown = .error failure) :
    ∃ e, x = .error e ∧ failure = .thrown e := by
  cases x with
  | ok a => cases failed
  | error e =>
      cases failed
      exact ⟨e, rfl, rfl⟩

private theorem foldlM_failure {α β : Type} {f : β → α → Except Exception β} {l : List α} {b : β}
    {e : Exception} (each : ∀ b a e, f b a = .error e → IsFailure e)
    (failed : l.foldlM f b = .error e) : IsFailure e := by
  induction l generalizing b with
  | nil => cases failed
  | cons a l ih =>
      rw [List.foldlM_cons, bind_eq_error] at failed
      rcases failed with first | ⟨b', -, rest⟩
      · exact each b a e first
      · exact ih rest

private theorem encodingItem_failure {numbers : Numbers} {item : Text} {e : Exception}
    (failed : encodingItem numbers item = .error e) : IsFailure e := by
  unfold encodingItem at failed
  split at failed
  · cases failed
  · split at failed
    · cases failed
      trivial
    · split at failed <;> cases failed
    · cases failed
  · cases failed

private theorem getEncoding_failure {build : Build} {numbers : Numbers} {e : Exception}
    (failed : getEncoding build numbers req = .error e) : IsFailure e := by
  unfold getEncoding at failed
  split at failed
  · unfold chooseEncoding at failed
    rcases bind_eq_error.mp failed with items | ⟨qs, -, last⟩
    · refine foldlM_failure (fun qs item e step => ?_) items
      rcases bind_eq_error.mp step with first | ⟨_, -, none⟩
      · exact encodingItem_failure first
      · cases none
    · repeat' split at last
      all_goals cases last
      exact show 400 ≤ 406 by omega
  · cases failed

private theorem badRequest_failure (message : String) : IsFailure (.badRequest message) :=
  Nat.le_refl 400

private theorem acceptParameter_failure {numbers : Numbers} {q : ℚ} {param : Text} {e : Exception}
    (failed : acceptParameter numbers q param = .error e) : IsFailure e := by
  unfold acceptParameter at failed
  repeat' split at failed
  all_goals cases failed
  all_goals exact badRequest_failure _

private theorem acceptElement_failure {numbers : Numbers} {item : Text} {e : Exception}
    (failed : acceptElement numbers item = .error e) : IsFailure e := by
  unfold acceptElement at failed
  split at failed
  · cases failed
    exact badRequest_failure _
  · rename_i first params parts
    dsimp only at failed
    generalize (if first = "*".toList then "*/*".toList else first) = media at failed
    split at failed
    · split at failed
      · cases failed
        exact badRequest_failure _
      · split at failed
        · cases failed
        · rcases bind_eq_error.mp failed with params | ⟨q, -, none⟩
          · exact foldlM_failure (fun q param e => acceptParameter_failure) params
          · cases none
    · cases failed
      exact badRequest_failure _

private theorem parseAccept_failure {numbers : Numbers} {header : Text} {e : Exception}
    (failed : parseAccept numbers header = .error e) : IsFailure e := by
  unfold parseAccept at failed
  dsimp only at failed
  split at failed
  · cases failed
    exact badRequest_failure _
  · rcases bind_eq_error.mp failed with items | ⟨elements, -, none⟩
    · obtain ⟨item, -, first⟩ := mapM_eq_error items
      exact acceptElement_failure first
    · cases none

private theorem notAcceptableFor_failure {α : Type} {path : Text} {types : List MimeType}
    {e : Exception} (failed : (notAcceptableFor path types : Except Exception α) = .error e) :
    IsFailure e := by
  unfold notAcceptableFor at failed
  rcases bind_eq_error.mp failed with names | ⟨names, -, last⟩
  · unfold mimeTypesToString at names
    rcases bind_eq_error.mp names with each | ⟨_, -, none⟩
    · obtain ⟨mt, -, first⟩ := mapM_eq_error each
      cases mt <;> cases first
      trivial
    · cases none
  · cases last
    exact show 400 ≤ 406 by omega

private theorem chooseAmong_failure {accept : AcceptHeader} {available : List MimeType}
    {resourceType : MimeType} {path : Text} {e : Exception}
    (failed : chooseAmong accept available resourceType path = .error e) : IsFailure e := by
  unfold chooseAmong at failed
  dsimp only at failed
  split at failed
  · split at failed
    · exact notAcceptableFor_failure failed
    · split at failed
      · exact notAcceptableFor_failure failed
      · cases failed
  · split at failed
    · exact notAcceptableFor_failure failed
    · repeat' split at failed
      all_goals cases failed

private theorem getRequestPath_failure {failure : HttpError}
    (failed : getRequestPath req = .error failure) : IsError failure := by
  unfold getRequestPath at failed
  split at failed
  · cases failed
    exact show 400 ≤ 500 by omega
  · cases failed

theorem negotiate_failure {available : List MimeType} {resourceType : MimeType}
    {failure : HttpError} (failed : negotiate server req available resourceType = .error failure) :
    IsError failure := by
  unfold negotiate at failed
  rcases bind_eq_error.mp failed with encoding | ⟨_, -, rest⟩
  · obtain ⟨e, thrown, rfl⟩ := mapError_eq_error encoding
    exact getEncoding_failure thrown
  · rcases bind_eq_error.mp rest with mimeType | ⟨mt, -, rest⟩
    · unfold chooseBestMimeType at mimeType
      rcases bind_eq_error.mp mimeType with header | ⟨_, -, rest⟩
      · obtain ⟨e, thrown, rfl⟩ := mapError_eq_error header
        exact parseAccept_failure thrown
      · rcases bind_eq_error.mp rest with path | ⟨_, -, last⟩
        · exact getRequestPath_failure path
        · obtain ⟨e, thrown, rfl⟩ := mapError_eq_error last
          exact chooseAmong_failure thrown
    · rcases bind_eq_error.mp rest with name | ⟨_, -, none⟩
      · obtain ⟨e, thrown, rfl⟩ := mapError_eq_error name
        cases mt <;> cases thrown
        trivial
      · cases none

end Errors

section Runs

variable {tx : Transaction} {c : Int} {db : Db} {r : ChangesetRow}

def noTags : Tags := ⟨[], List.nodup_nil⟩

def emptyPayload : Payload := samplePayload []

private theorem newUpdater_of_user (user : tx.user = some r.userId) :
    newUpdater tx.cfg tx.now tx.user c = .ok (sessionOf tx r.userId, freshUpdater tx c) := by
  unfold newUpdater
  rw [user]
  rfl

private theorem lock_of_open (tx : Transaction) (found : db.changesets.find? c = some r)
    (notClosed : tx.now ≤ r.closedAt) (check : Bool) (empty : wrap32 r.numChanges = 0) :
    (lockCurrentChangeset (sessionOf tx r.userId) check (freshUpdater tx c)).run db =
      .ok ((freshUpdater tx c).load r.numChanges r.bbox, db) := by
  have decided : (lockCurrentChangeset (sessionOf tx r.userId) check (freshUpdater tx c)).run db = _ :=
    lockCurrentChangeset_run found rfl
  have room : ¬ (check = true ∧ tx.cfg.changesetMaxElements ≤ wrap32 r.numChanges) := by
    intro full
    have positive := tx.cfg.changesetMaxElements_pos
    omega
  exact decided.trans ((if_neg (not_lt.mpr notClosed)).trans (if_neg room))

private theorem close_commits (tx : Transaction) (user : tx.user = some r.userId)
    (found : db.changesets.find? c = some r) (notClosed : tx.now ≤ r.closedAt)
    (empty : wrap32 r.numChanges = 0) :
    ∃ reply db', (changesetCloseResponder tx c).run db = .ok (reply, db') := by
  have lock := lock_of_open tx found notClosed false empty
  obtain ⟨db', closed, -⟩ : ∃ db', (changesetClose (sessionOf tx r.userId) c).exec db = .ok (1, db') ∧
      SetsRow c { r with closedAt := tx.now } db db' :=
    updateChangesets_exec _ _ found (decide_eq_true ⟨(Table.find?_eq_some.mp found).2, rfl⟩)
      (fun x hit => (of_decide_eq_true hit).1)
  refine ⟨.text "", db', ?_⟩
  unfold changesetCloseResponder apiCloseChangeset
  rw [newUpdater_of_user user]
  simp only [run_bind_eq_ok]
  exact ⟨_, db, rfl, (), db', ⟨_, db, lock, 1, db', (run_perform _ _).trans closed, rfl⟩, rfl⟩

private theorem save_commits (tx : Transaction) (found : db.changesets.find? c = some r)
    (empty : wrap32 r.numChanges = 0) (bbox : Bbox) :
    ∃ db', (updateChangeset (sessionOf tx r.userId) UploadStats.zero bbox
      ((freshUpdater tx c).load r.numChanges r.bbox)).run db =
        .ok (((freshUpdater tx c).load r.numChanges r.bbox).count 0 bbox, db') := by
  have fits : wrap32 (((freshUpdater tx c).load r.numChanges r.bbox).csNumChanges +
      wrap32 UploadStats.zero.total) ≤ (sessionOf tx r.userId).cfg.changesetMaxElements := by
    change wrap32 (wrap32 r.numChanges + 0) ≤ _
    rw [empty]
    exact Nat.zero_le _
  have own : db.changesets.find? ((freshUpdater tx c).load r.numChanges r.bbox).changeset = some r :=
    found
  obtain ⟨db', saved, -⟩ := updateChangeset_run _ UploadStats.zero bbox own fits
  exact ⟨db', saved⟩

private theorem update_commits (tx : Transaction) (user : tx.user = some r.userId)
    (found : db.changesets.find? c = some r) (notClosed : tx.now ≤ r.closedAt)
    (empty : wrap32 r.numChanges = 0) :
    ∃ reply db', (changesetUpdateResponder tx c (.ok noTags)).run db = .ok (reply, db') := by
  have lock := lock_of_open tx found notClosed false empty
  have kept : ({ db with changesetTags := db.changesetTags.delete (fun r => decide (r.changesetId = c)) } :
      Db).changesets.find? c = some r := found
  obtain ⟨db', saved⟩ := save_commits tx kept empty (Bbox.undefined tx.cfg)
  refine ⟨.text "", db', ?_⟩
  unfold changesetUpdateResponder apiUpdateChangeset
  rw [newUpdater_of_user user]
  simp only [run_bind_eq_ok]
  exact ⟨_, db, rfl, noTags, db, rfl, _, db', ⟨_, db, lock, (), _, run_perform _ _, (), _, rfl, saved⟩,
    rfl⟩

private theorem upload_commits (tx : Transaction) (user : tx.user = some r.userId)
    (found : db.changesets.find? c = some r) (notClosed : tx.now ≤ r.closedAt)
    (empty : wrap32 r.numChanges = 0) (unboxed : r.bbox = none)
    (limited : tx.limits = ⟨fun _ _ => some 0, fun _ _ => some 0⟩) (mt : MimeType) :
    ∃ reply db', (changesetUploadResponder tx mt c emptyPayload).run db = .ok (reply, db') := by
  have lock := lock_of_open tx found notClosed true empty
  have processed : ∃ st, (processPayload (tx.env c) mt emptyPayload).run db = .ok (st, db) ∧
      st.ct = (Upload.empty (tx.env c)).ct ∧
      getBbox (tx.env c) st = Bbox.undefined tx.cfg := by
    have box : getBbox (tx.env c) (Upload.empty (tx.env c)) = Bbox.undefined tx.cfg := by
      change (((Bbox.undefined tx.cfg).expand (Bbox.undefined tx.cfg)).expand
        (Bbox.undefined tx.cfg)).expand (Bbox.undefined tx.cfg) = _
      rw [Bbox.expand_self, Bbox.expand_self, Bbox.expand_self]
    by_cases json : mt = .applicationJson
    · refine ⟨Upload.empty (tx.env c), ?_, rfl, box⟩
      unfold processPayload
      rw [if_neg (not_not_intro json)]
      rfl
    · refine ⟨{ Upload.empty (tx.env c) with state := .finished }, ?_, rfl, box⟩
      unfold processPayload
      rw [if_pos json]
      rfl
  obtain ⟨st, processed, tracked, box⟩ := processed
  have stats : getStats st = UploadStats.zero := by
    unfold getStats elementStats
    rw [tracked]
    rfl
  have assembled : assembleDiffresult st.ct = .ok [] := by
    rw [tracked]
    rfl
  have rate : (checkRateLimit (tx.env c) tx.limits r.userId (getStats st).total).run db =
      .ok ((), db) := by
    rw [stats, limited]
    unfold checkRateLimit
    split <;> rfl
  obtain ⟨db', saved⟩ := save_commits tx found empty (Bbox.undefined tx.cfg)
  have size : (checkBboxSize (tx.env c) tx.limits r.userId
      (((freshUpdater tx c).load r.numChanges r.bbox).count 0 (Bbox.undefined tx.cfg)).csBbox).run db' =
        .ok ((), db') := by
    have undefined : (((freshUpdater tx c).load r.numChanges r.bbox).count 0
        (Bbox.undefined tx.cfg)).csBbox = Bbox.undefined tx.cfg := by
      rw [unboxed]
      exact Bbox.expand_self _
    unfold checkBboxSize
    rw [undefined, if_neg (fun both => both.2 rfl)]
    rfl
  refine ⟨.diffResult [], db', ?_⟩
  unfold changesetUploadResponder
  rw [user]
  dsimp only
  rw [← user, newUpdater_of_user user]
  simp only [run_bind_eq_ok]
  rw [← box, ← stats] at saved
  rw [← box] at size
  exact ⟨_, db, rfl, _, db, lock, st, db, processed, [], db, run_liftExcept_eq_ok.mpr ⟨assembled, rfl⟩,
    (), db, rate, _, db', saved, (), db', size, rfl⟩

/-- One user, who has the open changeset `c`. -/
def openDb (c closedAt : Int) : Db :=
  { Db.empty with
    users := ⟨[⟨1, 0⟩], List.nodup_singleton _⟩
    changesets := ⟨[⟨c, 1, 0, closedAt, none, 0, UploadStats.zero⟩], List.nodup_singleton _⟩ }

private theorem create_commits (tx : Transaction) (user : tx.user = some 1) (closedAt : Int) :
    ∃ reply db', (changesetCreateResponder tx (.ok noTags)).run (openDb 0 closedAt) =
      .ok (reply, db') := by
  unfold changesetCreateResponder
  rw [user]
  exact ⟨_, _, rfl⟩

end Runs

section Answers

variable {server : Server} {req : HttpRequest} {e : UpdateEndpoint} {resourceType : MimeType}

private theorem respondUpdate_eq (server : Server) (req : HttpRequest) (e : UpdateEndpoint)
    (resourceType : MimeType) (committed : Store) (reply : Reply) :
    ∃ calls, respondUpdate server req resourceType e committed reply =
      generateResponse server req (answerTypes e) resourceType calls := by
  cases e with
  | create => exact ⟨_, rfl⟩
  | update c => exact ⟨_, rfl⟩
  | close c => exact ⟨_, rfl⟩
  | upload c => exact ⟨_, rfl⟩

private theorem not_reportsError_of_negotiable (negotiable : Negotiable server req e resourceType)
    (committed : Store) (reply : Reply) :
    ¬ (orRespond server req (respondUpdate server req resourceType e committed reply)).reportsError := by
  obtain ⟨calls, same⟩ := respondUpdate_eq server req e resourceType committed reply
  obtain ⟨⟨encoding, mimeType, name⟩, chosen⟩ := negotiable
  have answered : generateResponse server req (answerTypes e) resourceType calls = .ok _ :=
    bind_eq_ok.mpr ⟨_, chosen, rfl⟩
  rw [same, answered]
  rintro (status | ⟨status, message, body⟩)
  · change 400 ≤ 200 at status
    omega
  · cases body

private theorem reportsError_of_not_negotiable
    (never : ¬ Negotiable server req e resourceType) (committed : Store) (reply : Reply) :
    (orRespond server req (respondUpdate server req resourceType e committed reply)).reportsError := by
  obtain ⟨calls, same⟩ := respondUpdate_eq server req e resourceType committed reply
  cases result : negotiate server req (answerTypes e) resourceType with
  | ok chosen => exact absurd ⟨chosen, result⟩ never
  | error failure =>
      have failed : generateResponse server req (answerTypes e) resourceType calls = .error failure :=
        bind_eq_error.mpr (.inl result)
      rw [same, failed]
      exact reportsError_respond (negotiate_failure result)

end Answers

section Exactness

variable {server : Server} {req : HttpRequest} {e : UpdateEndpoint} {resourceType : MimeType}

private theorem negotiable_iff (x : Circumstances) :
    Negotiable (x.server server) (x.request req) e resourceType ↔
      Negotiable server req e resourceType := Iff.rfl

/-- The request is a POST or PUT for an update and has a bearer token. -/
structure AsksForUpdate (server : Server) (req : HttpRequest) (e : UpdateEndpoint)
    (resourceType : MimeType) : Prop where
  routed : ∃ ip method, receive server req = .ok (ip, some method, .updates e, resourceType) ∧
    method ∈ (Handler.updates e).allowedMethods ∧ (method = .post ∨ method = .put)
  token : ∃ token, bearerToken req = some token

def changesetFor : UpdateEndpoint → Int
  | .create => 0
  | .update c | .close c | .upload c => c

/-- Circumstances in which the update of a user with that token goes through. -/
def granting (server : Server) (token : String) (e : UpdateEndpoint) : Circumstances :=
  let store : Store :=
    ⟨openDb (changesetFor e) (interval server.cfg.changesetTimeoutOpenMax + 1),
      ⟨fun _ => ⟨true, "", .active⟩, [], [⟨token, some 1, 0, none, none, some "write_api"⟩], [], []⟩⟩
  { payload := .ok ⟨emptyPayload, .ok noTags⟩
    now := 0
    limits := ⟨fun _ _ => some 0, fun _ _ => some 0⟩
    limiter := fun _ _ => none
    updateFactory := some false
    fuel := 0
    times := ⟨0, 0⟩
    seen := store
    store := store }

private theorem openDb_find (c closedAt : Int) : (openDb c closedAt).changesets.find? c =
    some ⟨c, 1, 0, closedAt, none, 0, UploadStats.zero⟩ := by
  change List.find? _ [_] = _
  rw [List.find?_cons_of_pos]
  exact decide_eq_true rfl

private theorem ne_of_closedAt {c closedAt : Int} {r : ChangesetRow} {db : Db}
    (found : db.changesets.find? c = some r) (other : r.closedAt ≠ closedAt) :
    db ≠ openDb c closedAt := by
  rintro rfl
  rw [openDb_find] at found
  cases found
  exact other rfl

private theorem extended_ne (tx : Transaction) (c : Int) :
    extendedClosedAt (sessionOf tx 1) ⟨c, 1, 0, interval tx.cfg.changesetTimeoutOpenMax + 1, none, 0,
      UploadStats.zero⟩ ≠ interval tx.cfg.changesetTimeoutOpenMax + 1 := by
  have idle := tx.cfg.changesetTimeoutIdle_nonneg
  have late : interval tx.cfg.changesetTimeoutOpenMax + 1 - 0 >
      interval tx.cfg.changesetTimeoutOpenMax - interval tx.cfg.changesetTimeoutIdle := by
    unfold interval
    omega
  have extended : extendedClosedAt (sessionOf tx 1) ⟨c, 1, 0,
      interval tx.cfg.changesetTimeoutOpenMax + 1, none, 0, UploadStats.zero⟩ =
        0 + interval tx.cfg.changesetTimeoutOpenMax := if_pos late
  rw [extended]
  omega

private theorem run_granting (server : Server) (token : String) (e : UpdateEndpoint)
    (resourceType : MimeType) (roles : List UserRole) :
    ∃ reply db, (updateTransaction ((granting server token e).server server) 0 ⟨1, roles, true⟩
        (updateRequest resourceType ⟨emptyPayload, .ok noTags⟩ e)).responder.run
          (granting server token e).store.db = .ok (reply, db) ∧
      db ≠ (granting server token e).store.db := by
  have positive := server.cfg.changesetTimeoutOpenMax_nonneg
  have later : (0 : Int) ≤ interval server.cfg.changesetTimeoutOpenMax + 1 := by
    unfold interval
    omega
  cases e with
  | create =>
      obtain ⟨reply, db, run⟩ := create_commits (updateTransaction
        ((granting server token .create).server server) 0 ⟨1, roles, true⟩ (.create (.ok noTags))) rfl
        (interval server.cfg.changesetTimeoutOpenMax + 1)
      refine ⟨reply, db, run, ?_⟩
      obtain ⟨c, userId, -, absent, find, -⟩ := changesetCreateResponder_eq_ok run
      intro same
      have added := find c
      rw [if_pos rfl, same] at added
      change (openDb 0 _).changesets.find? c = _ at added
      rw [absent] at added
      cases added
  | update c =>
      obtain ⟨reply, db, run⟩ := update_commits (updateTransaction
        ((granting server token (.update c)).server server) 0 ⟨1, roles, true⟩ (.update c (.ok noTags)))
        rfl (openDb_find c _) later rfl
      refine ⟨reply, db, run, ?_⟩
      obtain ⟨r, touches, -⟩ := changesetUpdateResponder_eq_ok run
      have row := touches.find c
      have old := touches.found
      rw [openDb_find] at old
      cases old
      rw [if_pos rfl] at row
      exact ne_of_closedAt row (extended_ne _ c)
  | close c =>
      obtain ⟨reply, db, run⟩ := close_commits (updateTransaction
        ((granting server token (.close c)).server server) 0 ⟨1, roles, true⟩ (.close c))
        rfl (openDb_find c _) later rfl
      refine ⟨reply, db, run, ?_⟩
      obtain ⟨r, touches, -⟩ := changesetCloseResponder_eq_ok run
      have row := touches.find c
      rw [if_pos rfl] at row
      refine ne_of_closedAt row ?_
      change (0 : Int) ≠ interval server.cfg.changesetTimeoutOpenMax + 1
      unfold interval
      omega
  | upload c =>
      obtain ⟨reply, db, run⟩ := upload_commits (updateTransaction
        ((granting server token (.upload c)).server server) 0 ⟨1, roles, true⟩
        (.upload resourceType c emptyPayload)) rfl (openDb_find c _) later rfl rfl rfl resourceType
      refine ⟨reply, db, run, ?_⟩
      obtain ⟨r, st, db₁, -, touches, -⟩ := changesetUploadResponder_eq_ok run
      have row := touches.find c
      have old := touches.found
      rw [openDb_find] at old
      cases old
      rw [if_pos rfl] at row
      exact ne_of_closedAt row (extended_ne _ c)

private theorem allowApiWrite_write (token : String) :
    AccessToken.allowApiWrite ⟨token, some 1, 0, none, none, some "write_api"⟩ = true := by
  change (split "write_api".toList ' ').contains "write_api".toList = true
  decide

private theorem commits_granting {ip : String} {method : Method} {token : String}
    (received : receive server req = .ok (ip, some method, .updates e, resourceType))
    (allowed : method ∈ (Handler.updates e).allowedMethods) (writes : method = .post ∨ method = .put)
    (carried : bearerToken req = some token) :
    ∃ u sel body reply db,
      Commits ((granting server token e).server server) ((granting server token e).request req)
        (granting server token e).times (granting server token e).seen (granting server token e).store
        ip method e resourceType u sel body reply db ∧ db ≠ (granting server token e).store.db := by
  obtain ⟨reply, db, run, changed⟩ := run_granting server token e resourceType []
  have carried : bearerToken ((granting server token e).request req) = some token := carried
  have row : tokenRow ((granting server token e).server server) (granting server token e).seen token =
      some ⟨token, some 1, 0, none, none, some "write_api"⟩ := by
    change List.find? _ [_] = _
    rw [List.find?_cons_of_pos]
    simp
  have determined : determineUserId ((granting server token e).server server)
      ((granting server token e).request req) 0 (granting server token e).seen = .ok (some 1, true) := by
    unfold determineUserId
    rw [carried]
    dsimp only
    rw [row]
    change Except.ok (some 1, AccessToken.allowApiWrite _) = _
    rw [allowApiWrite_write]
  have known : requestUser ((granting server token e).server server)
      ((granting server token e).request req) 0 (granting server token e).seen =
        .ok (some ⟨1, [], true⟩) :=
    bind_eq_ok.mpr ⟨_, determined, rfl⟩
  have passes : checkLimiter ((granting server token e).server server) method ip
      (some ⟨1, [], true⟩) = .ok () := by
    rcases writes with rfl | rfl <;> rfl
  refine ⟨⟨1, [], true⟩, Selection.empty, ⟨emptyPayload, .ok noTags⟩, reply, db,
    ⟨received, allowed, writes, ?_, rfl, rfl, rfl, run⟩, changed⟩
  exact bind_eq_ok.mpr ⟨_, known, bind_eq_ok.mpr ⟨(), passes, bind_eq_ok.mpr ⟨_, rfl, rfl⟩⟩⟩

/-- For the headers of a request, an error response leaves the tables as they were,
whatever the payload and the database, exactly when the request does not ask for an
update or its answer can be negotiated. -/
theorem errorKeepsTables_iff (server : Server) (req : HttpRequest) :
    (∀ x, ErrorKeepsTables server req x) ↔
      ∀ e resourceType, AsksForUpdate server req e resourceType →
        Negotiable server req e resourceType := by
  constructor
  · intro keeps e resourceType asks
    by_contra never
    obtain ⟨ip, method, received, allowed, writes⟩ := asks.routed
    obtain ⟨token, carried⟩ := asks.token
    obtain ⟨u, sel, body, reply, db, commits, changed⟩ :=
      commits_granting received allowed writes carried
    have result := processRequest_of_commits commits
    have failed := reportsError_of_not_negotiable ((negotiable_iff (granting server token e)).not.mpr
      never) ⟨db, (granting server token e).store.accounts⟩ reply
    have kept := keeps (granting server token e)
    unfold ErrorKeepsTables at kept
    rw [result] at kept
    exact changed (kept failed)
  · intro negotiable x failed
    rcases commits_or_unchanged (x.server server) (x.request req) x.times x.seen x.store with
      ⟨ip, method, e, resourceType, u, sel, body, reply, commits⟩ | same
    · -- the response to a commit is a document
      have asks : AsksForUpdate server req e resourceType := by
        refine ⟨⟨ip, method, commits.received, commits.allowed, commits.writes⟩, ?_⟩
        exact bearerToken_of_requestUser (user_of_admitted commits.admitted)
      have result := processRequest_of_commits commits
      rw [result] at failed
      exact absurd failed (not_reportsError_of_negotiable
        ((negotiable_iff x).mpr (negotiable e resourceType asks)) _ reply)
    · exact same

/-- A changeset is closed for a client that only takes JSON, and the client is told that
this is not acceptable. -/
theorem not_errorKeepsTables_close :
    ¬ ((processRequest sampleServer (sampleClose [("HTTP_ACCEPT", "application/json")]) ⟨1, 2⟩
        sampleStore sampleStore).1.reportsError →
      (processRequest sampleServer (sampleClose [("HTTP_ACCEPT", "application/json")]) ⟨1, 2⟩
        sampleStore sampleStore).2 = sampleStore.db) := by
  have status : (processRequest sampleServer (sampleClose [("HTTP_ACCEPT", "application/json")])
      ⟨1, 2⟩ sampleStore sampleStore).1.status = 406 := by decide +kernel
  have closed : ((processRequest sampleServer (sampleClose [("HTTP_ACCEPT", "application/json")])
      ⟨1, 2⟩ sampleStore sampleStore).2.changesets.find? 7).map ChangesetRow.closedAt = some 2 := by
    decide +kernel
  have opened : (sampleStore.db.changesets.find? 7).map ChangesetRow.closedAt = some 3600 := by
    decide +kernel
  intro keeps
  rw [keeps (.inl (by omega)), opened] at closed
  exact absurd closed (by decide)

end Exactness

end Cgimap.Http.Atomicity
