/- path: Cgimap/Changeset/Responders
   generality: I
   source: src/api06/changeset_{create,update,close,upload}_handler.cpp,
     src/backend/apidb/pgsql_update.cpp, include/cgimap/mime_types.hpp
   digest: The four requests that write, each one transaction. -/

import Cgimap.Changeset.Updater
import Cgimap.Osmchange.Handler

set_option autoImplicit false
set_option relaxedAutoImplicit false

namespace Cgimap.Changeset.Responders

open Cgimap.Library.StatementProgram
open Cgimap.Library.StatementProgram.Prog
open Cgimap.Model.Types
open Cgimap.Model.Database
open Cgimap.Osmchange.DiffTracking
open Cgimap.Osmchange.UploadRecords
open Cgimap.Osmchange.Handler
open Cgimap.Changeset.Updater

inductive MimeType where
  | unspecifiedType
  | textPlain
  | applicationXml
  | applicationJson
  | anyType
  deriving DecidableEq, Repr

structure Tags where
  pairs : List (String × String)
  nodup : (pairs.map Prod.fst).Nodup

/-- A payload and what the parser makes of it: the elements it hands to the handler, in
order, and the exception that ends it early. -/
structure Payload where
  text : List UInt8
  elements : List Element
  failure : Option Exception

/-- The functions `api_rate_limit` and `api_size_limit` of the database, which also
read tables that are not modelled. An answer without a row is `none`. -/
structure Limits where
  apiRateLimit : Db → Nat → Option Int
  apiSizeLimit : Db → Nat → Option Int

inductive Request where
  | create (tags : Except Exception Tags)
  | update (changeset : Int) (tags : Except Exception Tags)
  | close (changeset : Int)
  | upload (mt : MimeType) (changeset : Int) (payload : Payload)

/-- One request in its transaction. `now` is the time of its `BEGIN`. -/
structure Transaction where
  cfg : Settings
  now : Int
  user : Option Nat
  limits : Limits
  fuel : Nat
  request : Request

inductive Reply where
  | text (output : String)
  | diffResult (rows : List DiffResult)
  deriving DecidableEq, Repr

section Upload

variable (env : Env)

/-- `OSMChangeXMLParser::process_message` with the handler as its callback. -/
def processMessage (payload : Payload) : DbProg Upload := do
  let st ← payload.elements.foldlM (processElement env) (Upload.empty env)
  match payload.failure with
  | some e => throw e
  | none => handleNewState env .finished st

theorem processMessage_eq (payload : Payload) (parsed : payload.failure = none) :
    processMessage env payload = processDocument env payload.elements := by
  unfold processMessage processDocument
  rw [parsed]

variable (limits : Limits) (userId : Nat)

def getRateLimit : DbProg Nat := do
  match ← perform (.query fun db => limits.apiRateLimit db userId) with
  | none => throw (.serverError "api_rate_limit db function did not return any data")
  | some limit => return limit.toNat

def getBboxSizeLimit : DbProg Nat := do
  match ← perform (.query fun db => limits.apiSizeLimit db userId) with
  | none => throw (.serverError "api_size_limit db function did not return any data")
  | some limit => return limit.toNat

def checkRateLimit (newChanges : Nat) : DbProg Unit := do
  if env.cfg.ratelimiterUpload then
    let maxChanges ← getRateLimit limits userId
    if maxChanges < newChanges then
      throw (.tooManyRequests
        "Upload has been blocked due to rate limiting. Please try again later.")
    else return ()
  else return ()

/-- The signed size of the box is compared with an unsigned limit. -/
def checkBboxSize (csBbox : Bbox) : DbProg Unit := do
  if env.cfg.bboxSizeLimiterUpload ∧ csBbox ≠ Bbox.undefined env.cfg then
    let maxBboxSize ← getBboxSizeLimit limits userId
    if maxBboxSize < toUnsigned csBbox.linearSize then
      throw (.payloadTooLarge "Changeset bounding box size limit exceeded.")
    else return ()
  else return ()

end Upload

section Responders

variable (tx : Transaction)

def Transaction.env (changeset : Int) : Env := ⟨tx.cfg, tx.now, changeset, tx.fuel⟩

/-- The elements that an upload executes; a JSON payload is not parsed. -/
def parsedElements (mt : MimeType) (payload : Payload) : List Element :=
  if mt ≠ .applicationJson then payload.elements else []

def processPayload (env : Env) (mt : MimeType) (payload : Payload) : DbProg Upload :=
  if mt ≠ .applicationJson then processMessage env payload else return Upload.empty env

def changesetUploadResponder (mt : MimeType) (changeset : Int) (payload : Payload) :
    DbProg Reply := do
  match tx.user with
  | none => throw (.serverError "Cannot upload to changeset - no user id")
  | some userId =>
      let env := tx.env changeset
      let (s, u) ← liftExcept (newUpdater tx.cfg tx.now tx.user changeset)
      let u ← lockCurrentChangeset s true u
      let st ← processPayload env mt payload
      let rows ← liftExcept (assembleDiffresult st.ct)
      checkRateLimit env tx.limits userId (getStats st).total
      let u ← updateChangeset s (getStats st) (getBbox env st) u
      checkBboxSize env tx.limits userId u.csBbox
      return .diffResult rows

def changesetUpdateResponder (changeset : Int) (tags : Except Exception Tags) :
    DbProg Reply := do
  let (s, u) ← liftExcept (newUpdater tx.cfg tx.now tx.user changeset)
  let tags ← liftExcept tags
  let _ ← apiUpdateChangeset s tags.pairs u
  return .text ""

def changesetCloseResponder (changeset : Int) : DbProg Reply := do
  let (s, u) ← liftExcept (newUpdater tx.cfg tx.now tx.user changeset)
  apiCloseChangeset s u
  return .text ""

def changesetCreateResponder (tags : Except Exception Tags) : DbProg Reply := do
  let (s, u) ← liftExcept (newUpdater tx.cfg tx.now tx.user 0)
  let tags ← liftExcept tags
  let id ← apiCreateChangeset s tags.pairs u
  return .text (toString id)

/-- The constructor of the responder, up to `upd.commit()`. -/
def Transaction.responder : DbProg Reply :=
  match tx.request with
  | .create tags => changesetCreateResponder tx tags
  | .update changeset tags => changesetUpdateResponder tx changeset tags
  | .close changeset => changesetCloseResponder tx changeset
  | .upload mt changeset payload => changesetUploadResponder tx mt changeset payload

end Responders

section Serial

def Request.target : Request → Option Int
  | .create _ => none
  | .update c _ => some c
  | .close c => some c
  | .upload _ c _ => some c

/-- A committed transaction, with the states around it. -/
structure Commit where
  tx : Transaction
  reply : Reply
  before : Db
  after : Db

/-- Transactions one after the other, with the list of the committed ones. A
transaction that fails is rolled back, but the sequence values it has drawn are
gone. -/
inductive Serial (db : Db) : List Commit → Db → Prop where
  | start : Serial db [] db
  | committed {db₁ db₂ : Db} {done : List Commit} {tx : Transaction} {reply : Reply}
      (sofar : Serial db done db₁) (run : tx.responder.run db₁ = .ok (reply, db₂)) :
      Serial db (done ++ [⟨tx, reply, db₁, db₂⟩]) db₂
  | rolledBack {db₁ : Db} {done : List Commit} {tx : Transaction} {e : Exception} (next : Db)
      (sofar : Serial db done db₁) (run : tx.responder.run db₁ = .error e)
      (objects : ∀ t, db₁.objectSeq t ≤ next.objectSeq t)
      (changesets : db₁.changesetSeq ≤ next.changesetSeq) : Serial db done (db₁.sync next)

variable {db db' : Db}

/-- A run keeps what every committed transaction and every change of the sequences
keeps. -/
theorem Serial.invariant {I : List Commit → Db → Prop} {commits : List Commit}
    (run : Serial db commits db') (start : I [] db)
    (step : ∀ done cm rest, done ++ cm :: rest = commits →
      cm.tx.responder.run cm.before = .ok (cm.reply, cm.after) → I done cm.before →
      I (done ++ [cm]) cm.after)
    (drop : ∀ done db₁ next, I done db₁ → I done (db₁.sync next)) : I commits db' := by
  induction run with
  | start => exact start
  | committed sofar run ih =>
      rename_i db₁ db₂ done tx reply
      have before := ih fun done' cm rest split => step done' cm (rest ++ [_]) (by
        rw [← split, List.append_assoc, List.cons_append])
      exact step done ⟨tx, reply, db₁, db₂⟩ [] rfl run before
  | rolledBack next sofar run objects changesets ih =>
      exact drop _ _ next (ih step)

theorem Serial.run_of_mem {commits : List Commit} (run : Serial db commits db') :
    ∀ cm ∈ commits, cm.tx.responder.run cm.before = .ok (cm.reply, cm.after) := by
  refine Serial.invariant (I := fun done _ => ∀ cm ∈ done,
    cm.tx.responder.run cm.before = .ok (cm.reply, cm.after)) run
    (fun _ member => (List.not_mem_nil member).elim) ?_ ?_
  · intro done cm rest split here before
    rw [List.forall_mem_append, List.forall_mem_singleton]
    exact ⟨before, here⟩
  · exact fun _ _ _ before => before

theorem Serial.append {mid : Db} {commits commits' : List Commit} (first : Serial db commits mid)
    (next : Serial mid commits' db') : Serial db (commits ++ commits') db' := by
  induction next with
  | start =>
      rw [List.append_nil]
      exact first
  | committed sofar run ih =>
      rw [← List.append_assoc]
      exact .committed ih run
  | rolledBack next sofar run objects changesets ih =>
      exact .rolledBack next ih run objects changesets

def serially : List Transaction → Db → List Commit × Db
  | [], db => ([], db)
  | tx :: txs, db =>
      match tx.responder.run db with
      | .error _ => serially txs db
      | .ok (reply, db') =>
          (⟨tx, reply, db, db'⟩ :: (serially txs db').1, (serially txs db').2)

theorem serial_serially (txs : List Transaction) (db : Db) :
    Serial db (serially txs db).1 (serially txs db).2 := by
  induction txs generalizing db with
  | nil => exact .start
  | cons tx txs ih =>
      unfold serially
      split
      · rename_i e run
        have skip : Serial db [] (db.sync db) :=
          .rolledBack db .start run (fun _ => Nat.le_refl _) (Int.le_refl _)
        exact skip.append (ih db)
      · rename_i reply db' run
        have first : Serial db [⟨tx, reply, db, db'⟩] db' := .committed .start run
        exact first.append (ih db')

theorem tx_of_serially {txs : List Transaction} {db : Db} {cm : Commit}
    (member : cm ∈ (serially txs db).1) : cm.tx ∈ txs := by
  induction txs generalizing db with
  | nil => cases member
  | cons tx txs ih =>
      unfold serially at member
      split at member
      · exact List.mem_cons_of_mem tx (ih member)
      · rcases List.mem_cons.mp member with rfl | later
        · exact List.mem_cons_self
        · exact List.mem_cons_of_mem tx (ih later)

end Serial

section Samples

def sampleUsers : Db := { Db.empty with users := ⟨[⟨1, 0⟩], by decide⟩, changesetSeq := 7 }

def sampleTx (seconds : Int) (request : Request) : Transaction :=
  ⟨Settings.default, interval seconds, some 1, ⟨fun _ _ => none, fun _ _ => none⟩, 10, request⟩

end Samples

end Cgimap.Changeset.Responders
