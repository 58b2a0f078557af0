/- path: Cgimap/Http/ProcessRequest
   generality: I
   source: src/process_request.cpp, src/oauth2.cpp, src/request.cpp,
     src/backend/apidb/readonly_pgsql_selection.cpp, src/osm_diffresult_responder.cpp,
     src/text_responder.cpp, src/api06/changeset_{create,update,close,upload}_handler.cpp
   digest: One request from its environment to its response and the database it leaves. -/

import Cgimap.Http.Routing

/-!
A request reads in one transaction and writes in another. What the first sees is
`seen`, what the second starts from is `store`; other requests may have committed in
between. A transaction that does not commit leaves the tables as they were.
-/

set_option autoImplicit false
set_option relaxedAutoImplicit false

namespace Cgimap.Http.ProcessRequest

open Cgimap.Library.StatementProgram
open Cgimap.Model.Types
open Cgimap.Model.Database
open Cgimap.Model.Users
open Cgimap.Changeset.Responders
open Cgimap.Read.DataSelection
open Cgimap.Read.Endpoints
open Cgimap.Http.Requests
open Cgimap.Http.Negotiation
open Cgimap.Http.Routing

/-- The settings, the libraries and the services that a process works with. The
limiter answers with the seconds to wait when a client has to wait; an update factory
says whether writing is disabled. -/
structure Server where
  cfg : Settings
  mapLimits : MapLimits
  build : Build
  numbers : Numbers
  sha256 : String → String
  limits : Limits
  limiter : String → Bool → Option Int
  updateFactory : Option Bool
  fuel : Nat

structure Times where
  read : Int
  write : Int

section Responses

inductive ResponseBody where
  | empty
  | text (message : String)
  | osmError (status : Nat) (message : String)
  | document (mimeType : MimeType) (encoding : Encoding) (calls : List Call)

structure Response where
  status : Nat
  headers : List (String × String)
  body : ResponseBody

/-- An error status, or an error in the body of a response with status 200. -/
def Response.reportsError (r : Response) : Prop :=
  400 ≤ r.status ∨ ∃ status message, r.body = .osmError status message

def statusMessage : Nat → String
  | 200 => "OK"
  | 400 => "Bad Request"
  | 401 => "Unauthorized"
  | 403 => "Forbidden"
  | 404 => "Not Found"
  | 405 => "Method Not Allowed"
  | 406 => "Not Acceptable"
  | 409 => "Conflict"
  | 410 => "Gone"
  | 412 => "Precondition Failed"
  | 413 => "Payload Too Large"
  | 415 => "Unsupported Media Type"
  | 429 => "Too Many Requests"
  | 509 => "Bandwidth Limit Exceeded"
  | _ => "Internal Server Error"

variable (server : Server) (req : HttpRequest)

/-- `respond_error`, with the headers that only one class of errors adds. -/
def respondError (code : Nat) (message : String) (more : List (String × String)) : Response :=
  if (req.param "HTTP_X_ERROR_FORMAT").any (fun f => iequals f.toList "xml".toList) then
    ⟨200, [("Content-Type", "application/xml; charset=utf-8")], .osmError code message⟩
  else
    ⟨code, [("Content-Type", "text/plain"), ("Content-Length", toString message.length),
      ("Error", String.ofList ((message.toList.take 250).map (fun c => if c = '\n' then ' ' else c))),
      ("Cache-Control", "no-cache")] ++ more, .text message⟩

def processNotAllowed (allowed : List Method) : Response :=
  ⟨405, [("Allow", listMethods allowed), ("Content-Type", "text/html"), ("Content-Length", "0"),
    ("Cache-Control", "no-cache")], .empty⟩

/-- The `what` of an exception; one class extends its message. -/
def whatOf (code : Nat) (message : String) : String :=
  if code = 412 then "Precondition failed: " ++ message else message

/-- The handlers of the exceptions in `process_request`. -/
def respond : HttpError → Response
  | .methodNotAllowed allowed => processNotAllowed allowed
  | .bandwidthLimitExceeded retry =>
      respondError req 509
        s!"You have downloaded too much data. Please try again in {retry} seconds."
        [("Retry-After", toString retry)]
  | .thrown (.http code message) =>
      if code = 404 then
        ⟨404, [("Content-Type", "text/html; charset=utf-8"), ("Content-Length", "0"),
          ("Cache-Control", "no-cache")], .text ""⟩
      else if code = 401 then
        ⟨401, [("Content-Type", "text/plain; charset=utf-8"),
          ("WWW-Authenticate", "Basic realm=\"Web Password\", charset=\"UTF-8\""),
          ("Content-Length", toString message.length), ("Cache-Control", "no-cache")], .text message⟩
      else if code = 415 then
        ⟨415, [("Content-Type", "text/plain; charset=utf-8"),
          ("Accept-Encoding", if server.build.haveLibz then "gzip, deflate" else "identity"),
          ("Content-Length", toString message.length), ("Cache-Control", "no-cache")], .text message⟩
      else respondError req code (whatOf code message) []
  | .thrown (.std what) => respondError req 500 what []
  | .thrown .outOfFuel => respondError req 500 "" []

/-- `get_encoding` and `choose_best_mime_type`, the two choices before a response. -/
def negotiate (available : List MimeType) (resourceType : MimeType) :
    Except HttpError (Encoding × MimeType × String) := do
  let encoding ← (getEncoding server.build server.numbers req).mapError .thrown
  let mimeType ← chooseBestMimeType server.numbers req available resourceType
  let name ← (mimeToString mimeType).mapError .thrown
  .ok (encoding, mimeType, name)

def generateResponse (available : List MimeType) (resourceType : MimeType) (calls : List Call) :
    Except HttpError Response := do
  let (encoding, mimeType, name) ← negotiate server req available resourceType
  .ok ⟨200, [("Content-Type", name ++ "; charset=utf-8"), ("Content-Encoding", encoding.name),
    ("Cache-Control", "private, max-age=0, must-revalidate")], .document mimeType encoding calls⟩

def defaultHeaders (methods : List Method) : List (String × String) :=
  match req.param "HTTP_ORIGIN" with
  | some origin => [("Access-Control-Allow-Credentials", "true"),
      ("Access-Control-Allow-Methods", listMethods methods), ("Access-Control-Allow-Origin", origin),
      ("Access-Control-Max-Age", "1728000")]
  | none => []

def successHeaders : Handler → List (String × String)
  | .reads (.map _) => [("Content-Disposition", "attachment; filename=\"map.osm\"")]
  | _ => []

/-- The headers that the workflow of the request puts around those of the response. -/
def finish (methods : List Method) (success : List (String × String)) (r : Response) : Response :=
  { r with headers := defaultHeaders req methods ++ r.headers ++
      (if r.status = 200 then success else []) }

end Responses

section Users

variable (server : Server) (req : HttpRequest) (now : Int) (seen : Store)

def isValidBearerTokenChar (c : Char) : Bool :=
  ('a' ≤ c && c ≤ 'z') || ('A' ≤ c && c ≤ 'Z') || ('0' ≤ c && c ≤ '9') || "-._~+/=".toList.contains c

/-- The bearer token of a request: a header of the right form with the right
characters. -/
def bearerToken : Option String :=
  (req.param "HTTP_AUTHORIZATION").bind (fun header =>
    if "Bearer ".toList.isPrefixOf header.toList then
      let token := header.toList.drop 7
      if token = [] ∨ token.all isValidBearerTokenChar = false then none else some (String.ofList token)
    else none)

def tokenRow (token : String) : Option AccessToken :=
  seen.accounts.tokens.find? (fun t => t.token = token || t.token = server.sha256 token)

def AccessToken.expired (t : AccessToken) : Bool :=
  match t.expiresIn with
  | none => false
  | some seconds => t.createdAt + seconds * 1000000 < now

def AccessToken.revoked (t : AccessToken) : Bool := t.revokedAt.any (fun time => time < now)

def AccessToken.allowApiWrite (t : AccessToken) : Bool :=
  (split (t.scopes.getD "").toList ' ').contains "write_api".toList

/-- `determine_user_id` with `validate_bearer_token`: the user, if any, and the flag. -/
def determineUserId : Except HttpError (Option Nat × Bool) :=
  match bearerToken req with
  | none => .ok (none, true)
  | some token =>
      match tokenRow server seen token with
      | none => .error (.thrown (.unauthorized "invalid_token"))
      | some t =>
          match t.resourceOwnerId with
          | none => .error (.thrown (.std "Attempt to convert SQL null to osm_user_id_t."))
          | some id =>
              if AccessToken.expired now t then .error (.thrown (.unauthorized "token_expired"))
              else if AccessToken.revoked now t then
                .error (.thrown (.unauthorized "token_revoked"))
              else .ok (some id, AccessToken.allowApiWrite t)

structure UserInfo where
  id : Nat
  userRoles : List UserRole
  allowApiWrite : Bool
  deriving DecidableEq, Repr

def getRolesForUser (id : Nat) : List UserRole :=
  (seen.accounts.roles.filter (fun r => r.1 = id)).map Prod.snd

def isModerator (user : Option UserInfo) : Bool :=
  user.any (fun u => u.userRoles.contains .moderator)

def requestUser : Except HttpError (Option UserInfo) := do
  let (id, allowApiWrite) ← determineUserId server req now seen
  .ok (id.map (fun id => ⟨id, getRolesForUser seen id, allowApiWrite⟩))

def clientKey (ip : String) (user : Option UserInfo) : String :=
  match user with
  | some u => s!"user:{u.id}"
  | none => "addr:" ++ ip

def checkLimiter (method : Method) (ip : String) (user : Option UserInfo) : Except HttpError Unit :=
  if method = .options then .ok ()
  else
    match server.limiter (clientKey ip user) (isModerator user) with
    | some retry => .error (.bandwidthLimitExceeded retry)
    | none => .ok ()

def showRedactionsRequested : Except HttpError Bool := do
  let params ← queryParams req
  .ok (params.any (fun p => decide (p.1 = "show_redactions".toList ∧ p.2 = "true".toList)))

def freshSelection (user : Option UserInfo) : Except HttpError Selection :=
  if isModerator user then do
    let redactionsVisible ← showRedactionsRequested req
    .ok { Selection.empty with redactionsVisible := redactionsVisible }
  else .ok Selection.empty

def isUserBlocked (id : Nat) : Bool :=
  seen.accounts.blocks.any (fun b => decide (b.userId = id) && (b.needsView || decide (now < b.endsAt)))

def isUserActive (id : Nat) : Bool :=
  (seen.db.users.find? id).isSome &&
    ((seen.accounts.details id).status = .active || (seen.accounts.details id).status = .confirmed)

def validateUserDbUpdatePermission (user : Option UserInfo) : Except HttpError UserInfo :=
  match user with
  | none => .error (.thrown (.unauthorized "User is not authorized"))
  | some u =>
      if isUserBlocked now seen u.id then .error (.thrown (.forbidden
        "Your access to the API has been blocked. Please log-in to the web interface to find out more."))
      else if isUserActive seen u.id = false then .error (.thrown (.forbidden
        "You have not permitted the application access to this facility"))
      else if u.allowApiWrite = false then
        .error (.thrown (.unauthorized "You have not granted the modify map permission"))
      else .ok u

end Users

section Reading

variable (server : Server) (req : HttpRequest) (seen : Store) (sel : Selection)
  (resourceType : MimeType)

def typesOf : Endpoint → List MimeType
  | .changesetDownload _ => [.applicationXml]
  | _ => [.applicationXml, .applicationJson]

/-- The responder of a handler for a selection: its types and the calls of its `write`.
Of the updates only the tag update has one, which selects its changeset and writes the
map data. -/
def selectionResponder : Handler → Except HttpError (List MimeType × List Call)
  | .reads e => do
      let sel ← (e.responder server.cfg server.mapLimits seen.db sel).mapError .thrown
      .ok (typesOf e, e.write seen sel req.now)
  | .updates (.update c) =>
      .ok ([.applicationXml, .applicationJson],
        writeCurrent seen (selectChangesets seen.db sel [c]).2 none)
  | .updates .create =>
      .error (.thrown (.serverError "changeset_create_handler: data_selection unsupported"))
  | .updates (.close _) =>
      .error (.thrown (.serverError "changeset_close_handler: data_selection unsupported"))
  | .updates (.upload _) =>
      .error (.thrown (.serverError "changeset_upload_handler: data_selection unsupported"))

def processGetRequest (handler : Handler) : Except HttpError Response := do
  let (types, calls) ← selectionResponder server req seen sel handler
  generateResponse server req types resourceType calls

def processHeadRequest (handler : Handler) : Except HttpError Response := do
  let (types, _) ← selectionResponder server req seen sel handler
  let (encoding, _, name) ← negotiate server req types resourceType
  .ok ⟨200, [("Content-Type", name ++ "; charset=utf-8"), ("Content-Encoding", encoding.name),
    ("Cache-Control", "no-cache")], .empty⟩

def processOptionsRequest (handler : Handler) : Response :=
  if (req.param "HTTP_ORIGIN").isSome ∧ (req.param "HTTP_ACCESS_CONTROL_REQUEST_METHOD").isSome then
    ⟨200, [("Content-Type", "text/plain")] ++
      ((req.param "HTTP_ACCESS_CONTROL_REQUEST_HEADERS").map (fun headers =>
        ("Access-Control-Allow-Headers", headers))).toList, .empty⟩
  else processNotAllowed handler.allowedMethods

end Reading

section Updating

variable (server : Server) (req : HttpRequest) (store : Store)

def updateRequest (resourceType : MimeType) (body : Body) : UpdateEndpoint → Request
  | .create => .create body.tags
  | .update c => .update c body.tags
  | .close c => .close c
  | .upload c => .upload resourceType c body.osmChange

def requiresSelectionAfterUpdate : UpdateEndpoint → Bool
  | .update _ => true
  | .create | .close _ | .upload _ => false

def updateTypes : UpdateEndpoint → List MimeType
  | .upload _ => [.applicationXml, .applicationJson]
  | .create | .update _ | .close _ => [.textPlain]

def writeReply : Reply → List Call
  | .text output => [.errorText output]
  | .diffResult rows => [.startDocument "diffResult"] ++ rows.map Call.writeDiffResult ++ [.endDocument]

def updateTransaction (now : Int) (user : UserInfo) (request : Request) : Transaction :=
  ⟨server.cfg, now, some user.id, server.limits, server.fuel, request⟩

/-- The response to a committed update; some read the committed store first. -/
def respondUpdate (resourceType : MimeType) (e : UpdateEndpoint) (committed : Store)
    (reply : Reply) : Except HttpError Response :=
  if requiresSelectionAfterUpdate e then
    processGetRequest server req committed Selection.empty resourceType (.updates e)
  else generateResponse server req (updateTypes e) resourceType (writeReply reply)

/-- `process_post_put_request`. The response is generated after the commit. -/
def processPostPutRequest (now : Int) (user : UserInfo) (resourceType : MimeType)
    (e : UpdateEndpoint) (writeDisabled : Bool) : Except HttpError Response × Db :=
  match req.payload with
  | .error failure => (.error (.thrown failure), store.db)
  | .ok body =>
      if writeDisabled then
        (.error (.thrown (.badRequest
          "Server is currently in read only mode, no database changes allowed at this time")), store.db)
      else
        match (updateTransaction server now user (updateRequest resourceType body e)).responder.run
            store.db with
        | .error failure => (.error (.thrown failure), store.db)
        | .ok (reply, db) =>
            (respondUpdate server req resourceType e ⟨db, store.accounts⟩ reply, db)

end Updating

section Process

variable (server : Server) (req : HttpRequest) (times : Times) (seen store : Store)

/-- The part of `process_request` before a transaction begins. -/
def receive : Except HttpError (String × Option Method × Handler × MimeType) := do
  let ip ← fcgiGetEnv req "REMOTE_ADDR"
  let method ← fcgiGetEnv req "REQUEST_METHOD"
  let (handler, resourceType) ← route server.numbers server.mapLimits req
  .ok (ip, parseMethod method, handler, resourceType)

def admitRequest (method : Method) (ip : String) : Except HttpError (Option UserInfo × Selection) := do
  let user ← requestUser server req times.read seen
  checkLimiter server method ip user
  let sel ← freshSelection req user
  .ok (user, sel)

def update (user : Option UserInfo) (handler : Handler) (resourceType : MimeType) :
    Except HttpError Response × Db :=
  match validateUserDbUpdatePermission times.read seen user with
  | .error failure => (.error failure, store.db)
  | .ok u =>
      match server.updateFactory with
      | none => (.error (.thrown (.badRequest "Backend does not support given HTTP method")), store.db)
      | some writeDisabled =>
          match handler with
          | .reads _ =>
              (.error (.thrown (.serverError "HTTP method is not payload enabled")), store.db)
          | .updates e => processPostPutRequest server req store times.write u resourceType e writeDisabled

def dispatch (method : Method) (ip : String) (handler : Handler) (resourceType : MimeType) :
    Except HttpError Response × Db :=
  match admitRequest server req times seen method ip with
  | .error failure => (.error failure, store.db)
  | .ok (user, sel) =>
      match method with
      | .get => (processGetRequest server req seen sel resourceType handler, store.db)
      | .head => (processHeadRequest server req seen sel resourceType handler, store.db)
      | .post | .put => update server req times seen store user handler resourceType
      | .options => (.ok (processOptionsRequest req handler), store.db)

def orRespond (result : Except HttpError Response) : Response :=
  match result with
  | .ok r => r
  | .error failure => respond server req failure

def processRequest : Response × Db :=
  match receive server req with
  | .error failure => (finish req [.get, .head, .options] [] (respond server req failure), store.db)
  | .ok (ip, some method, handler, resourceType) =>
      if method ∈ handler.allowedMethods then
        let (result, db) := dispatch server req times seen store method ip handler resourceType
        (finish req handler.allowedMethods (successHeaders handler) (orRespond server req result), db)
      else (finish req [.get, .head, .options] (successHeaders handler)
        (processNotAllowed handler.allowedMethods), store.db)
  | .ok (_, none, handler, _) =>
      (finish req [.get, .head, .options] (successHeaders handler)
        (processNotAllowed handler.allowedMethods), store.db)

end Process

section Samples

def sampleServer : Server where
  cfg := Settings.default
  mapLimits := ⟨50000, 1 / 4⟩
  build := ⟨false, true⟩
  numbers := ⟨fun _ => none, fun _ => none, fun _ => none⟩
  sha256 := fun _ => ""
  limits := ⟨fun _ _ => none, fun _ _ => none⟩
  limiter := fun _ _ => none
  updateFactory := some false
  fuel := 10

def sampleRequest (params : List (String × String)) : HttpRequest where
  param name := ([("REMOTE_ADDR", "127.0.0.1"), ("HTTP_AUTHORIZATION", "Bearer secret")] ++
    params).lookup name
  now := 0
  payload := .ok ⟨⟨[], [], none⟩, .ok ⟨[], List.nodup_nil⟩⟩

def sampleClose (more : List (String × String)) : HttpRequest :=
  sampleRequest ([("REQUEST_METHOD", "PUT"), ("REQUEST_URI", "/api/0.6/changeset/7/close")] ++ more)

theorem keys_sampleUser : ([⟨1, 0⟩].map UserRow.id).Nodup := List.nodup_singleton _

theorem keys_sampleChangeset :
    ([⟨7, 1, 0, 3600, none, 0, UploadStats.zero⟩].map ChangesetRow.id).Nodup := List.nodup_singleton _

def sampleStore : Store where
  db := { Db.empty with
    users := ⟨[⟨1, 0⟩], keys_sampleUser⟩
    changesets := ⟨[⟨7, 1, 0, 3600, none, 0, UploadStats.zero⟩], keys_sampleChangeset⟩ }
  accounts := ⟨fun _ => ⟨true, "mapper", .active⟩, [],
    [⟨"secret", some 1, 0, none, none, some "read_prefs write_api"⟩], [], []⟩

end Samples

end Cgimap.Http.ProcessRequest
