/- path: Cgimap/Http/VersionEndpoints
   generality: I
   source: src/router.cpp, src/routes.cpp, src/api06/{node,way,relation}_version_handler.cpp
   digest: Which version of an object a path with a version number is answered with. -/

import Cgimap.Http.Atomicity
import Cgimap.Http.RouteMatching
import Cgimap.Read.MultiFetch

set_option autoImplicit false
set_option relaxedAutoImplicit false

namespace Cgimap.Http.VersionEndpoints

open Cgimap.Library.ExceptLists
open Cgimap.Library.KeyedTable
open Cgimap.Model.Types
open Cgimap.Model.Database
open Cgimap.Model.Users
open Cgimap.Changeset.Responders
open Cgimap.Read.DataSelection
open Cgimap.Read.Endpoints
open Cgimap.Read.Extraction
open Cgimap.Read.MultiFetch
open Cgimap.Http.Requests
open Cgimap.Http.Negotiation
open Cgimap.Http.Routing
open Cgimap.Http.ProcessRequest
open Cgimap.Http.RouteMatching
open Cgimap.Http.Atomicity

section Statement

/-- A decimal number in a path, which may begin with zeros. -/
structure Numeral (s : Text) : Prop where
  nonempty : s ≠ []
  digits : ∀ c ∈ s, c.isDigit = true

/-- A GET request for a version of an object, with the two numbers as the path has them and
the type that its suffix asks for. -/
structure AsksForVersion (req : HttpRequest) (t : ObjectType) (idText versionText : Text)
    (mimeType : MimeType) : Prop where
  method : req.param "REQUEST_METHOD" = some "GET"
  path : ∃ path resource, getRequestPath req = .ok path ∧ "/api/0.6/".toList.isPrefixOf path = true ∧
    resourceMimeType (path.drop 9) = (resource, mimeType) ∧
    split resource '/' = [t.lowerName.toList, idText, versionText]
  id : Numeral idText
  version : Numeral versionText

/-- The response contains one version of an object and nothing else, or it reports an error. -/
def ReturnsVersion (store : Store) (t : ObjectType) (id v : Nat) (r : Response) : Prop :=
  r.reportsError ∨ ∃ h ∈ store.db.history t, h.key = (id, v) ∧ ∃ mimeType encoding,
    r.body = .document mimeType encoding [.startDocument "osm", .startElement,
      .writeObject t (contentOf store (historicRow t store.db h)), .endElement, .endDocument]

/-- Nothing else keeps a request from its answer: it has an address, its user is known, the
limiter lets it through, and its headers leave an encoding and a type. The flag says whether
its user sees redactions. -/
def Answered (server : Server) (req : HttpRequest) (times : Times) (seen : Store)
    (mimeType : MimeType) (redactions : Bool) : Prop :=
  ∃ ip user chosen, req.param "REMOTE_ADDR" = some ip ∧
    admitRequest server req times seen .get ip = .ok (user, start redactions) ∧
    negotiate server req [.applicationXml, .applicationJson] mimeType = .ok chosen

end Statement

section Routes

variable {t : ObjectType} {idText versionText : Text}

theorem matchOsmId_numeral {s : Text} (numeral : Numeral s) :
    matchOsmId s = if 0 < decimalValue s ∧ decimalValue s < 2 ^ 64 then some (decimalValue s)
      else none := by
  have all : s.takeWhile Char.isDigit = s := List.takeWhile_eq_self_iff.mpr numeral.digits
  have digits : s.all Char.isDigit = true := List.all_eq_true.mpr numeral.digits
  unfold matchOsmId fromChars
  rw [if_pos digits]
  dsimp only
  rw [all]
  by_cases large : 2 ^ 64 ≤ decimalValue s
  · rw [if_pos (Or.inr large), if_neg fun both => absurd both.2 (not_lt.mpr large)]
  · rw [if_neg (not_or.mpr ⟨numeral.nonempty, large⟩)]
    simp only [not_le.mp large, and_true]

/-- The literals of the rules are not numbers. -/
def wordy (parts : List Part) : Bool :=
  parts.all (fun part => match part with
    | .literal s => s.toList.any (fun c => !c.isDigit)
    | .osmId => true)

private theorem wordy_rules (numbers : Numbers) (limits : MapLimits) (req : HttpRequest)
    (kind : RuleKind) : ∀ rule ∈ kind.rules numbers limits req, wordy rule.parts = true := by
  have all : ((kind.rules numbers limits req).map Rule.parts).all wordy = true := by
    cases kind with
    | get =>
        change ((rulesGet ⟨fun _ => none, fun _ => none, fun _ => none⟩ ⟨0, 0⟩
          ⟨fun _ => none, 0, .error .outOfFuel⟩).map Rule.parts).all wordy = true
        decide +kernel
    | post =>
        change (rulesPost.map Rule.parts).all wordy = true
        decide +kernel
    | put =>
        change (rulesPut.map Rule.parts).all wordy = true
        decide +kernel
  rw [List.all_map, List.all_eq_true] at all
  exact all

private theorem matchParts_numeral {s : Text} (numeral : Numeral s) {p : Part} {ps : List Part}
    (words : wordy (p :: ps) = true) {bits : List Text}
    (matched : (matchParts (p :: ps) (s :: bits)).isSome = true) :
    (matchOsmId s).isSome = true ∧ wordy ps = true ∧ (matchParts ps bits).isSome = true := by
  have rest : wordy ps = true := by
    rw [wordy, List.all_cons, Bool.and_eq_true] at words
    exact words.2
  cases p with
  | literal w =>
      exfalso
      rw [matchParts] at matched
      by_cases same : s = w.toList
      · rw [wordy, List.all_cons, Bool.and_eq_true] at words
        obtain ⟨c, member, other⟩ := List.any_eq_true.mp words.1
        rw [numeral.digits c (same ▸ member)] at other
        cases other
      · rw [if_neg same] at matched
        cases matched
  | osmId =>
      rw [matchParts] at matched
      cases found : matchOsmId s with
      | none =>
          rw [found] at matched
          cases matched
      | some x =>
          rw [found] at matched
          exact ⟨rfl, rest, by simpa using matched⟩

private theorem ids_of_match {first : Text} (id : Numeral idText) (version : Numeral versionText)
    {ps : List Part} (words : wordy ps = true)
    (matched : (matchParts ps [first, idText, versionText]).isSome = true) :
    (matchOsmId idText).isSome = true ∧ (matchOsmId versionText).isSome = true := by
  have next : ∃ ps', wordy ps' = true ∧ (matchParts ps' [idText, versionText]).isSome = true := by
    cases ps with
    | nil => cases matched
    | cons p ps =>
        rw [wordy, List.all_cons, Bool.and_eq_true] at words
        refine ⟨ps, words.2, ?_⟩
        cases p with
        | literal w =>
            rw [matchParts] at matched
            by_cases same : first = w.toList
            · rwa [if_pos same] at matched
            · rw [if_neg same] at matched
              cases matched
        | osmId =>
            rw [matchParts] at matched
            cases found : matchOsmId first with
            | none =>
                rw [found] at matched
                cases matched
            | some x =>
                rw [found] at matched
                simpa using matched
  obtain ⟨ps', words', matched'⟩ := next
  cases ps' with
  | nil => cases matched'
  | cons q qs =>
      obtain ⟨first_id, words'', matched''⟩ := matchParts_numeral id words' matched'
      cases qs with
      | nil => cases matched''
      | cons r rs => exact ⟨first_id, (matchParts_numeral version words'' matched'').1⟩

def versionRule (t : ObjectType) : Rule where
  parts := [.literal t.lowerName, .osmId, .osmId]
  handler := fun ids => .ok (.reads (.version t (ids.getD 0 0) (toVersion (ids.getD 1 0))))

private theorem versionRule_mem (numbers : Numbers) (limits : MapLimits) (req : HttpRequest)
    (t : ObjectType) : versionRule t ∈ rulesGet numbers limits req := by
  have own : versionRule t ∈ objectRules req t := by
    unfold objectRules
    refine List.mem_append_right _ (List.mem_cons_of_mem _ ?_)
    exact List.mem_cons_self
  unfold rulesGet
  simp only [List.mem_append]
  cases t with
  | node => exact Or.inl (Or.inl (Or.inl (Or.inr own)))
  | way => exact Or.inl (Or.inl (Or.inr own))
  | relation => exact Or.inl (Or.inr own)

/-- Both numbers are ids to the router. -/
def Reaches (idText versionText : Text) : Prop :=
  (0 < decimalValue idText ∧ decimalValue idText < 2 ^ 64) ∧
    0 < decimalValue versionText ∧ decimalValue versionText < 2 ^ 64

/-- The handler that the router makes for a version gets its number modulo the range of its
type. -/
theorem routerMatch_version (numbers : Numbers) (limits : MapLimits) {req : HttpRequest}
    (method : req.param "REQUEST_METHOD" = some "GET") (id : Numeral idText)
    (version : Numeral versionText) :
    (Reaches idText versionText ∧
        routerMatch numbers limits req [t.lowerName.toList, idText, versionText] =
          .ok (some (.reads (.version t (decimalValue idText) (toVersion (decimalValue versionText)))))) ∨
      ¬Reaches idText versionText ∧
        routerMatch numbers limits req [t.lowerName.toList, idText, versionText] = .ok none := by
  have env : fcgiGetEnv req "REQUEST_METHOD" = .ok "GET" := by
    unfold fcgiGetEnv
    rw [method]
  have known : parseMethod "GET" = some .get := by decide
  have loops : routerMatch numbers limits req [t.lowerName.toList, idText, versionText] = _ :=
    routerMatch_known env known
  rw [matchRules_kind] at loops
  by_cases reaches : Reaches idText versionText
  · left
    refine ⟨reaches, ?_⟩
    have first : matchOsmId idText = some (decimalValue idText) := by
      rw [matchOsmId_numeral id, if_pos reaches.1]
    have second : matchOsmId versionText = some (decimalValue versionText) := by
      rw [matchOsmId_numeral version, if_pos reaches.2]
    have matched : matchParts (versionRule t).parts [t.lowerName.toList, idText, versionText] =
        some [decimalValue idText, decimalValue versionText] := by
      simp [versionRule, matchParts, first, second]
    have built : RuleKind.get.construct numbers limits req [t.lowerName.toList, idText, versionText] =
        some ((versionRule t).handler [decimalValue idText, decimalValue versionText]) :=
      construct_eq_some (exclusive_rules numbers limits req .get) (versionRule_mem numbers limits req t) matched
    rw [built] at loops
    exact loops
  · right
    refine ⟨reaches, ?_⟩
    have none : ∀ kind : RuleKind,
        kind.construct numbers limits req [t.lowerName.toList, idText, versionText] = none := by
      intro kind
      refine construct_eq_none.mpr fun rule member matched => reaches ?_
      obtain ⟨one, two⟩ := ids_of_match id version (wordy_rules numbers limits req kind rule member) matched
      rw [matchOsmId_numeral id] at one
      rw [matchOsmId_numeral version] at two
      constructor
      · by_contra other
        rw [if_neg other] at one
        cases one
      · by_contra other
        rw [if_neg other] at two
        cases two
    rw [none, matchRules_kind, none, matchRules_kind, none] at loops
    exact loops

end Routes

section Reading

variable {store : Store} {t : ObjectType} {redactions : Bool} {id v : Nat}

def versionSelection (t : ObjectType) (redactions : Bool) (id v : Nat) : Selection :=
  { start redactions with
    historic := Function.update (start redactions).historic t {toLex (id, v)} }

variable (store t redactions id) in
private theorem versionResponder_cases (small : v < versionBound) :
    (Available store.db t redactions ⟨id, some v⟩ ∧
        versionResponder store.db (start redactions) t id v = .ok (versionSelection t redactions id v)) ∨
      ¬Available store.db t redactions ⟨id, some v⟩ ∧
        versionResponder store.db (start redactions) t id v = .error (.notFound "") := by
  have selects : selectHistorical store.db t (start redactions) [toLex (id, v)] = _ :=
    selectHistorical_eq rfl (show (start redactions).redactionsVisible = redactions from rfl) (fun ed member => by rw [List.mem_singleton.mp member]; exact small)
  unfold versionResponder
  rw [selects]
  by_cases found : shown store.db t redactions (toLex (id, v)) = true
  · have one : shownOf store.db t redactions [toLex (id, v)] = {toLex (id, v)} := by
      simp [shownOf, found, Finset.filter_singleton]
    left
    refine ⟨available_historic.mpr found, ?_⟩
    rw [one]
    rfl
  · have none : shownOf store.db t redactions [toLex (id, v)] = ∅ := by
      simp [shownOf, found, Finset.filter_singleton]
    right
    refine ⟨fun available => found (available_historic.mp available), ?_⟩
    rw [none]
    rfl

private theorem writeCurrent_failed {sel : Selection} {e : Exception}
    (own : writeObjects store t sel = ([], some e))
    (others : ∀ t', t' ≠ t → writeObjects store t' sel = ([], none)) :
    writeCurrent store sel none =
      [.startDocument "osm", .startElement, .error e, .endElement, .endDocument] := by
  unfold writeCurrent writeCalls
  cases t with
  | node =>
      rw [own, others .way (by decide), others .relation (by decide)]
      simp [andThen, caught]
  | way =>
      rw [own, others .node (by decide), others .relation (by decide)]
      simp [andThen, caught]
  | relation =>
      rw [own, others .node (by decide), others .way (by decide)]
      simp [andThen, caught]

variable (redactions) in
private theorem writeObjects_version {h : HistoryRow t}
    (found : (store.db.history t).find? (id, v) = some h) :
    writeObjects store t (versionSelection t redactions id v) =
      writeRows store t [historicRow t store.db h] := by
  have merged : mergeCurrent store t (versionSelection t redactions id v) =
      .ok (versionSelection t redactions id v) := if_neg fun both => both.1 rfl
  have rows : historicRows store t (versionSelection t redactions id v) = [historicRow t store.db h] := by
    have historic : (versionSelection t redactions id v).historic t = {toLex (id, v)} :=
      Function.update_self ..
    unfold historicRows
    rw [historic, Finset.sort_singleton]
    simp [found, historicRow]
  rw [writeObjects_editions merged rfl (Function.update_self ..) (Finset.singleton_ne_empty _), rows]

variable (redactions) in
/-- The document of a selected version: its row when the version fits an `int`, else an
error. -/
private theorem write_version (keys : SchemaKeys store t) {h : HistoryRow t}
    (found : (store.db.history t).find? (id, v) = some h) (now : Int) :
    ∃ call, (Endpoint.version t id v).write store (versionSelection t redactions id v) now =
        [.startDocument "osm", .startElement, call, .endElement, .endDocument] ∧
      (v < 2 ^ 31 ∧ call = .writeObject t (contentOf store (historicRow t store.db h)) ∨
        2 ^ 31 ≤ v ∧ ∃ e, call = .error e) := by
  have member := (Table.find?_eq_some.mp found).1
  have version : h.version = v := (Prod.mk.inj (Table.find?_eq_some.mp found).2).2
  have row : IsRow store.db (historicRow t store.db h) := Or.inr ⟨h, member, rfl⟩
  have own := writeObjects_version redactions found
  have others : ∀ t', t' ≠ t → writeObjects store t' (versionSelection t redactions id v) = ([], none) :=
    fun t' other => writeObjects_nothing rfl (Function.update_of_ne other ..)
  by_cases fits : v < 2 ^ 31
  · have read := (writeRows_one keys row).mpr ⟨version ▸ fits, rfl⟩
    exact ⟨_, writeCurrent_one (own.trans read) others, Or.inl ⟨fits, rfl⟩⟩
  · obtain ⟨e, failed⟩ : ∃ e, extract store (historicRow t store.db h) = .error e := by
      cases result : extract store (historicRow t store.db h) with
      | error e => exact ⟨e, rfl⟩
      | ok w =>
          have small := ((extract_eq_ok (refs_of_isRow keys row)).mp result).1
          exact absurd (version ▸ small) fits
    have read : writeRows store t [historicRow t store.db h] = ([], some e) := by
      rw [writeRows_singleton (user_of_isRow keys row), failed]
      rfl
    exact ⟨_, writeCurrent_failed (own.trans read) others, Or.inr ⟨not_lt.mp fits, e, rfl⟩⟩

end Reading

private theorem toVersion_lt (n : Nat) : toVersion n < versionBound := Nat.mod_lt n (by decide)

section Responses

variable {server : Server} {req : HttpRequest} {times : Times} {seen store : Store}
  {t : ObjectType} {idText versionText : Text} {mimeType : MimeType}

private theorem queryParams_failure {failure : HttpError} (failed : queryParams req = .error failure) :
    IsError failure := by
  unfold queryParams at failed
  rcases bind_eq_error.mp failed with query | ⟨_, -, none⟩
  · unfold getQueryString at query
    split at query
    · cases query
    · split at query
      · cases query
        exact show 400 ≤ 500 by omega
      · cases query
  · cases none

private theorem admitRequest_failure {method : Method} {ip : String} {failure : HttpError}
    (failed : admitRequest server req times seen method ip = .error failure) : IsError failure := by
  unfold admitRequest at failed
  rcases bind_eq_error.mp failed with user | ⟨user, -, rest⟩
  · unfold requestUser at user
    rcases bind_eq_error.mp user with id | ⟨_, -, none⟩
    · unfold determineUserId at id
      repeat' split at id
      all_goals cases id
      all_goals first | trivial | exact show 400 ≤ 401 by omega
    · cases none
  · rcases bind_eq_error.mp rest with limited | ⟨_, -, rest⟩
    · unfold checkLimiter at limited
      repeat' split at limited
      all_goals cases limited
      trivial
    · rcases bind_eq_error.mp rest with fresh | ⟨_, -, none⟩
      · unfold freshSelection at fresh
        split at fresh
        · rcases bind_eq_error.mp fresh with flag | ⟨_, -, none⟩
          · unfold showRedactionsRequested at flag
            rcases bind_eq_error.mp flag with params | ⟨_, -, none⟩
            · exact queryParams_failure params
            · cases none
          · cases none
        · cases fresh
      · cases none

private theorem admitRequest_start {method : Method} {ip : String} {user : Option UserInfo}
    {sel : Selection} (admitted : admitRequest server req times seen method ip = .ok (user, sel)) :
    sel = start sel.redactionsVisible := by
  unfold admitRequest at admitted
  obtain ⟨_, -, rest⟩ := bind_eq_ok.mp admitted
  obtain ⟨_, -, rest⟩ := bind_eq_ok.mp rest
  obtain ⟨fresh, made, last⟩ := bind_eq_ok.mp rest
  cases last
  unfold freshSelection at made
  split at made
  · obtain ⟨flag, -, last⟩ := bind_eq_ok.mp made
    cases last
    rfl
  · cases made
    rfl

variable (server) in
private theorem route_version (asks : AsksForVersion req t idText versionText mimeType) :
    (Reaches idText versionText ∧ route server.numbers server.mapLimits req =
        .ok (.reads (.version t (decimalValue idText) (toVersion (decimalValue versionText))), mimeType)) ∨
      ¬Reaches idText versionText ∧ ∃ message, route server.numbers server.mapLimits req =
        .error (.thrown (.notFound message)) := by
  obtain ⟨path, resource, uri, inside, suffix, components⟩ := asks.path
  unfold route
  rw [uri]
  simp only [bind, Except.bind]
  rw [if_pos inside, suffix]
  dsimp only
  rw [components]
  rcases routerMatch_version (t := t) server.numbers server.mapLimits asks.method asks.id asks.version with
    ⟨reaches, matched⟩ | ⟨reaches, matched⟩
  · rw [matched]
    exact Or.inl ⟨reaches, rfl⟩
  · rw [matched]
    exact Or.inr ⟨reaches, _, rfl⟩

private theorem processRequest_get {handler : Handler} {ip : String}
    (method : req.param "REQUEST_METHOD" = some "GET") (address : req.param "REMOTE_ADDR" = some ip)
    (routed : route server.numbers server.mapLimits req = .ok (handler, mimeType))
    (allowed : Method.get ∈ handler.allowedMethods) :
    (processRequest server req times seen store).1 =
      finish req handler.allowedMethods (successHeaders handler) (orRespond server req
        (match admitRequest server req times seen .get ip with
          | .error failure => .error failure
          | .ok (_, sel) => processGetRequest server req seen sel mimeType handler)) := by
  have received : receive server req = .ok (ip, some .get, handler, mimeType) := by
    unfold receive fcgiGetEnv
    rw [address, method]
    simp only [bind, Except.bind]
    rw [routed]
    rfl
  unfold processRequest
  rw [received]
  dsimp only
  rw [if_pos allowed]
  unfold dispatch
  cases admitRequest server req times seen .get ip with
  | error failure => rfl
  | ok admitted => rfl

private theorem processRequest_refused (failure : HttpError) (isError : IsError failure)
    (received : receive server req = .error failure) :
    (processRequest server req times seen store).1.reportsError := by
  unfold processRequest
  rw [received]
  exact reportsError_respond isError

private theorem processGetRequest_version {redactions : Bool} {id v : Nat} :
    processGetRequest server req seen (start redactions) mimeType (.reads (.version t id v)) =
      match versionResponder seen.db (start redactions) t id v with
      | .error e => .error (.thrown e)
      | .ok sel => generateResponse server req [.applicationXml, .applicationJson] mimeType
          ((Endpoint.version t id v).write seen sel req.now) := by
  unfold processGetRequest selectionResponder Endpoint.responder
  dsimp only
  cases versionResponder seen.db (start redactions) t id v with
  | error e => rfl
  | ok sel => rfl

/-- A response with the document of a version that is stored under the number. -/
def Holds (store : Store) (t : ObjectType) (id v : Nat) (r : Response) : Prop :=
  ¬r.reportsError ∧ ∃ h mimeType encoding call, (store.db.history t).find? (id, v) = some h ∧
    r.body = .document mimeType encoding
      [.startDocument "osm", .startElement, call, .endElement, .endDocument] ∧
    (v < 2 ^ 31 ∧ call = .writeObject t (contentOf store (historicRow t store.db h)) ∨
      2 ^ 31 ≤ v ∧ ∃ e, call = .error e)

private theorem answer_cases {redactions : Bool} {id v : Nat} (small : v < versionBound)
    (keys : SchemaKeys seen t) :
    ((orRespond server req (processGetRequest server req seen (start redactions) mimeType
          (.reads (.version t id v)))).reportsError ∧
        ¬((∃ chosen, negotiate server req [.applicationXml, .applicationJson] mimeType = .ok chosen) ∧
          Available seen.db t redactions ⟨id, some v⟩)) ∨
      (∃ chosen, negotiate server req [.applicationXml, .applicationJson] mimeType = .ok chosen) ∧
        Available seen.db t redactions ⟨id, some v⟩ ∧
        Holds seen t id v (orRespond server req (processGetRequest server req seen (start redactions)
          mimeType (.reads (.version t id v)))) := by
  rw [processGetRequest_version]
  rcases versionResponder_cases seen t redactions id small with
    ⟨available, selected⟩ | ⟨missing, failed⟩
  · rw [selected]
    unfold generateResponse
    cases negotiated : negotiate server req [.applicationXml, .applicationJson] mimeType with
    | error failure =>
        refine Or.inl ⟨reportsError_respond (negotiate_failure negotiated), ?_⟩
        rintro ⟨⟨chosen, accepted⟩, -⟩
        cases accepted
    | ok chosen =>
        obtain ⟨encoding, chosenType, name⟩ := chosen
        obtain ⟨h, found, shows⟩ := available
        obtain ⟨call, written, outcome⟩ := write_version redactions keys found req.now
        refine Or.inr ⟨⟨_, rfl⟩, ⟨h, found, shows⟩, ?_, h, chosenType, encoding, call, found, ?_, outcome⟩
        · rintro (high | ⟨status, message, text⟩)
          · exact absurd (show 400 ≤ 200 from high) (by omega)
          · cases text
        · exact congrArg (ResponseBody.document chosenType encoding) written
  · rw [failed]
    exact Or.inl ⟨reportsError_respond (show 400 ≤ 404 by omega), fun both => missing both.2⟩

private theorem reportsError_of_unaddressed (missing : req.param "REMOTE_ADDR" = none) :
    (processRequest server req times seen store).1.reportsError := by
  obtain ⟨message, unknown⟩ : ∃ message, receive server req = .error (.thrown (.serverError message)) := by
    unfold receive fcgiGetEnv
    rw [missing]
    exact ⟨_, rfl⟩
  exact processRequest_refused (.thrown (.serverError message)) (show 400 ≤ 500 by omega) unknown

private theorem reportsError_of_unknown {ip message : String}
    (method : req.param "REQUEST_METHOD" = some "GET") (env : req.param "REMOTE_ADDR" = some ip)
    (unknown : route server.numbers server.mapLimits req = .error (.thrown (.notFound message))) :
    (processRequest server req times seen store).1.reportsError := by
  refine processRequest_refused (.thrown (.notFound message)) (show 400 ≤ 404 by omega) ?_
  unfold receive fcgiGetEnv
  rw [env, method]
  simp only [bind, Except.bind]
  rw [unknown]

private theorem routed_cases {ip : String} {id v : Nat}
    (method : req.param "REQUEST_METHOD" = some "GET") (env : req.param "REMOTE_ADDR" = some ip)
    (routed : route server.numbers server.mapLimits req = .ok (.reads (.version t id v), mimeType))
    (small : v < versionBound) (keys : SchemaKeys seen t) :
    ((processRequest server req times seen store).1.reportsError ∧
        ¬∃ redactions, Answered server req times seen mimeType redactions ∧
          Available seen.db t redactions ⟨id, some v⟩) ∨
      (∃ redactions, Answered server req times seen mimeType redactions ∧
          Available seen.db t redactions ⟨id, some v⟩) ∧
        Holds seen t id v (processRequest server req times seen store).1 := by
  have answer : (processRequest server req times seen store).1 = _ :=
    processRequest_get method env routed List.mem_cons_self
  have one_address : ∀ {ip'}, req.param "REMOTE_ADDR" = some ip' → ip' = ip := fun present =>
    Option.some.inj (present.symm.trans env)
  cases admitted : admitRequest server req times seen .get ip with
  | error failure =>
      left
      rw [admitted] at answer
      rw [answer]
      refine ⟨reportsError_respond (admitRequest_failure admitted), ?_⟩
      rintro ⟨redactions, ⟨ip', user, chosen, present, passes, -⟩, -⟩
      rw [one_address present, admitted] at passes
      cases passes
  | ok pair =>
      obtain ⟨user, sel⟩ := pair
      have fresh := admitRequest_start admitted
      generalize sel.redactionsVisible = redactions at fresh
      subst fresh
      have one_view : ∀ {redactions'},
          Answered server req times seen mimeType redactions' → redactions' = redactions := by
        rintro redactions' ⟨ip', user', chosen, present, passes, -⟩
        rw [one_address present, admitted] at passes
        exact congrArg Selection.redactionsVisible (Prod.mk.inj (Except.ok.inj passes)).2.symm
      rw [admitted] at answer
      rw [answer]
      rcases answer_cases small keys with
        ⟨failed, absent⟩ | ⟨⟨chosen, accepted⟩, available, holds⟩
      · refine Or.inl ⟨failed, ?_⟩
        rintro ⟨redactions', answered, available⟩
        obtain rfl := one_view answered
        obtain ⟨_, _, chosen, -, -, accepted⟩ := answered
        exact absent ⟨⟨chosen, accepted⟩, available⟩
      · exact Or.inr ⟨⟨redactions, ⟨ip, user, chosen, env, admitted, accepted⟩, available⟩, holds⟩

/-- The response is an error, or it is the document of the number modulo the range of its type. -/
private theorem response_cases (server : Server) (times : Times) (store : Store)
    (asks : AsksForVersion req t idText versionText mimeType) (keys : SchemaKeys seen t) :
    ((processRequest server req times seen store).1.reportsError ∧
        ¬(Reaches idText versionText ∧ ∃ redactions, Answered server req times seen mimeType redactions ∧
          Available seen.db t redactions
            ⟨decimalValue idText, some (toVersion (decimalValue versionText))⟩)) ∨
      (Reaches idText versionText ∧ ∃ redactions, Answered server req times seen mimeType redactions ∧
          Available seen.db t redactions
            ⟨decimalValue idText, some (toVersion (decimalValue versionText))⟩) ∧
        Holds seen t (decimalValue idText) (toVersion (decimalValue versionText))
          (processRequest server req times seen store).1 := by
  cases env : req.param "REMOTE_ADDR" with
  | none =>
      refine Or.inl ⟨reportsError_of_unaddressed env, ?_⟩
      rintro ⟨-, redactions, ⟨ip, user, chosen, present, -⟩, -⟩
      rw [env] at present
      cases present
  | some ip =>
      rcases route_version server asks with ⟨reaches, routed⟩ | ⟨reaches, message, unknown⟩
      · rcases routed_cases asks.method env routed (toVersion_lt (decimalValue versionText)) keys with
          ⟨failed, absent⟩ | ⟨served, holds⟩
        · exact Or.inl ⟨failed, fun both => absent both.2⟩
        · exact Or.inr ⟨⟨reaches, served⟩, holds⟩
      · exact Or.inl ⟨reportsError_of_unknown asks.method env unknown, fun both => reaches both.1⟩

/-- A version is returned, or an error, as long as its number fits an `int`. -/
theorem returnsVersion_iff (server : Server) (times : Times) (store : Store)
    (asks : AsksForVersion req t idText versionText mimeType) (keys : SchemaKeys seen t) :
    ReturnsVersion seen t (decimalValue idText) (decimalValue versionText)
        (processRequest server req times seen store).1 ↔
      (Reaches idText versionText → ∀ redactions, Answered server req times seen mimeType redactions →
        Available seen.db t redactions ⟨decimalValue idText, some (toVersion (decimalValue versionText))⟩ →
          decimalValue versionText < 2 ^ 31) := by
  rcases response_cases server times store asks keys with
    ⟨failed, absent⟩ | ⟨⟨reaches, redactions, answered, available⟩, fine, h, mimeType', encoding, call,
      found, body, outcome⟩
  · refine iff_of_true (Or.inl failed) fun reaches redactions answered available => ?_
    exact absurd ⟨reaches, redactions, answered, available⟩ absent
  · constructor
    · rintro (failed | ⟨h', member, key, mimeType'', encoding', document⟩) - - - -
      · exact absurd failed fine
      · rw [document] at body
        rcases outcome with ⟨fits, rfl⟩ | ⟨-, e, rfl⟩
        · have same : contentOf seen (historicRow t seen.db h') = contentOf seen (historicRow t seen.db h) := by
            injection body with _ _ calls
            simpa using calls
          have versions : h'.version = h.version := congrArg (fun w => w.elem.version) same
          have asked : h'.version = decimalValue versionText := (Prod.mk.inj key).2
          have read : h.version = toVersion (decimalValue versionText) :=
            (Prod.mk.inj (Table.find?_eq_some.mp found).2).2
          rw [← asked, versions, read]
          exact fits
        · injection body with _ _ calls
          simp at calls
    · intro small
      have fits := small reaches redactions answered available
      have whole : toVersion (decimalValue versionText) = decimalValue versionText :=
        Nat.mod_eq_of_lt (fits.trans (by decide))
      rw [whole] at found outcome
      obtain ⟨member, key⟩ := Table.find?_eq_some.mp found
      rcases outcome with ⟨-, rfl⟩ | ⟨large, -⟩
      · exact Or.inr ⟨h, member, key, mimeType', encoding, body⟩
      · exact absurd fits (not_lt.mpr large)

end Responses

section Samples

def sampleGet (uri : String) : HttpRequest where
  param name := [("REMOTE_ADDR", "127.0.0.1"), ("REQUEST_METHOD", "GET"), ("REQUEST_URI", uri)].lookup name
  now := 0
  payload := .error (.badRequest "")

/-- The second version of a node that has two. -/
theorem returnsVersion_iff_sampleVersions :
    ReturnsVersion sampleVersions .node 5 2 (processRequest sampleServer
      (sampleGet "/api/0.6/node/5/2") ⟨0, 0⟩ sampleVersions sampleVersions).1 :=
  (returnsVersion_iff sampleServer ⟨0, 0⟩ sampleVersions
    (show AsksForVersion (sampleGet "/api/0.6/node/5/2") .node "5".toList "2".toList .unspecifiedType from
      ⟨rfl, ⟨"/api/0.6/node/5/2".toList, "node/5/2".toList, by decide +kernel⟩, ⟨by decide, List.all_eq_true.mp rfl⟩,
        ⟨by decide, List.all_eq_true.mp rfl⟩⟩) keys_sampleVersions).mpr (fun _ _ _ _ => by decide)

/-- A number with more than 32 bits stands for a version that exists. -/
theorem not_returnsVersion_sampleVersions :
    ¬∀ (server : Server) (req : HttpRequest) (times : Times) (seen store : Store) (t : ObjectType)
      (idText versionText : Text) (mimeType : MimeType),
        AsksForVersion req t idText versionText mimeType → SchemaKeys seen t →
          ReturnsVersion seen t (decimalValue idText) (decimalValue versionText)
            (processRequest server req times seen store).1 := by
  intro all
  have asks : AsksForVersion (sampleGet "/api/0.6/node/5/4294967297") .node "5".toList
      "4294967297".toList .unspecifiedType :=
    ⟨rfl, ⟨"/api/0.6/node/5/4294967297".toList, "node/5/4294967297".toList, by decide +kernel⟩,
      ⟨by decide, List.all_eq_true.mp rfl⟩, ⟨by decide, List.all_eq_true.mp rfl⟩⟩
  have answered : Answered sampleServer (sampleGet "/api/0.6/node/5/4294967297") ⟨0, 0⟩ sampleVersions
      .unspecifiedType false := by
    refine ⟨"127.0.0.1", none, (.identity, .applicationXml, "application/xml"), rfl, rfl, ?_⟩
    decide +kernel
  have available : Available sampleVersions.db .node false ⟨5, some 1⟩ := by
    refine ⟨_, rfl, Or.inl rfl⟩
  rcases response_cases sampleServer ⟨0, 0⟩ sampleVersions asks keys_sampleVersions with
    ⟨-, absent⟩ | ⟨-, fine, -⟩
  · exact absent ⟨by unfold Reaches; decide, false, answered, available⟩
  · rcases all sampleServer _ ⟨0, 0⟩ sampleVersions sampleVersions _ _ _ _ asks keys_sampleVersions with
      failed | ⟨h, member, key, -⟩
    · exact fine failed
    · rcases List.mem_cons.mp member with rfl | last
      · cases key
      · rw [List.mem_singleton.mp last] at key
        cases key

end Samples

end Cgimap.Http.VersionEndpoints
