/- path: Cgimap/Http/Routing
   generality: I
   source: src/routes.cpp, src/router.cpp, include/cgimap/router.hpp, src/bbox.cpp,
     src/api06/handler_utils.cpp, src/api06/*_handler.cpp (the constructors of the handlers)
   digest: From the path and the method of a request to a handler. -/

import Cgimap.Http.Negotiation
import Cgimap.Read.Endpoints
import Mathlib.Data.List.Destutter

set_option autoImplicit false
set_option relaxedAutoImplicit false

namespace Cgimap.Http.Routing

open Cgimap.Model.Types
open Cgimap.Changeset.Updater
open Cgimap.Changeset.Responders
open Cgimap.Read.DataSelection
open Cgimap.Read.Endpoints
open Cgimap.Http.Requests
open Cgimap.Http.Negotiation

/-- A payload enabled handler. -/
inductive UpdateEndpoint where
  | create
  | update (changeset : Int)
  | close (changeset : Int)
  | upload (changeset : Int)
  deriving DecidableEq, Repr

inductive Handler where
  | reads (endpoint : Endpoint)
  | updates (endpoint : UpdateEndpoint)
  deriving DecidableEq, Repr

def Handler.allowedMethods : Handler → List Method
  | .reads _ => [.get, .head, .options]
  | .updates (.upload _) => [.post, .options]
  | .updates _ => [.put, .options]

section Constructors

def toChangesetId (n : Nat) : Int := if n < 2 ^ 63 then n else n - 2 ^ 64

def toVersion (n : Nat) : Nat := n % versionBound

variable (numbers : Numbers) (limits : MapLimits) (req : HttpRequest)

/-- `std::stod` of the four numbers of a box, unless one of them throws. -/
def parseBounds (s : Text) : Option (Option ℚ × Option ℚ × Option ℚ × Option ℚ) :=
  match split s ',' with
  | [minlon, minlat, maxlon, maxlat] => do
      let minlat ← numbers.stod minlat
      let minlon ← numbers.stod minlon
      let maxlat ← numbers.stod maxlat
      let maxlon ← numbers.stod maxlon
      some (minlat, minlon, maxlat, maxlon)
  | _ => none

/-- `bbox::valid`, which no box with a value that is not finite passes. -/
def validBounds : Option ℚ × Option ℚ × Option ℚ × Option ℚ → Option GeoBox
  | (some minlat, some minlon, some maxlat, some maxlon) =>
      if -180 ≤ minlon ∧ minlon ≤ 180 ∧ -180 ≤ maxlon ∧ maxlon ≤ 180 ∧ -90 ≤ minlat ∧ minlat ≤ 90 ∧
          -90 ≤ maxlat ∧ maxlat ≤ 90 ∧ minlon ≤ maxlon ∧ minlat ≤ maxlat then
        some ⟨minlat, minlon, maxlat, maxlon⟩
      else none
  | _ => none

def boundsArea (b : GeoBox) : ℚ := (b.maxlon - b.minlon) * (b.maxlat - b.minlat)

def fixedSix (q : ℚ) : String :=
  let n := cround (q * 1000000)
  toString (n / 1000000) ++ "." ++ padded 6 (n % 1000000)

def mapHandler : Except HttpError Handler := do
  let params ← queryParams req
  match ((params.find? (fun p => p.1 = "bbox".toList)).map Prod.snd).bind (parseBounds numbers) with
  | none => .error (.thrown (.badRequest
      "The parameter bbox is required, and must be of the form min_lon,min_lat,max_lon,max_lat."))
  | some parsed =>
      match validBounds parsed with
      | none => .error (.thrown (.badRequest
          "The latitudes must be between -90 and 90, longitudes between -180 and 180 and the minima must be less than the maxima."))
      | some bounds =>
          if limits.areaMax < boundsArea bounds then
            .error (.thrown (.badRequest s!"The maximum bbox size is {fixedSix limits.areaMax}, and your request was too large. Either request a smaller area, or use planet.osm"))
          else .ok (.reads (.map bounds))

def parseSingleId (s : Text) : IdVersion :=
  match split s 'v' with
  | [id] => ⟨parseRubyNumber (2 ^ 64) id, none⟩
  | [id, version] => ⟨parseRubyNumber (2 ^ 64) id, some (parseRubyNumber versionBound version)⟩
  | _ => ⟨0, none⟩

def IdVersion.before (a b : IdVersion) : Bool :=
  a.id < b.id || (a.id = b.id &&
    (match a.version, b.version with
      | some v, some w => v < w
      | some _, none => true
      | none, _ => false))

def parseIdListParams (name : Text) : Except HttpError (List IdVersion) := do
  let params ← queryParams req
  match params.find? (fun p => p.1 = name) with
  | none => .ok []
  | some (_, value) =>
      let ids := ((split value ',').filter (fun part => part ≠ [])).map parseSingleId
      .ok ((ids.insertionSort (fun a b => IdVersion.before b a = false)).destutter (· ≠ ·))

/-- What `nodes_handler`, `ways_handler` and `relations_handler` say without ids. -/
def idsRequired : ObjectType → String
  | .node => "The parameter nodes is required, and must be of the form nodes=ID[vVER][,ID[vVER][,ID[vVER]...]]."
  | .way => "The parameter ways is required, and must be of the form ways=ID[vVER][,ID[vVER][,ID[vVER]...]]."
  | .relation => "The parameter relations is required, and must be of the form relations=id[,id[,id...]]."

def objectsHandler (t : ObjectType) : Except HttpError Handler := do
  let ids ← parseIdListParams req (t.lowerName ++ "s").toList
  if ids = [] then .error (.thrown (.badRequest (idsRequired t)))
  else .ok (.reads (.objects t ids))

def changesetHandler (id : Nat) : Except HttpError Handler := do
  let params ← queryParams req
  .ok (.reads (.changeset (toChangesetId id)
    (params.any (fun p => decide (p.1 = "include_discussion".toList)))))

end Constructors

section Rules

inductive Part where
  | literal (s : String)
  | osmId
  deriving DecidableEq, Repr

def matchOsmId (bit : Text) : Option Nat :=
  if bit.all Char.isDigit then
    match fromChars (2 ^ 64) bit with
    | some x => if 0 < x then some x else none
    | none => none
  else none

def matchParts : List Part → List Text → Option (List Nat)
  | [], [] => some []
  | .literal s :: parts, bit :: bits => if bit = s.toList then matchParts parts bits else none
  | .osmId :: parts, bit :: bits =>
      match matchOsmId bit with
      | some x => (matchParts parts bits).map (List.cons x)
      | none => none
  | _, _ => none

/-- A rule: what it matches, and the constructor that the matched ids go to. -/
structure Rule where
  parts : List Part
  handler : List Nat → Except HttpError Handler

def Rule.one (parts : List Part) (make : Nat → Handler) : Rule :=
  ⟨parts, fun ids => .ok (make (ids.getD 0 0))⟩

variable (numbers : Numbers) (limits : MapLimits) (req : HttpRequest)

/-- The rules of the three object types, in the order of `get_default_router`. -/
def objectRules (t : ObjectType) : List Rule :=
  let base : List Part := [.literal t.lowerName, .osmId]
  let full : List Rule := match t with
    | .node => [.one (base ++ [.literal "ways"]) (fun id => .reads (.nodeWays id)),
        .one (base ++ [.literal "relations"]) (fun id => .reads (.nodeRelations id))]
    | .way => [.one (base ++ [.literal "full"]) (fun id => .reads (.wayFull id)),
        .one (base ++ [.literal "relations"]) (fun id => .reads (.wayRelations id))]
    | .relation => [.one (base ++ [.literal "full"]) (fun id => .reads (.relationFull id)),
        .one (base ++ [.literal "relations"]) (fun id => .reads (.relationRelations id))]
  full ++ [.one (base ++ [.literal "history"]) (fun id => .reads (.history t id)),
    { parts := base ++ [.osmId]
      handler := fun ids => .ok (.reads (.version t (ids.getD 0 0) (toVersion (ids.getD 1 0)))) },
    .one base (fun id => .reads (.object t id)),
    { parts := [.literal (t.lowerName ++ "s")], handler := fun _ => objectsHandler req t }]

def rulesGet : List Rule :=
  [{ parts := [.literal "map"], handler := fun _ => mapHandler numbers limits req }] ++
    objectRules req .node ++ objectRules req .way ++ objectRules req .relation ++
    [.one [.literal "changeset", .osmId, .literal "download"] (fun id =>
        .reads (.changesetDownload (toChangesetId id))),
      { parts := [.literal "changeset", .osmId]
        handler := fun ids => changesetHandler req (ids.getD 0 0) }]

def rulesPost : List Rule :=
  [.one [.literal "changeset", .osmId, .literal "upload"] (fun id =>
    .updates (.upload (toChangesetId id)))]

def rulesPut : List Rule :=
  [.one [.literal "changeset", .osmId, .literal "close"] (fun id =>
      .updates (.close (toChangesetId id))),
    { parts := [.literal "changeset", .literal "create"], handler := fun _ => .ok (.updates .create) },
    .one [.literal "changeset", .osmId] (fun id => .updates (.update (toChangesetId id)))]

/-- `invoke_if`. The constructor of the handler may throw. -/
def Rule.invokeIf (rule : Rule) (path : List Text) : Except HttpError (Option Handler) :=
  match matchParts rule.parts path with
  | none => .ok none
  | some ids => (rule.handler ids).map some

/-- A loop over rules: the handler of the first match if the method fits, else whether
there was a match. -/
def matchRules (fits : Bool) (path : List Text) : List Rule → Bool → Except HttpError (Handler ⊕ Bool)
  | [], found => .ok (.inr found)
  | rule :: rules, found => do
      match ← rule.invokeIf path with
      | some handler => if fits then .ok (.inl handler) else matchRules fits path rules true
      | none => matchRules fits path rules found

def routerMatch (path : List Text) : Except HttpError (Option Handler) := do
  match parseMethod (← fcgiGetEnv req "REQUEST_METHOD") with
  | none => .ok none
  | some m =>
      match ← matchRules (m ∈ [.get, .head, .options]) path (rulesGet numbers limits req) false with
      | .inl handler => .ok (some handler)
      | .inr gets =>
          match ← matchRules (m ∈ [.post, .options]) path rulesPost false with
          | .inl handler => .ok (some handler)
          | .inr posts =>
              match ← matchRules (m ∈ [.put, .options]) path rulesPut false with
              | .inl handler => .ok (some handler)
              | .inr puts =>
                  if gets || posts || puts then
                    .error (.methodNotAllowed ([.options] ++ (if gets then [.get, .head] else []) ++
                      (if posts then [.post] else []) ++ (if puts then [.put] else [])))
                  else .ok none

def resourceMimeType (path : Text) : Text × MimeType :=
  if ".json".toList.isSuffixOf path then (path.take (path.length - 5), .applicationJson)
  else if ".xml".toList.isSuffixOf path then (path.take (path.length - 4), .applicationXml)
  else (path, .unspecifiedType)

/-- `routes::operator()`: the handler and its resource type. -/
def route : Except HttpError (Handler × MimeType) := do
  let path ← getRequestPath req
  let unknown : Except HttpError (Handler × MimeType) :=
    .error (.thrown (.notFound s!"Path does not match any known routes: {String.ofList path}"))
  if "/api/0.6/".toList.isPrefixOf path then
    let (resource, mimeType) := resourceMimeType (path.drop 9)
    match ← routerMatch numbers limits req (split resource '/') with
    | some handler => .ok (handler, mimeType)
    | none => unknown
  else unknown

end Rules

end Cgimap.Http.Routing
