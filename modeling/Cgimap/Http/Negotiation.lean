/- path: Cgimap/Http/Negotiation
   generality: I
   source: src/http.cpp, src/choose_formatter.cpp, src/mime_types.cpp, src/handler.cpp
   digest: The choice of the content encoding and of the media type of a response. -/

import Cgimap.Http.Requests

set_option autoImplicit false
set_option relaxedAutoImplicit false

namespace Cgimap.Http.Negotiation

open Cgimap.Model.Types
open Cgimap.Changeset.Responders
open Cgimap.Http.Requests

/-- The conversions of numerals to floating point that the source takes from the
standard library. They fail, or give a number, or a value that is not finite. -/
structure Numbers where
  stof : Text → Option (Option ℚ)
  stod : Text → Option (Option ℚ)
  fromCharsFixed : Text → Option (Option ℚ)

/-- The optional libraries of a build. -/
structure Build where
  haveBrotli : Bool
  haveLibz : Bool

section Encodings

inductive Encoding where
  | identity
  | deflate
  | gzip
  | brotli
  deriving DecidableEq, Repr

def Encoding.name : Encoding → String
  | .identity => "identity"
  | .deflate => "deflate"
  | .gzip => "gzip"
  | .brotli => "br"

structure Qualities where
  identity : ℚ
  deflate : ℚ
  gzip : ℚ
  brotli : ℚ
  deriving DecidableEq, Repr

def unlessZero (old new : ℚ) : ℚ := if old = 0 then new else old

/-- The effect of one item of the header. -/
def Qualities.record (qs : Qualities) (name : Text) (quality : ℚ) : Qualities :=
  if name = "identity".toList then { qs with identity := quality }
  else if name = "deflate".toList then { qs with deflate := quality }
  else if name = "gzip".toList then { qs with gzip := quality }
  else if name = "br".toList then { qs with brotli := quality }
  else if name = "*".toList then
    ⟨unlessZero qs.identity quality, unlessZero qs.deflate quality, unlessZero qs.gzip quality,
      unlessZero qs.brotli quality⟩
  else qs

/-- One item: its name and its quality. -/
def encodingItem (numbers : Numbers) (item : Text) : Except Exception (Text × ℚ) :=
  match splitText item ";q=".toList with
  | [name] => .ok (name, 1)
  | [name, value] =>
      match numbers.stof value with
      | none => .error (.std "stof")
      | some (some q) => if 0 ≤ q ∧ q ≤ 1 then .ok (name, q) else .ok ([], 0)
      | some none => .ok ([], 0)
  | _ => .ok ([], 0)

def chooseEncoding (build : Build) (numbers : Numbers) (acceptEncoding : Text) :
    Except Exception Encoding := do
  let parts := splitText acceptEncoding ", ".toList
  let encodings := if parts = [] then ["*".toList] else parts
  let qs ← encodings.foldlM (fun qs item => do
    let (name, quality) ← encodingItem numbers item
    .ok (Qualities.record qs name quality)) (⟨0, 0, 0, 0⟩ : Qualities)
  if build.haveBrotli ∧ 0 < qs.brotli ∧ qs.identity ≤ qs.brotli ∧ qs.deflate ≤ qs.brotli ∧
      qs.gzip ≤ qs.brotli then .ok .brotli
  else if build.haveLibz ∧ 0 < qs.deflate ∧ qs.gzip ≤ qs.deflate ∧ qs.identity ≤ qs.deflate then
    .ok .deflate
  else if build.haveLibz ∧ 0 < qs.gzip ∧ qs.identity ≤ qs.gzip then .ok .gzip
  else if 0 < qs.identity then .ok .identity
  else .error (.notAcceptable
    "No acceptable content encoding found. Only identity and gzip are supported.")

def getEncoding (build : Build) (numbers : Numbers) (req : HttpRequest) :
    Except Exception Encoding :=
  match req.param "HTTP_ACCEPT_ENCODING" with
  | some acceptEncoding => chooseEncoding build numbers acceptEncoding.toList
  | none => .ok .identity

end Encodings

section MediaTypes

def mimeToString : MimeType → Except Exception String
  | .anyType => .ok "*/*"
  | .textPlain => .ok "text/plain"
  | .applicationXml => .ok "application/xml"
  | .applicationJson => .ok "application/json"
  | .unspecifiedType => .error (.std "No string conversion for unspecified MIME type.")

def mimeParseFrom (name : Text) : MimeType :=
  if name = "*".toList ∨ name = "*/*".toList ∨ name = "text/*".toList then .anyType
  else if name = "text/plain".toList then .textPlain
  else if name = "text/xml".toList ∨ name = "application/xml".toList then .applicationXml
  else if name = "application/json".toList then .applicationJson
  else .unspecifiedType

def invalidQ : Exception := .badRequest "Invalid q parameter value in accept header"

/-- A parameter of a media range; only `q` is used. -/
def acceptParameter (numbers : Numbers) (q : ℚ) (param : Text) : Except Exception ℚ :=
  match splitTrim param '=' with
  | [key, value] =>
      if key = "q".toList then
        match numbers.fromCharsFixed value with
        | some (some q') => if q' < 0 ∨ 1 < q' then .error invalidQ else .ok q'
        | some none => .error invalidQ
        | none => .error invalidQ
      else .ok q
  | _ => .error (.badRequest "Malformed parameter in accept header")

/-- One round of the loop in `AcceptHeader::parse`; a media type that the server does
not know is passed over. -/
def acceptElement (numbers : Numbers) (item : Text) : Except Exception (Option (MimeType × ℚ)) :=
  match splitTrim item ';' with
  | [] => .error (.badRequest "Malformed accept header")
  | first :: params =>
      let media := if first = "*".toList then "*/*".toList else first
      match splitTrim media '/' with
      | [type, subtype] =>
          if type = "*".toList ∧ subtype ≠ "*".toList then
            .error (.badRequest "Invalid wildcard in accept header media type")
          else if mimeParseFrom media = .unspecifiedType then .ok none
          else do
            let q ← params.foldlM (acceptParameter numbers) 1
            .ok (some (mimeParseFrom media, q))
      | _ => .error (.badRequest "Invalid accept header media type")

abbrev AcceptHeader := MimeType → Option ℚ

/-- The constructor of `AcceptHeader`. -/
def parseAccept (numbers : Numbers) (header : Text) : Except Exception AcceptHeader := do
  let items := splitTrim header ','
  if items = [] then .error (.badRequest "Invalid empty accept header")
  else
    let elements ← items.mapM (acceptElement numbers)
    .ok ((elements.filterMap id).foldl (fun mapping e => Function.update mapping e.1 (some e.2))
      (fun _ => none))

def AcceptHeader.isAcceptable (accept : AcceptHeader) (mt : MimeType) : Bool :=
  (accept mt).isSome || (accept .anyType).isSome

/-- The first loop of `most_acceptable_of`: the best type so far and its score. -/
def exactMatch (accept : AcceptHeader) (available : List MimeType) : MimeType × ℚ :=
  available.foldl (fun best mt =>
    match accept mt with
    | some q => if best.2 < q then (mt, q) else best
    | none => best) (.unspecifiedType, -1)

def AcceptHeader.mostAcceptableOf (accept : AcceptHeader) (available : List MimeType) : MimeType :=
  let best := (exactMatch accept available).1
  match available with
  | first :: _ => if best = .unspecifiedType ∧ (accept .anyType).isSome then first else best
  | [] => best

def mimeTypesToString (types : List MimeType) : Except Exception String := do
  let names ← types.mapM mimeToString
  .ok (String.intercalate ", " names)

def notAcceptableFor {α : Type} (path : Text) (types : List MimeType) : Except Exception α := do
  let names ← mimeTypesToString types
  .error (.notAcceptable s!"Acceptable formats for {String.ofList path} are: {names}")

/-- `choose_best_mime_type` of an `AcceptHeader`, for a responder with the given types
and the type that the path asks for. -/
def chooseAmong (accept : AcceptHeader) (available : List MimeType) (resourceType : MimeType)
    (path : Text) : Except Exception MimeType :=
  if resourceType ≠ .unspecifiedType then
    if resourceType ∉ available then notAcceptableFor path available
    else if accept.isAcceptable resourceType = false then notAcceptableFor path [resourceType]
    else .ok resourceType
  else
    let best := accept.mostAcceptableOf available
    if best = .unspecifiedType then notAcceptableFor path available
    else
      match available with
      | first :: _ => if best = .anyType then .ok first else .ok best
      | [] => .ok best

def chooseBestMimeType (numbers : Numbers) (req : HttpRequest) (available : List MimeType)
    (resourceType : MimeType) : Except HttpError MimeType := do
  let accept ← (parseAccept numbers ((req.param "HTTP_ACCEPT").getD "*/*").toList).mapError .thrown
  let path ← getRequestPath req
  (chooseAmong accept available resourceType path).mapError .thrown

end MediaTypes

end Cgimap.Http.Negotiation
