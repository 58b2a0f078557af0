/- path: Cgimap/Http/Requests
   generality: I
   source: include/cgimap/util.hpp, src/http.cpp, src/request_helpers.cpp, src/request.cpp
   digest: Requests as the server hands them over: texts, parameters, methods. -/

import Cgimap.Changeset.Responders

/-!
A text of the source is a sequence of bytes. It is a list of characters here, one
character for each byte.
-/

set_option autoImplicit false
set_option relaxedAutoImplicit false

namespace Cgimap.Http.Requests

open Cgimap.Model.Types
open Cgimap.Changeset.Responders

abbrev Text := List Char

section Texts

def isSpace (c : Char) : Bool := c = ' ' || c = '\t' || c = '\n' || c = '\r'

def trim (s : Text) : Text :=
  ((s.dropWhile isSpace).reverse.dropWhile isSpace).reverse

/-- `split`: an empty text has no parts. -/
def split (s : Text) (delim : Char) : List Text := if s = [] then [] else s.splitOn delim

def splitTrim (s : Text) (delim : Char) : List Text :=
  ((split s delim).map trim).filter (fun part => part ≠ [])

/-- The rounds of `std::views::split` with a text as delimiter, of which `skip`
characters are still to be passed over. -/
def splitTextFrom (delim : Text) : Nat → Text → Text → List Text
  | _, part, [] => [part.reverse]
  | skip + 1, part, _ :: s => splitTextFrom delim skip part s
  | 0, part, c :: s =>
      if delim.isPrefixOf (c :: s) then part.reverse :: splitTextFrom delim (delim.length - 1) [] s
      else splitTextFrom delim 0 (c :: part) s

def splitText (s delim : Text) : List Text := if s = [] then [] else splitTextFrom delim 0 [] s

def tolowerAscii (c : Char) : Char :=
  if 'A' ≤ c ∧ c ≤ 'Z' then Char.ofNat (c.toNat + 32) else c

def iequals (a b : Text) : Bool := a.map tolowerAscii = b.map tolowerAscii

def digitValue (c : Char) : Nat := c.toNat - '0'.toNat

def decimalValue (digits : Text) : Nat := digits.foldl (fun n c => 10 * n + digitValue c) 0

/-- `std::from_chars` for an unsigned type with values below `bound`: the digits in
front, unless there are none or too many. -/
def fromChars (bound : Nat) (s : Text) : Option Nat :=
  let digits := s.takeWhile Char.isDigit
  if digits = [] ∨ bound ≤ decimalValue digits then none else some (decimalValue digits)

def parseRubyNumber (bound : Nat) (s : Text) : Nat := (fromChars bound s).getD 0

end Texts

section Query

def isXdigit (c : Char) : Bool :=
  c.isDigit || ('a' ≤ c && c ≤ 'f') || ('A' ≤ c && c ≤ 'F')

/-- One digit in `hexToChar`: `0xDF` clears the bit for lower case. -/
def hexNibble (c : Char) : Nat :=
  if 'A'.toNat ≤ c.toNat then (c.toNat &&& 0xDF) - 'A'.toNat + 10 else digitValue c

/-- `hexToChar`, with its result as a byte. -/
def hexToChar (first second : Char) : Char := Char.ofNat (16 * hexNibble first + hexNibble second)

def urldecode : Text → Text
  | '+' :: s => ' ' :: urldecode s
  | '%' :: a :: b :: s =>
      if isXdigit a && isXdigit b then hexToChar a b :: urldecode s
      else '%' :: urldecode (a :: b :: s)
  | c :: s => c :: urldecode s
  | [] => []

/-- `parse_params`. A part with more than one `=` is dropped. -/
def parseParams (p : Text) : List (Text × Text) :=
  (split p '&').filterMap (fun kv =>
    match split kv '=' with
    | [key, value] => some (key, value)
    | [key] => some (key, [])
    | _ => none)

end Query

inductive Method where
  | get
  | post
  | put
  | head
  | options
  deriving DecidableEq, Repr

namespace Method

/-- `METHODS`, in the order of the map. -/
def all : List Method := [.get, .post, .put, .head, .options]

def name : Method → String
  | .get => "GET"
  | .post => "POST"
  | .put => "PUT"
  | .head => "HEAD"
  | .options => "OPTIONS"

end Method

def parseMethod (s : String) : Option Method := Method.all.find? (fun m => m.name = s)

def listMethods (methods : List Method) : String :=
  String.intercalate ", " ((Method.all.filter (fun m => m ∈ methods)).map Method.name)

/-- What leaves a function by `throw`, with the two classes that carry data beside
their message. -/
inductive HttpError where
  | thrown (e : Exception)
  | methodNotAllowed (allowed : List Method)
  | bandwidthLimitExceeded (retrySeconds : Int)
  deriving DecidableEq, Repr

/-- What the two parsers make of the payload. -/
structure Body where
  osmChange : Payload
  tags : Except Exception Tags

/-- A `request`: its environment, its time and what `get_payload` returns. -/
structure HttpRequest where
  param : String → Option String
  now : Int
  payload : Except Exception Body

section Helpers

variable (req : HttpRequest)

def fcgiGetEnv (name : String) : Except HttpError String :=
  match req.param name with
  | some v => .ok v
  | none => .error (.thrown (.serverError s!"request didn't set the ${name} environment variable."))

def nonemptyParam (name : String) : Option Text :=
  (req.param name).bind (fun v => if v.toList = [] then none else some v.toList)

def missingUri : HttpError :=
  .thrown (.serverError
    "request didn't set the $QUERY_STRING or $REQUEST_URI environment variables.")

def getQueryString : Except HttpError Text :=
  match nonemptyParam req "QUERY_STRING" with
  | some query => .ok query
  | none =>
      match nonemptyParam req "REQUEST_URI" with
      | none => .error missingUri
      | some uri => .ok ((uri.dropWhile (· ≠ '?')).drop 1)

def getRequestPath : Except HttpError Text :=
  match (nonemptyParam req "REQUEST_URI").or (nonemptyParam req "PATH_INFO") with
  | none => .error missingUri
  | some uri => .ok (uri.takeWhile (· ≠ '?'))

/-- The parameters of the query, as every handler decodes them. -/
def queryParams : Except HttpError (List (Text × Text)) := do
  let query ← getQueryString req
  .ok (parseParams (urldecode query))

end Helpers

end Cgimap.Http.Requests
