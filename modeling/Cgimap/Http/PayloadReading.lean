/- path: Cgimap/Http/PayloadReading
   generality: I
   source: src/fcgi_request.cpp, src/zlib.cpp, src/http.cpp, test/test_request.cpp
   digest: A payload that is read piece by piece, and what is accepted of it. -/

import Cgimap.Http.Negotiation
import Cgimap.Library.ExceptLists
import Cgimap.Library.StreamCoder
import Mathlib.Order.Filter.AtTopBot.Basic

/-!
The functions of zlib are parameters. What its documentation says about `inflate` is the
structure `Inflates`: for each format there is what a stream decodes to so far, and
whether it is corrupt.
-/

set_option autoImplicit false
set_option relaxedAutoImplicit false

namespace Cgimap.Http.PayloadReading

open Cgimap.Library.ExceptLists
open Cgimap.Library.StreamCoder
open Cgimap.Model.Types
open Cgimap.Http.Requests
open Cgimap.Http.Negotiation
open Filter (atTop)

abbrev Bytes := List UInt8

section Headers

def isspace (c : Char) : Bool := c = ' ' || ('\t' ≤ c && c ≤ '\r')

/-- `strtol` with the base 10: the value and what stands behind it. -/
def strtol (s : Text) : Int × Text :=
  let body := s.dropWhile isspace
  let unsigned := if body.head? = some '-' ∨ body.head? = some '+' then body.tail else body
  let digits := unsigned.takeWhile Char.isDigit
  if digits = [] then (0, s)
  else
    let v : Int := if body.head? = some '-' then -(decimalValue digits : Int) else decimalValue digits
    (max (-2 ^ 63) (min v (2 ^ 63 - 1)), unsigned.dropWhile Char.isDigit)

def parseContentLength (maxSize : Nat) (s : Text) : Except Exception Nat :=
  let (length, rest) := strtol s
  if rest = s then .error (.badRequest "CONTENT_LENGTH not a decimal number")
  else if rest ≠ [] then .error (.badRequest "CONTENT_LENGTH: extra characters at end of input")
  else if length < 0 then .error (.badRequest "CONTENT_LENGTH: invalid value")
  else if (maxSize : Int) < length then
    .error (.payloadTooLarge s!"CONTENT_LENGTH exceeds limit of {maxSize} bytes")
  else .ok length.toNat

/-- The subclasses of `ZLibBaseDecompressor`. -/
inductive Handler where
  | identity
  | inflating (windowBits : Nat)
  deriving DecidableEq, Repr

def getContentEncodingHandler (build : Build) (contentEncoding : String) : Except Exception Handler :=
  if contentEncoding = "" ∨ contentEncoding = "identity" then .ok .identity
  else if build.haveLibz = true then
    if contentEncoding = "gzip" then .ok (.inflating (15 + 16))
    else if contentEncoding = "deflate" then .ok (.inflating 15)
    else .error (.http 415 "Supported Content-Encodings include 'gzip' and 'deflate'")
  else .error (.http 415 "Supported Content-Encodings are 'identity'")

end Headers

section Decompression

inductive InflateStatus where
  | ok
  | streamEnd
  | needDict
  | dataError
  | memError
  | bufError
  deriving DecidableEq, Repr

/-- The codes that `decompress` takes for errors. -/
def InflateStatus.failed : InflateStatus → Bool
  | .needDict | .dataError | .memError => true
  | .ok | .streamEnd | .bufError => false

/-- The functions of zlib that decompress. -/
structure Inflater where
  Stream : Type
  inflateInit2 : Nat → Stream
  inflate : Stream → Bytes → Nat → Call Stream UInt8 InflateStatus

def zlibCompleteChunk : Nat := 16384

/-- The members of a `ZLibBaseDecompressor`; without `use_decompression` it has no stream. -/
inductive Decompressor (z : Inflater) where
  | identity
  | inflating (stream : z.Stream)

def Handler.decompressor (z : Inflater) : Handler → Decompressor z
  | .identity => .identity
  | .inflating windowBits => .inflating (z.inflateInit2 windowBits)

/-- Pieces of at most `size` bytes, in as many rounds as are needed. -/
def windowsFrom (size : Nat) : Nat → Bytes → List Bytes
  | 0, _ => []
  | rounds + 1, l => if l = [] then [] else l.take size :: windowsFrom size rounds (l.drop size)

def inputWindows (input : Bytes) : List Bytes := windowsFrom zlibCompleteChunk input.length input

variable (z : Inflater) (fuel : Nat)

/-- The inner loop: `inflate` is called until it leaves room in the output window. -/
def inflateWindow (stream : z.Stream) (window : Bytes) : Except Exception (z.Stream × Bytes) :=
  match pump z.inflate zlibCompleteChunk (fun status availOut _ => !status.failed && availOut = 0)
      fuel ⟨stream, [], []⟩ window with
  | none => .error .outOfFuel
  | some (w, _, status) =>
      if status.failed then .error (.std "Zlib decompression failed") else .ok (w.stream, w.output)

def decompress : Decompressor z → Bytes → Except Exception (Decompressor z × Bytes)
  | .identity, input => .ok (.identity, input)
  | .inflating stream, input => do
      let (stream, result) ← (inputWindows input).foldlM (fun (s : z.Stream × Bytes) window => do
        let (stream, out) ← inflateWindow z fuel s.1 window
        .ok (stream, s.2 ++ out)) (stream, [])
      .ok (.inflating stream, result)

end Decompression

section Reading

variable (z : Inflater) (build : Build) (maxSize fuel : Nat)

/-- The variables of the loop of `get_payload`. -/
structure PayloadLoop where
  handler : Decompressor z
  resultLength : Nat
  result : Bytes

def decompressionFailed : Exception → Exception
  | .outOfFuel => .outOfFuel
  | _ => .badRequest "Payload cannot be decompressed according to Content-Encoding"

/-- One round of the loop of `get_payload`. -/
def readPiece (p : PayloadLoop z) (content : Bytes) : Except Exception (PayloadLoop z) := do
  let (handler, decompressed) ← (decompress z fuel p.handler content).mapError decompressionFailed
  let result := p.result ++ decompressed
  if maxSize < result.length then
    .error (.payloadTooLarge s!"Payload exceeds limit of {maxSize} bytes")
  else .ok ⟨handler, p.resultLength + content.length, result⟩

def declared (param : String → Option String) : Except Exception (Handler × Nat) := do
  let handler ← getContentEncodingHandler build ((param "HTTP_CONTENT_ENCODING").getD "")
  let contentLength ← match param "CONTENT_LENGTH" with
    | some s => parseContentLength maxSize s.toList
    | none => .ok 0
  .ok (handler, contentLength)

/-- `get_payload`, where `reads` is what `FCGX_GetStr` gives until there is nothing more. -/
def getPayload (param : String → Option String) (reads : List Bytes) : Except Exception Bytes := do
  let (handler, contentLength) ← declared build maxSize param
  let p ← reads.foldlM (readPiece z maxSize fuel) ⟨handler.decompressor z, 0, []⟩
  if 0 < contentLength ∧ p.resultLength ≠ contentLength then
    .error (.serverError "HTTP Header field 'Content-Length' differs from actual payload length")
  else .ok p.result

end Reading

section Windows

theorem flatten_windowsFrom {size : Nat} (positive : 0 < size) {rounds : Nat} {l : Bytes}
    (enough : l.length ≤ rounds) : (windowsFrom size rounds l).flatten = l := by
  induction rounds generalizing l with
  | zero => exact (List.length_eq_zero_iff.mp (Nat.le_zero.mp enough)).symm
  | succ rounds ih =>
      rw [windowsFrom]
      split
      · rename_i empty
        exact empty.symm
      · rename_i some
        have less : (l.drop size).length ≤ rounds := by
          have long := List.length_pos_iff.mpr some
          rw [List.length_drop]
          omega
        rw [List.flatten_cons, ih less, List.take_append_drop]

theorem flatten_inputWindows (input : Bytes) : (inputWindows input).flatten = input :=
  flatten_windowsFrom (by decide) (Nat.le_refl _)

end Windows

section Contract

/-- What the documentation of `inflate` promises about the streams of each format. -/
structure Inflates (z : Inflater) where
  result : Nat → Bytes → Bytes
  corrupt : Nat → Bytes → Prop
  decodes : ∀ windowBits, Decodes (z.inflateInit2 windowBits) z.inflate InflateStatus.failed
    (result windowBits) (corrupt windowBits)

variable {z : Inflater} (i : Inflates z)

def Inflates.decoded : Handler → Bytes → Bytes
  | .identity, body => body
  | .inflating windowBits, body => i.result windowBits body

def Inflates.Corrupt : Handler → Bytes → Prop
  | .identity, _ => False
  | .inflating windowBits, body => i.corrupt windowBits body

theorem Inflates.corrupt_append {h : Handler} {body : Bytes} (more : Bytes)
    (bad : i.Corrupt h body) : i.Corrupt h (body ++ more) := by
  cases h with
  | identity => exact bad
  | inflating windowBits => exact (i.decodes windowBits).corrupt_append more bad

theorem Inflates.decoded_append (h : Handler) (body more : Bytes) :
    i.decoded h body <+: i.decoded h (body ++ more) := by
  cases h with
  | identity => exact List.prefix_append _ _
  | inflating windowBits => exact (i.decodes windowBits).result_append body more

/-- The decompressor has done all that can be done for a part of the payload. -/
def Inflates.Ready : Handler → Decompressor z → Bytes → Prop
  | .identity, .identity, _ => True
  | .inflating windowBits, .inflating stream, body =>
      (i.decodes windowBits).Settled stream body ∧ ¬ i.corrupt windowBits body
  | .identity, .inflating _, _ => False
  | .inflating _, .identity, _ => False

theorem Inflates.ready_start (h : Handler) : i.Ready h (h.decompressor z) [] := by
  cases h with
  | identity => trivial
  | inflating windowBits => exact ⟨(i.decodes windowBits).settled_start, (i.decodes windowBits).sound_nil⟩

end Contract

section Pieces

variable {z : Inflater} (i : Inflates z)

private theorem inflateWindow_eventually {windowBits : Nat} {stream : z.Stream} {body : Bytes}
    (window : Bytes) (settled : (i.decodes windowBits).Settled stream body) :
    (∀ᶠ fuel in atTop, inflateWindow z fuel stream window =
        .error (.std "Zlib decompression failed")) ∧ i.corrupt windowBits (body ++ window) ∨
      ∃ stream' out, (∀ᶠ fuel in atTop, inflateWindow z fuel stream window = .ok (stream', out)) ∧
        i.result windowBits body ++ out = i.result windowBits (body ++ window) ∧
        (i.decodes windowBits).Settled stream' (body ++ window) ∧
        ¬ i.corrupt windowBits (body ++ window) := by
  obtain ⟨enough, w, rest, status, run, outcome⟩ := (i.decodes windowBits).pump_all
    (fun status availOut _ => !status.failed && availOut = 0) (by simp)
    ((i.decodes windowBits).offer window settled) (show 0 < zlibCompleteChunk by decide)
  have result : ∀ᶠ fuel in atTop, inflateWindow z fuel stream window =
      if status.failed then .error (.std "Zlib decompression failed") else .ok (w.stream, w.output) := by
    filter_upwards [Filter.eventually_ge_atTop enough] with fuel more
    unfold inflateWindow
    rw [run fuel more]
  rcases outcome with ⟨fails, bad⟩ | ⟨works, sound, all, ready⟩
  · rw [if_pos fails] at result
    exact .inl ⟨result, bad⟩
  · rw [if_neg (by rw [works]; decide)] at result
    exact .inr ⟨w.stream, w.output, result, all, ready, sound⟩

private theorem inflateWindows_eventually {windowBits : Nat} (windows : List Bytes)
    (done : Bytes) {stream : z.Stream} {body : Bytes} (settled : (i.decodes windowBits).Settled stream body)
    (sound : ¬ i.corrupt windowBits body) :
    (∀ᶠ fuel in atTop, windows.foldlM (fun (s : z.Stream × Bytes) window => do
          let (stream, out) ← inflateWindow z fuel s.1 window
          Except.ok (stream, s.2 ++ out)) (stream, done) =
        .error (.std "Zlib decompression failed")) ∧ i.corrupt windowBits (body ++ windows.flatten) ∨
      ∃ stream' out, (∀ᶠ fuel in atTop, windows.foldlM (fun (s : z.Stream × Bytes) window => do
            let (stream, out) ← inflateWindow z fuel s.1 window
            Except.ok (stream, s.2 ++ out)) (stream, done) = .ok (stream', done ++ out)) ∧
        i.result windowBits body ++ out = i.result windowBits (body ++ windows.flatten) ∧
        (i.decodes windowBits).Settled stream' (body ++ windows.flatten) ∧
        ¬ i.corrupt windowBits (body ++ windows.flatten) := by
  induction windows generalizing stream body done with
  | nil =>
      refine .inr ⟨stream, [], .of_forall fun fuel => ?_, ?_⟩
      · rw [List.append_nil]
        rfl
      · simpa using ⟨settled, sound⟩
  | cons window windows ih =>
      rw [List.flatten_cons, ← List.append_assoc]
      rcases inflateWindow_eventually i window settled with ⟨fails, bad⟩ | ⟨s', out, works, all, ready, clean⟩
      · refine .inl ⟨?_, (i.decodes windowBits).corrupt_append _ bad⟩
        filter_upwards [fails] with fuel failed
        rw [List.foldlM_cons, failed]
        rfl
      · rcases ih (done ++ out) ready clean with ⟨fails, bad⟩ | ⟨s'', out', works', all', rest⟩
        · refine .inl ⟨?_, bad⟩
          filter_upwards [works, fails] with fuel first failed
          rw [List.foldlM_cons, first]
          exact failed
        · refine .inr ⟨s'', out ++ out', ?_, ?_, rest⟩
          · filter_upwards [works, works'] with fuel first next
            rw [List.foldlM_cons, first, ← List.append_assoc]
            exact next
          · rw [← List.append_assoc, all, all']

private theorem decompress_eventually {h : Handler} {d : Decompressor z} {body : Bytes}
    (piece : Bytes) (ready : i.Ready h d body) :
    (∀ᶠ fuel in atTop, decompress z fuel d piece = .error (.std "Zlib decompression failed")) ∧
        i.Corrupt h (body ++ piece) ∨
      ∃ d' out, (∀ᶠ fuel in atTop, decompress z fuel d piece = .ok (d', out)) ∧
        i.decoded h body ++ out = i.decoded h (body ++ piece) ∧ i.Ready h d' (body ++ piece) := by
  cases h with
  | identity =>
      cases d with
      | identity => exact .inr ⟨.identity, piece, .of_forall fun fuel => rfl, rfl, trivial⟩
      | inflating stream => exact ready.elim
  | inflating windowBits =>
      cases d with
      | identity => exact ready.elim
      | inflating stream =>
          have outcome := inflateWindows_eventually i (inputWindows piece) [] ready.1 ready.2
          rw [flatten_inputWindows] at outcome
          rcases outcome with ⟨fails, bad⟩ | ⟨s', out, works, all, settled, sound⟩
          · refine .inl ⟨?_, bad⟩
            filter_upwards [fails] with fuel failed
            rw [decompress, failed]
            rfl
          · refine .inr ⟨.inflating s', out, ?_, all, settled, sound⟩
            filter_upwards [works] with fuel done
            rw [decompress, done]
            rfl

private theorem sound_of_ready {h : Handler} {d : Decompressor z} {body : Bytes}
    (ready : i.Ready h d body) : ¬ i.Corrupt h body := by
  cases h with
  | identity => exact id
  | inflating windowBits =>
      cases d with
      | identity => exact ready.elim
      | inflating stream => exact ready.2

end Pieces

section Payloads

variable {z : Inflater} (i : Inflates z) (build : Build) (maxSize : Nat)

inductive Breaks (h : Handler) (body : Bytes) : Exception → Prop where
  | corrupt (bad : i.Corrupt h body) :
      Breaks h body (.badRequest "Payload cannot be decompressed according to Content-Encoding")
  | tooLarge (large : maxSize < (i.decoded h body).length) :
      Breaks h body (.payloadTooLarge s!"Payload exceeds limit of {maxSize} bytes")

/-- A payload that is accepted: the headers are right, the body is not corrupt, as long as
it is declared to be, and decodes to something that is not too large. -/
def Accepts (param : String → Option String) (body payload : Bytes) : Prop :=
  ∃ h n, declared build maxSize param = .ok (h, n) ∧ ¬ i.Corrupt h body ∧
    payload = i.decoded h body ∧ payload.length ≤ maxSize ∧ (0 < n → body.length = n)

inductive Refuses (param : String → Option String) (body : Bytes) : Exception → Prop where
  | headers {e : Exception} (failed : declared build maxSize param = .error e) : Refuses param body e
  | breaks {h : Handler} {n : Nat} {e : Exception} (headers : declared build maxSize param = .ok (h, n))
      (breaks : Breaks i maxSize h body e) : Refuses param body e
  | differs {h : Handler} {n : Nat} (headers : declared build maxSize param = .ok (h, n))
      (positive : 0 < n) (differs : body.length ≠ n) : Refuses param body
        (.serverError "HTTP Header field 'Content-Length' differs from actual payload length")

variable {i build maxSize}

theorem Breaks.append {h : Handler} {body : Bytes} {e : Exception} (breaks : Breaks i maxSize h body e)
    (more : Bytes) : Breaks i maxSize h (body ++ more) e := by
  cases breaks with
  | corrupt bad => exact .corrupt (i.corrupt_append more bad)
  | tooLarge large => exact .tooLarge (large.trans_le (i.decoded_append h body more).length_le)

theorem not_refuses {param : String → Option String} {body payload : Bytes} {e : Exception}
    (accepts : Accepts i build maxSize param body payload) :
    ¬ Refuses i build maxSize param body e := by
  obtain ⟨h, n, headers, sound, rfl, small, same⟩ := accepts
  intro refuses
  cases refuses with
  | headers failed =>
      rw [headers] at failed
      cases failed
  | breaks headers' breaks =>
      rw [headers] at headers'
      cases headers'
      cases breaks with
      | corrupt bad => exact sound bad
      | tooLarge large => exact absurd small (not_le.mpr large)
  | differs headers' positive differs =>
      rw [headers] at headers'
      cases headers'
      exact differs (same positive)

structure Represents (i : Inflates z) (maxSize : Nat) (h : Handler) (p : PayloadLoop z) (body : Bytes) :
    Prop where
  ready : i.Ready h p.handler body
  length : p.resultLength = body.length
  result : p.result = i.decoded h body
  small : p.result.length ≤ maxSize

private theorem readPiece_eventually {h : Handler} {p : PayloadLoop z} {body : Bytes} (piece : Bytes)
    (represents : Represents i maxSize h p body) :
    (∃ e, (∀ᶠ fuel in atTop, readPiece z maxSize fuel p piece = .error e) ∧
        Breaks i maxSize h (body ++ piece) e) ∨
      ∃ p', (∀ᶠ fuel in atTop, readPiece z maxSize fuel p piece = .ok p') ∧
        Represents i maxSize h p' (body ++ piece) := by
  rcases decompress_eventually i piece represents.ready with ⟨fails, bad⟩ | ⟨d, out, works, all, ready⟩
  · refine .inl ⟨_, ?_, .corrupt bad⟩
    filter_upwards [fails] with fuel failed
    rw [readPiece, failed]
    rfl
  · have whole : p.result ++ out = i.decoded h (body ++ piece) := by rw [represents.result, all]
    have result : ∀ᶠ fuel in atTop, readPiece z maxSize fuel p piece =
        if maxSize < (p.result ++ out).length then
          .error (.payloadTooLarge s!"Payload exceeds limit of {maxSize} bytes")
        else .ok ⟨d, p.resultLength + piece.length, p.result ++ out⟩ := by
      filter_upwards [works] with fuel done
      rw [readPiece, done]
      rfl
    by_cases large : maxSize < (p.result ++ out).length
    · rw [if_pos large] at result
      exact .inl ⟨_, result, .tooLarge (whole ▸ large)⟩
    · rw [if_neg large] at result
      refine .inr ⟨_, result, ready, ?_, whole, not_lt.mp large⟩
      rw [represents.length, List.length_append]

private theorem readPieces_eventually {h : Handler} (pieces : List Bytes) {p : PayloadLoop z} {body : Bytes}
    (represents : Represents i maxSize h p body) :
    (∃ e, (∀ᶠ fuel in atTop, pieces.foldlM (readPiece z maxSize fuel) p = .error e) ∧
        Breaks i maxSize h (body ++ pieces.flatten) e) ∨
      ∃ p', (∀ᶠ fuel in atTop, pieces.foldlM (readPiece z maxSize fuel) p = .ok p') ∧
        Represents i maxSize h p' (body ++ pieces.flatten) := by
  induction pieces generalizing p body with
  | nil =>
      rw [List.flatten_nil, List.append_nil]
      exact .inr ⟨p, .of_forall fun fuel => rfl, represents⟩
  | cons piece pieces ih =>
      rw [List.flatten_cons, ← List.append_assoc]
      rcases readPiece_eventually piece represents with ⟨e, fails, breaks⟩ | ⟨p', works, next⟩
      · refine .inl ⟨e, ?_, breaks.append _⟩
        filter_upwards [fails] with fuel failed
        rw [List.foldlM_cons, failed]
        rfl
      · rcases ih next with ⟨e, fails, breaks⟩ | ⟨p'', works', last⟩
        · refine .inl ⟨e, ?_, breaks⟩
          filter_upwards [works, fails] with fuel first failed
          rw [List.foldlM_cons, first]
          exact failed
        · refine .inr ⟨p'', ?_, last⟩
          filter_upwards [works, works'] with fuel first next
          rw [List.foldlM_cons, first]
          exact next

private theorem getPayload_of_headers {param : String → Option String} {h : Handler} {n fuel : Nat}
    (headers : declared build maxSize param = .ok (h, n)) (reads : List Bytes) :
    getPayload z build maxSize fuel param reads = (do
      let p ← reads.foldlM (readPiece z maxSize fuel) ⟨h.decompressor z, 0, []⟩
      if 0 < n ∧ p.resultLength ≠ n then .error (.serverError
        "HTTP Header field 'Content-Length' differs from actual payload length")
      else .ok p.result) := by
  rw [getPayload, headers]
  rfl

private theorem getPayload_eventually (param : String → Option String) (reads : List Bytes) :
    (∃ e, (∀ᶠ fuel in atTop, getPayload z build maxSize fuel param reads = .error e) ∧
        Refuses i build maxSize param reads.flatten e) ∨
      ∃ payload, (∀ᶠ fuel in atTop, getPayload z build maxSize fuel param reads = .ok payload) ∧
        Accepts i build maxSize param reads.flatten payload := by
  cases headers : declared build maxSize param with
  | error e =>
      refine .inl ⟨e, .of_forall fun fuel => ?_, .headers headers⟩
      rw [getPayload, headers]
      rfl
  | ok both =>
      obtain ⟨h, n⟩ := both
      have start : Represents i maxSize h ⟨h.decompressor z, 0, []⟩ [] := by
        refine ⟨i.ready_start h, rfl, ?_, Nat.zero_le _⟩
        cases h with
        | identity => rfl
        | inflating windowBits => exact (i.decodes windowBits).result_nil.symm
      rcases readPieces_eventually reads start with ⟨e, fails, breaks⟩ | ⟨p, works, last⟩
      · refine .inl ⟨e, ?_, .breaks headers breaks⟩
        filter_upwards [fails] with fuel failed
        rw [getPayload_of_headers headers, failed]
        rfl
      · rw [List.nil_append] at last
        have result : ∀ᶠ fuel in atTop, getPayload z build maxSize fuel param reads =
            if 0 < n ∧ p.resultLength ≠ n then .error (.serverError
              "HTTP Header field 'Content-Length' differs from actual payload length")
            else .ok p.result := by
          filter_upwards [works] with fuel done
          rw [getPayload_of_headers headers, done]
          rfl
        by_cases differs : 0 < n ∧ p.resultLength ≠ n
        · rw [if_pos differs] at result
          exact .inl ⟨_, result, .differs headers differs.1 (last.length ▸ differs.2)⟩
        · rw [if_neg differs] at result
          refine .inr ⟨p.result, result, h, n, headers, sound_of_ready i last.ready, last.result,
            last.small, fun positive => ?_⟩
          rw [← last.length]
          exact not_not.mp fun other => differs ⟨positive, other⟩

variable (build maxSize) (z)

/-- `get_payload` of the test suite, which has the whole payload at once. -/
def getPayloadAtOnce (fuel : Nat) (param : String → Option String) (body : Bytes) :
    Except Exception Bytes :=
  getPayload z build maxSize fuel param [body]

variable {z} (i)

/-- What is accepted of a payload, and as what, does not depend on the pieces in which it is
read, and agrees with reading it at once; what is refused is refused for a reason. -/
theorem payload_of_reads (param : String → Option String) (reads : List Bytes) :
    ∃ enough, ∀ fuel, enough ≤ fuel →
      (∀ payload, getPayload z build maxSize fuel param reads = .ok payload ↔
        Accepts i build maxSize param reads.flatten payload) ∧
      (∀ payload, getPayload z build maxSize fuel param reads = .ok payload ↔
        getPayloadAtOnce z build maxSize fuel param reads.flatten = .ok payload) ∧
      ∀ e, getPayload z build maxSize fuel param reads = .error e →
        Refuses i build maxSize param reads.flatten e := by
  have one : ∀ reads : List Bytes, ∀ᶠ fuel in atTop,
      (∀ payload, getPayload z build maxSize fuel param reads = .ok payload ↔
        Accepts i build maxSize param reads.flatten payload) ∧
      ∀ e, getPayload z build maxSize fuel param reads = .error e →
        Refuses i build maxSize param reads.flatten e := by
    intro reads
    rcases getPayload_eventually (i := i) param reads with ⟨e, fails, refuses⟩ | ⟨payload, works, accepts⟩
    · filter_upwards [fails] with fuel failed
      rw [failed]
      refine ⟨fun payload => iff_of_false (by simp) fun accepts => not_refuses accepts refuses, fun e' same => ?_⟩
      cases same
      exact refuses
    · filter_upwards [works] with fuel done
      rw [done]
      refine ⟨fun other => ⟨fun same => ?_, fun accepts' => ?_⟩, fun e same => ?_⟩
      · cases same
        exact accepts
      · obtain ⟨h, n, headers, -, rfl, -⟩ := accepts
        obtain ⟨h', n', headers', -, rfl, -⟩ := accepts'
        rw [headers] at headers'
        cases headers'
        rfl
      · cases same
  have whole := one [reads.flatten]
  rw [List.flatten_singleton] at whole
  obtain ⟨enough, holds⟩ := Filter.eventually_atTop.mp ((one reads).and whole)
  refine ⟨enough, fun fuel more => ?_⟩
  obtain ⟨⟨accepts, refuses⟩, atOnce, -⟩ := holds fuel more
  exact ⟨accepts, fun payload => (accepts payload).trans (atOnce payload).symm, refuses⟩

end Payloads

section Samples

def sampleGzip : Bytes :=
  [0x1f, 0x8b, 8, 0, 0, 0, 0, 0, 0, 3, 0x4b, 4, 0, 0x43, 0xbe, 0xb7, 0xe8, 1, 0, 0, 0]

def sampleResult (body : Bytes) : Bytes := if sampleGzip.take 12 <+: body then [97] else []

def sampleCorrupt (body : Bytes) : Prop := ¬ body <+: sampleGzip ∧ ¬ sampleGzip <+: body

instance (body : Bytes) : Decidable (sampleCorrupt body) :=
  inferInstanceAs (Decidable (_ ∧ _))

/-- A stream knows what it has taken, and how much it has put out. -/
def sampleInflater : Inflater where
  Stream := Bytes × Nat
  inflateInit2 _ := ([], 0)
  inflate s window room :=
    let body := s.1 ++ window
    if sampleCorrupt body then ⟨s, 0, [], .dataError⟩
    else
      let out := ((sampleResult body).drop s.2).take room
      ⟨(body, s.2 + out.length), window.length, out,
        if sampleGzip <+: body then .streamEnd else .ok⟩

private theorem sampleCorrupt_append {body : Bytes} (more : Bytes) (bad : sampleCorrupt body) :
    sampleCorrupt (body ++ more) := by
  refine ⟨fun short => bad.1 ((List.prefix_append body more).trans short), fun long => ?_⟩
  rcases List.prefix_or_prefix_of_prefix long (List.prefix_append body more) with whole | part
  · exact bad.2 whole
  · exact bad.1 part

private theorem sampleResult_append (body more : Bytes) :
    sampleResult body <+: sampleResult (body ++ more) := by
  unfold sampleResult
  split
  · rename_i known
    have both := known.trans (List.prefix_append body more)
    exact ⟨[], (List.append_nil _).trans (if_pos both).symm⟩
  · exact List.nil_prefix

def sampleInflates : Inflates sampleInflater where
  result _ := sampleResult
  corrupt _ := sampleCorrupt
  decodes _ :=
    { Live := fun s body rest out => s.1 ++ rest = body ∧ out.length = s.2 ∧ out <+: sampleResult body
      Settled := fun s body => s.1 = body ∧ s.2 = (sampleResult body).length
      settled_start := ⟨rfl, rfl⟩
      result_nil := rfl
      sound_nil := by decide
      corrupt_append := sampleCorrupt_append
      result_append := sampleResult_append
      prefix_result := fun live => live.2.2
      offer := fun more settled =>
        ⟨by rw [settled.1], settled.2.symm, sampleResult_append _ more⟩
      step := by
        rintro s _ rest out room ⟨rfl, length, t, result⟩ positive
        by_cases bad : sampleCorrupt (s.1 ++ rest)
        · exact .inl ⟨by simp [sampleInflater, bad, InflateStatus.failed], bad⟩
        · have left : (sampleResult (s.1 ++ rest)).drop s.2 = t := by
            rw [← result, ← length, List.drop_left]
          have called : sampleInflater.inflate s rest room = ⟨(s.1 ++ rest, s.2 + (t.take room).length),
              rest.length, t.take room, if sampleGzip <+: s.1 ++ rest then .streamEnd else .ok⟩ := by
            rw [← left]
            exact if_neg bad
          refine .inr ?_
          rw [called]
          refine ⟨?_, List.length_take_le _ _, ⟨?_, ?_, ?_⟩, fun less => ?_⟩
          · split <;> rfl
          · rw [List.drop_length, List.append_nil]
          · rw [List.length_append, length]
          · rw [← result, List.prefix_append_right_inj]
            exact List.take_prefix _ _
          · have all : t.take room = t := by
              rw [List.take_eq_self_iff]
              rw [List.length_take] at less
              omega
            rw [all, result]
            refine ⟨⟨rfl, ?_⟩, rfl, bad⟩
            rw [← result, List.length_append, length] }

def sampleHeaders (name : String) : Option String :=
  if name = "HTTP_CONTENT_ENCODING" then some "gzip"
  else if name = "CONTENT_LENGTH" then some "21" else none

/-- The payload is read in two pieces, the first one of which ends within the gzip header. -/
theorem payload_sampleGzip : ∃ enough, ∀ fuel, enough ≤ fuel →
    getPayload sampleInflater ⟨true, true⟩ 100 fuel sampleHeaders
      [sampleGzip.take 5, sampleGzip.drop 5] = .ok [97] := by
  obtain ⟨enough, holds⟩ := payload_of_reads sampleInflates ⟨true, true⟩ 100 sampleHeaders
    [sampleGzip.take 5, sampleGzip.drop 5]
  refine ⟨enough, fun fuel more => ((holds fuel more).1 [97]).mpr ?_⟩
  have sound : ¬ sampleCorrupt sampleGzip := by decide
  exact ⟨.inflating 31, 21, by decide +kernel, sound, rfl, by decide, fun _ => rfl⟩

end Samples

end Cgimap.Http.PayloadReading
