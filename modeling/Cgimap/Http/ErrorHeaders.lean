/- path: Cgimap/Http/ErrorHeaders
   generality: I
   source: src/http.cpp, src/process_request.cpp, src/request.cpp
   digest: The header block of an error response, and when it keeps its lines. -/

import Cgimap.Http.ProcessRequest
import Cgimap.Library.HeaderBlock
import Mathlib.Data.List.Sublists

set_option autoImplicit false
set_option relaxedAutoImplicit false

namespace Cgimap.Http.ErrorHeaders

open Cgimap.Library.HeaderBlock
open Cgimap.Http.Requests
open Cgimap.Http.Routing
open Cgimap.Http.ProcessRequest

section Source

def formatHeader (status : Nat) (headers : List (String × String)) : Text :=
  headers.foldl (fun hdr h => hdr ++ (h.1 ++ ": " ++ h.2 ++ "\r\n").toList)
    ("Status: " ++ toString status ++ " " ++ statusMessage status ++ "\r\n").toList ++ "\r\n".toList

/-- The header of an error that says when to come back. -/
def retryHeader (retrySeconds : Option Int) : List (String × String) :=
  (retrySeconds.map (fun seconds => ("Retry-After", toString seconds))).toList

/-- The response of `respond_error` with the headers of the request's workflow. -/
def errorResponse (req : HttpRequest) (methods : List Method) (handler : Handler) (code : Nat)
    (message : String) (retrySeconds : Option Int) : Response :=
  finish req methods (successHeaders handler) (respondError req code message (retryHeader retrySeconds))

end Source

section Statement

/-- The headers of a response as they are sent, with the status in front. -/
def sentHeaders (r : Response) : List Header :=
  ("Status".toList, (toString r.status ++ " " ++ statusMessage r.status).toList) ::
    r.headers.map (fun h => (h.1.toList, h.2.toList))

/-- No header value breaks its line, and the block is read as it was meant. -/
structure Unsplit (r : Response) : Prop where
  values : ∀ h ∈ r.headers, Unbroken h.2.toList
  lines : (blockLines (formatHeader r.status r.headers)).length = (sentHeaders r).length
  parsed : parseBlock (formatHeader r.status r.headers) = some (sentHeaders r)

def asksForXml (req : HttpRequest) : Bool :=
  (req.param "HTTP_X_ERROR_FORMAT").any (fun f => iequals f.toList "xml".toList)

end Statement

section Writing

private theorem formatHeader_eq (r : Response) :
    formatHeader r.status r.headers = writeBlock (sentHeaders r) := by
  have loop : ∀ (hdr : Text) (headers : List (String × String)),
      headers.foldl (fun hdr h => hdr ++ (h.1 ++ ": " ++ h.2 ++ "\r\n").toList) hdr =
        hdr ++ (headers.map (fun h => (h.1.toList, h.2.toList))).flatMap
          (fun h => headerLine h ++ ['\r', '\n']) := by
    intro hdr headers
    induction headers generalizing hdr with
    | nil => simp
    | cons h headers ih =>
        rw [List.foldl_cons, ih, List.map_cons, List.flatMap_cons]
        simp [headerLine, String.toList_append]
  unfold formatHeader writeBlock sentHeaders
  rw [loop, List.flatMap_cons]
  simp [headerLine, String.toList_append]

private theorem unbroken_statusMessage (code : Nat) : Unbroken (statusMessage code).toList := by
  unfold statusMessage
  split <;> decide

private theorem unbroken_digits {s : List Char} (digits : ∀ c ∈ s, c.isDigit = true) : Unbroken s := by
  constructor
  · intro member
    exact absurd (digits _ member) (by decide)
  · intro member
    exact absurd (digits _ member) (by decide)

private theorem unbroken_nat (n : Nat) : Unbroken (toString n).toList := by
  refine unbroken_digits fun c member => ?_
  rw [Nat.toString_eq_ofList_toDigits, String.toList_ofList] at member
  exact Nat.isDigit_of_mem_toDigits (by decide) (by decide) member

private theorem unbroken_int (n : Int) : Unbroken (toString n).toList := by
  cases n with
  | ofNat n => exact unbroken_nat n
  | negSucc n =>
      have text : (toString (Int.negSucc n)).toList = '-' :: (toString (n + 1)).toList := by
        change ("-" ++ toString (n + 1)).toList = _
        rw [String.toList_append]
        rfl
      rw [text]
      exact Unbroken.append (s := ['-']) (by decide) (unbroken_nat (n + 1))

private theorem unbroken_listMethods (methods : List Method) : Unbroken (listMethods methods).toList := by
  have all : ∀ l ∈ Method.all.sublists, Unbroken (String.intercalate ", " (l.map Method.name)).toList := by
    decide +kernel
  exact all _ (List.mem_sublists.mpr List.filter_sublist)

end Writing

section Values

variable (req : HttpRequest) (methods : List Method) (handler : Handler) (code : Nat)
  (message : String) (retrySeconds : Option Int)

def Named (name : String) : Prop := ':' ∉ name.toList ∧ Unbroken name.toList

instance (name : String) : Decidable (Named name) := inferInstanceAs (Decidable (_ ∧ _))

private theorem defaultHeaders_named : ∀ h ∈ defaultHeaders req methods, Named h.1 := by
  unfold defaultHeaders
  cases req.param "HTTP_ORIGIN" with
  | none => exact fun h member => absurd member List.not_mem_nil
  | some origin =>
      simp only [List.forall_mem_cons]
      refine ⟨by decide, by decide, by decide, by decide, fun h member => absurd member List.not_mem_nil⟩

private theorem defaultHeaders_values :
    (∀ h ∈ defaultHeaders req methods, Unbroken h.2.toList) ↔
      ∀ origin, req.param "HTTP_ORIGIN" = some origin → Unbroken origin.toList := by
  unfold defaultHeaders
  cases req.param "HTTP_ORIGIN" with
  | none => exact iff_of_true (fun h member => absurd member List.not_mem_nil) nofun
  | some origin =>
      simp only [List.forall_mem_cons, Option.some.injEq, forall_eq']
      constructor
      · exact fun all => all.2.2.1
      · exact fun clean => ⟨by decide, unbroken_listMethods methods, clean, by decide,
          fun h member => absurd member List.not_mem_nil⟩

private theorem successHeaders_fine : ∀ h ∈ successHeaders handler, Named h.1 ∧ Unbroken h.2.toList := by
  intro h member
  unfold successHeaders at member
  split at member
  · rw [List.mem_singleton.mp member]
    decide
  · exact absurd member List.not_mem_nil

private theorem retryHeader_fine : ∀ h ∈ retryHeader retrySeconds, Named h.1 ∧ Unbroken h.2.toList := by
  intro h member
  cases retrySeconds with
  | none => exact absurd member List.not_mem_nil
  | some seconds =>
      rw [List.mem_singleton.mp member]
      exact ⟨show Named "Retry-After" by decide, unbroken_int seconds⟩

private theorem respondError_named :
    ∀ h ∈ (respondError req code message (retryHeader retrySeconds)).headers, Named h.1 := by
  unfold respondError
  split
  · intro h member
    rw [List.mem_singleton.mp member]
    decide
  · simp only [List.forall_mem_append, List.forall_mem_cons]
    refine ⟨⟨by decide, by decide, by decide, by decide, fun h member => absurd member List.not_mem_nil⟩,
      fun h member => (retryHeader_fine retrySeconds h member).1⟩

/-- The header with the message has no line feed, and the carriage returns of its beginning. -/
private theorem unbroken_message :
    Unbroken ((message.toList.take 250).map (fun c => if c = '\n' then ' ' else c)) ↔
      '\r' ∉ message.toList.take 250 := by
  unfold Unbroken
  simp only [List.mem_map, not_exists, not_and]
  constructor
  · intro both member
    exact both.1 '\r' member (by decide)
  · intro clean
    constructor
    · intro c member same
      split at same
      · cases same
      · exact clean (same ▸ member)
    · intro c member same
      split at same
      · cases same
      · exact absurd same (by assumption)

private theorem respondError_values :
    (∀ h ∈ (respondError req code message (retryHeader retrySeconds)).headers, Unbroken h.2.toList) ↔
      asksForXml req = true ∨ '\r' ∉ message.toList.take 250 := by
  unfold respondError
  rw [← asksForXml]
  by_cases xml : asksForXml req = true
  · rw [if_pos xml]
    refine iff_of_true (fun h member => ?_) (Or.inl xml)
    rw [List.mem_singleton.mp member]
    decide
  · rw [if_neg xml, or_iff_right xml, ← unbroken_message]
    simp only [List.forall_mem_append, List.forall_mem_cons, String.toList_ofList]
    constructor
    · exact fun all => all.1.2.2.1
    · exact fun clean => ⟨⟨by decide, unbroken_nat _, clean, by decide,
        fun h member => absurd member List.not_mem_nil⟩,
        fun h member => (retryHeader_fine retrySeconds h member).2⟩

/-- The block of an error response keeps its lines exactly when the message does not bring a
carriage return into its header, nor the request a line end. -/
theorem unsplit_iff :
    Unsplit (errorResponse req methods handler code message retrySeconds) ↔
      (asksForXml req = true ∨ '\r' ∉ message.toList.take 250) ∧
        ∀ origin, req.param "HTTP_ORIGIN" = some origin → Unbroken origin.toList := by
  have headers : (errorResponse req methods handler code message retrySeconds).headers =
      defaultHeaders req methods ++
        (respondError req code message (retryHeader retrySeconds)).headers ++
        (if (respondError req code message (retryHeader retrySeconds)).status = 200 then
          successHeaders handler else []) := rfl
  have success : ∀ h ∈ (if (respondError req code message (retryHeader retrySeconds)).status = 200 then
      successHeaders handler else []), Named h.1 ∧ Unbroken h.2.toList := by
    split
    · exact successHeaders_fine handler
    · exact fun h member => absurd member List.not_mem_nil
  have values : (∀ h ∈ (errorResponse req methods handler code message retrySeconds).headers,
      Unbroken h.2.toList) ↔ (asksForXml req = true ∨ '\r' ∉ message.toList.take 250) ∧
        ∀ origin, req.param "HTTP_ORIGIN" = some origin → Unbroken origin.toList := by
    rw [headers, List.forall_mem_append, List.forall_mem_append, defaultHeaders_values,
      respondError_values]
    exact ⟨fun all => ⟨all.1.2, all.1.1⟩,
      fun both => ⟨⟨both.2, both.1⟩, fun h member => (success h member).2⟩⟩
  have names : ∀ h ∈ (errorResponse req methods handler code message retrySeconds).headers, Named h.1 := by
    rw [headers, List.forall_mem_append, List.forall_mem_append]
    exact ⟨⟨defaultHeaders_named req methods, respondError_named req code message retrySeconds⟩,
      fun h member => (success h member).1⟩
  rw [← values]
  constructor
  · exact fun unsplit => unsplit.values
  · intro clean
    have writable : ∀ h ∈ sentHeaders (errorResponse req methods handler code message retrySeconds),
        Writable h := by
      intro h member
      rcases List.mem_cons.mp member with rfl | later
      · refine ⟨show Named "Status" by decide, ?_⟩
        rw [String.toList_append, String.toList_append]
        exact ((unbroken_nat _).append (by decide)).append (unbroken_statusMessage _)
      · obtain ⟨own, listed, rfl⟩ := List.mem_map.mp later
        exact ⟨names own listed, clean own listed⟩
    refine ⟨clean, ?_, ?_⟩
    · rw [formatHeader_eq, blockLines_writeBlock writable, List.length_map]
    · rw [formatHeader_eq, parseBlock_writeBlock writable]

/-- A tag key with a carriage return, as the message quotes it. -/
theorem not_unsplit_sampleKey :
    ¬∀ (req : HttpRequest) (methods : List Method) (handler : Handler) (code : Nat) (message : String)
      (retrySeconds : Option Int),
        (∀ origin, req.param "HTTP_ORIGIN" = some origin → Unbroken origin.toList) →
          Unsplit (errorResponse req methods handler code message retrySeconds) := by
  intro all
  have unsplit := all ⟨fun _ => none, 0, .error (.badRequest "")⟩ [.post] (.updates (.upload 1)) 400
    "Node -1 has duplicate tags with key a\rb" none nofun
  exact absurd (unsplit.values ("Error", "Node -1 has duplicate tags with key a\rb")
    (by decide)) (by decide)

end Values

end Cgimap.Http.ErrorHeaders
