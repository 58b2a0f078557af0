/- path: Cgimap/Http/ErrorDocuments
   generality: I
   source: src/process_request.cpp
   digest: The body of an error response in XML, and when it carries its message. -/

import Cgimap.Http.ErrorHeaders
import Cgimap.Library.XmlText

set_option autoImplicit false
set_option relaxedAutoImplicit false

namespace Cgimap.Http.ErrorDocuments

open Cgimap.Library.XmlText
open Cgimap.Http.Requests
open Cgimap.Http.ProcessRequest
open Cgimap.Http.ErrorHeaders

section Source

/-- The document that `respond_error` formats. -/
def osmErrorText (code : Nat) (message : String) : Text :=
  ("<?xml version=\"1.0\" encoding=\"utf-8\" ?>\r\n<osmError>\r\n<status>" ++
    (toString code ++ " " ++ statusMessage code) ++ "</status>\r\n<message>" ++ message ++
    "</message>\r\n</osmError>\r\n").toList

/-- A body as it is put, unless a formatter writes it. -/
def sentText : ResponseBody → Option Text
  | .empty => some []
  | .text message => some message.toList
  | .osmError code message => some (osmErrorText code message)
  | .document _ _ _ => none

end Source

section Statement

def osmErrorName : Name := ['o', 's', 'm', 'E', 'r', 'r', 'o', 'r']

def messageName : Name := ['m', 'e', 's', 's', 'a', 'g', 'e']

def statusName : Name := ['s', 't', 'a', 't', 'u', 's']

/-- A text is a well-formed document whose message is a given text. -/
def CarriesMessage (text message : Text) : Prop :=
  ∃ out, readText text = some out ∧ textUnder [osmErrorName, messageName] out = message

end Statement

section Reading

def startTag (name : Name) : Text := '<' :: (name ++ ['>'])

def endTag (name : Name) : Text := '<' :: '/' :: (name ++ ['>'])

/-- The document in front of the message, with line feeds and without the declaration. -/
def beforeMessage (status : Text) : Text :=
  ('\n' :: startTag osmErrorName) ++ ('\n' :: startTag statusName) ++ status ++
    endTag statusName ++ ('\n' :: startTag messageName)

def afterMessage : Text :=
  endTag messageName ++ ('\n' :: endTag osmErrorName) ++ ['\n']

def declaration : Text :=
  ['<', '?', 'x', 'm', 'l', ' ', 'v', 'e', 'r', 's', 'i', 'o', 'n', '=', '"', '1', '.', '0', '"', ' ',
    'e', 'n', 'c', 'o', 'd', 'i', 'n', 'g', '=', '"', 'u', 't', 'f', '-', '8', '"', ' ', '?', '>']

private theorem withoutDeclaration_declaration (rest : Text) :
    withoutDeclaration (declaration ++ rest) = some rest := by
  have version : pseudoAttribute ((declaration ++ rest).drop 5) =
      some (versionWord, ['1', '.', '0'], (declaration ++ rest).drop 19) := rfl
  have encoding : pseudoAttribute ((declaration ++ rest).drop 19) =
      some (encodingWord, ['u', 't', 'f', '-', '8'], (declaration ++ rest).drop 36) := rfl
  have standalone : pseudoAttribute ((declaration ++ rest).drop 36) = none := rfl
  have encoded : skipEncoding ((declaration ++ rest).drop 19) = (declaration ++ rest).drop 36 := by
    unfold skipEncoding
    rw [encoding]
    exact if_pos ⟨rfl, by decide⟩
  have alone : skipStandalone ((declaration ++ rest).drop 36) = (declaration ++ rest).drop 36 := by
    unfold skipStandalone
    rw [standalone]
  unfold withoutDeclaration
  rw [if_pos ⟨rfl, rfl⟩]
  unfold skipDeclaration
  rw [version]
  dsimp only
  rw [if_pos ⟨rfl, by decide⟩, encoded, alone]
  rfl

private theorem normalizeLines_osmErrorText (code : Nat) (message : String)
    (clean : '\r' ∉ (toString code ++ " " ++ statusMessage code).toList) :
    withoutDeclaration (normalizeLines (osmErrorText code message)) =
      some (beforeMessage (toString code ++ " " ++ statusMessage code).toList ++
        (normalizeLines message.toList ++ afterMessage)) := by
  have opening : normalizeFrom false
      "<?xml version=\"1.0\" encoding=\"utf-8\" ?>\r\n<osmError>\r\n<status>".toList =
        declaration ++ (('\n' :: startTag osmErrorName) ++ ('\n' :: startTag statusName)) := by
    decide +kernel
  have opened : endsInReturn false
      "<?xml version=\"1.0\" encoding=\"utf-8\" ?>\r\n<osmError>\r\n<status>".toList = false := by
    decide +kernel
  have middle : normalizeFrom false "</status>\r\n<message>".toList =
      endTag statusName ++ ('\n' :: startTag messageName) := by decide +kernel
  have passed : endsInReturn false "</status>\r\n<message>".toList = false := by decide +kernel
  have closing : ∀ afterReturn, normalizeFrom afterReturn "</message>\r\n</osmError>\r\n".toList =
      afterMessage := by
    intro afterReturn
    cases afterReturn <;> decide +kernel
  unfold osmErrorText normalizeLines
  generalize toString code ++ " " ++ statusMessage code = status at clean
  rw [String.toList_append, String.toList_append, String.toList_append, String.toList_append,
    List.append_assoc, List.append_assoc, List.append_assoc, normalizeFrom_append, normalizeFrom_append,
    normalizeFrom_append, normalizeFrom_append, opening, opened, endsInReturn_eq_false clean,
    normalizeFrom_eq_self clean, middle, passed, closing, List.append_assoc,
    withoutDeclaration_declaration]
  simp only [beforeMessage, List.append_assoc]

def placedBefore (status : Text) : List Placed :=
  ([osmErrorName], '\n') :: (status.map (Prod.mk [statusName, osmErrorName]) ++ [([osmErrorName], '\n')])

private theorem run_beforeMessage {status : Text} (chars : ∀ c ∈ status, isXmlChar c = true)
    (plain : plainFrom 0 status = true) (rest : Text) :
    Reader.start.run (beforeMessage status ++ rest) =
      (Reader.run ⟨[messageName, osmErrorName], true, .content 0⟩ rest).map
        (fun p => (p.1, placedBefore status ++ p.2)) := by
  have newline : ∀ c ∈ ['\n'], isXmlChar c = true := List.all_eq_true.mp rfl
  have inRoot : [osmErrorName] ≠ [] := List.cons_ne_nil _ _
  have inStatus : [statusName, osmErrorName] ≠ [] := List.cons_ne_nil _ _
  have shape : beforeMessage status ++ rest = '\n' :: '<' :: (osmErrorName ++ '>' :: (['\n'] ++
      '<' :: (statusName ++ '>' :: (status ++ '<' :: '/' :: (statusName ++ '>' :: (['\n'] ++
        '<' :: (messageName ++ '>' :: rest))))))) := by
    simp [beforeMessage, startTag, endTag]
  obtain ⟨_, firstLine⟩ := Reader.run_plain_append inRoot true newline 0 rfl
    ('<' :: (statusName ++ '>' :: (status ++ '<' :: '/' :: (statusName ++ '>' :: (['\n'] ++
      '<' :: (messageName ++ '>' :: rest))))))
  obtain ⟨_, statusLine⟩ := Reader.run_plain_append inStatus true chars 0 plain
    ('<' :: '/' :: (statusName ++ '>' :: (['\n'] ++ '<' :: (messageName ++ '>' :: rest))))
  obtain ⟨_, secondLine⟩ := Reader.run_plain_append inRoot true newline 0 rfl
    ('<' :: (messageName ++ '>' :: rest))
  rw [shape, Reader.run_of_step (show Reader.start.step '\n' = some (Reader.start, []) from rfl), Reader.start,
    Reader.run_startTag (by decide +kernel) (Or.inr rfl), firstLine,
    Reader.run_startTag (by decide +kernel) (Or.inl inRoot), statusLine,
    Reader.run_endTag (by decide +kernel)]
  dsimp only
  rw [if_pos rfl, secondLine, Reader.run_startTag (by decide +kernel) (Or.inl inRoot)]
  simp [Option.map_map, placedBefore, Function.comp_def]

private theorem afterMessage_eq : afterMessage = '<' :: '/' :: (messageName ++ '>' :: (['\n'] ++
    '<' :: '/' :: (osmErrorName ++ '>' :: ['\n']))) := rfl

private theorem run_closing {top second : Name} {path : List Name} (rooted : Bool) (brackets : Nat) :
    Reader.run ⟨top :: second :: path, rooted, .content brackets⟩ afterMessage =
      if top = messageName ∧ second = osmErrorName then
        (Reader.run ⟨path, rooted, .content 0⟩ ['\n']).map
          (fun p => (p.1, (second :: path, '\n') :: p.2))
      else none := by
  have inside : second :: path ≠ [] := List.cons_ne_nil _ _
  obtain ⟨_, line⟩ := Reader.run_plain_append inside rooted (s := ['\n']) (List.all_eq_true.mp rfl) 0 rfl
    ('<' :: '/' :: (osmErrorName ++ '>' :: ['\n']))
  rw [afterMessage_eq, Reader.run_endTag (by decide +kernel)]
  dsimp only
  by_cases first : top = messageName
  · rw [if_pos first, line, Reader.run_endTag (by decide +kernel)]
    dsimp only
    by_cases root : second = osmErrorName
    · rw [if_pos root, if_pos ⟨first, root⟩]
      rfl
    · rw [if_neg root, if_neg (fun both => root both.2)]
      rfl
  · rw [if_neg first, if_neg (fun both => first both.1)]

private theorem run_afterMessage {r next : Reader} {out : List Placed}
    (runs : r.run afterMessage = some (next, out)) (done : next.done = true) :
    out = [([osmErrorName], '\n')] := by
  have neither : ('/' :: (messageName ++ '>' :: (['\n'] ++ '<' :: '/' :: (osmErrorName ++ '>' :: ['\n'])))).all
      (fun c => decide (c ≠ '-' ∧ c ≠ '?' ∧ c ≠ ']')) = true := by decide
  obtain ⟨brackets, mode⟩ := Reader.content_of_done
    (fun c member => of_decide_eq_true (List.all_eq_true.mp neither c member)) runs done
  obtain ⟨path, rooted, _⟩ := r
  subst mode
  match path with
  | [] =>
      rw [afterMessage_eq, Reader.run_endTag (by decide +kernel)] at runs
      cases runs
  | [top] =>
      rw [afterMessage_eq, Reader.run_endTag (by decide +kernel)] at runs
      dsimp only at runs
      split at runs
      · rw [List.singleton_append, Reader.run_of_step
          (show Reader.step _ '\n' = some (⟨[], rooted, .content 0⟩, []) from rfl), Reader.run_endTag (by decide +kernel)] at runs
        cases runs
      · cases runs
  | top :: second :: path =>
      rw [run_closing] at runs
      split at runs
      next both =>
        obtain ⟨-, rfl⟩ := both
        cases path with
        | nil =>
            cases runs
            rfl
        | cons third path =>
            cases runs
            cases done
      next => cases runs

private theorem run_afterMessage_open (brackets : Nat) :
    ∃ next, Reader.run ⟨[messageName, osmErrorName], true, .content brackets⟩ afterMessage =
      some (next, [([osmErrorName], '\n')]) ∧ next.done = true := by
  rw [run_closing, if_pos ⟨rfl, rfl⟩]
  exact ⟨_, rfl, rfl⟩

end Reading

section Messages

private theorem status_chars (code : Nat) {c : Char}
    (member : c ∈ (toString code ++ " " ++ statusMessage code).toList) :
    isXmlChar c = true ∧ c ≠ '<' ∧ c ≠ '&' ∧ c ≠ ']' ∧ c ≠ '\r' := by
  rw [String.toList_append, String.toList_append, List.mem_append, List.mem_append] at member
  rcases member with (digit | blank) | word
  · rw [Nat.toString_eq_ofList_toDigits, String.toList_ofList] at digit
    have isDigit := Nat.isDigit_of_mem_toDigits (by decide) (by decide) digit
    refine ⟨?_, ?_⟩
    · simp only [Char.isDigit, Bool.and_eq_true, decide_eq_true_eq, ge_iff_le, UInt32.le_iff_toNat_le] at isDigit
      simp only [isXmlChar, inRanges, List.any_cons, List.any_nil, Bool.or_eq_true, Bool.and_eq_true,
        decide_eq_true_eq, Char.toNat]
      have low : 48 ≤ c.val.toNat := isDigit.1
      have high : c.val.toNat ≤ 57 := isDigit.2
      omega
    · refine ⟨?_, ?_, ?_, ?_⟩
      all_goals
        rintro rfl
        exact absurd isDigit (by decide)
  · have only : c = ' ' := by simpa using blank
    subst only
    decide
  · have all : (statusMessage code).toList.all (fun d =>
        decide (isXmlChar d = true ∧ d ≠ '<' ∧ d ≠ '&' ∧ d ≠ ']' ∧ d ≠ '\r')) = true := by
      unfold statusMessage
      split <;> decide
    exact of_decide_eq_true (List.all_eq_true.mp all c word)

variable {code : Nat} {message : String}

private theorem readText_osmErrorText (code : Nat) (message : String) :
    readText (osmErrorText code message) =
      match Reader.run ⟨[messageName, osmErrorName], true, .content 0⟩
          (normalizeLines message.toList ++ afterMessage) with
      | some (r, out) =>
          if r.done then some (placedBefore (toString code ++ " " ++ statusMessage code).toList ++ out)
          else none
      | none => none := by
  have clean : '\r' ∉ (toString code ++ " " ++ statusMessage code).toList := fun member =>
    (status_chars code member).2.2.2.2 rfl
  have plain : plainFrom 0 (toString code ++ " " ++ statusMessage code).toList = true := by
    rw [plainFrom_zero]
    refine ⟨fun member => (status_chars code member).2.1 rfl,
      fun member => (status_chars code member).2.2.1 rfl, fun inside => ?_⟩
    exact (status_chars code (inside.subset (by decide : ']' ∈ sectionEnd))).2.2.2.1 rfl
  unfold readText
  rw [normalizeLines_osmErrorText code message clean]
  dsimp only
  rw [run_beforeMessage (fun c member => (status_chars code member).1) plain]
  cases Reader.run ⟨[messageName, osmErrorName], true, .content 0⟩
      (normalizeLines message.toList ++ afterMessage) with
  | none => rfl
  | some p => rfl

private theorem textUnder_placedBefore (status : Text) :
    textUnder [osmErrorName, messageName] (placedBefore status) = [] := by
  have parts : placedBefore status = ['\n'].map (Prod.mk [osmErrorName]) ++
      (status.map (Prod.mk [statusName, osmErrorName]) ++ ['\n'].map (Prod.mk [osmErrorName])) := rfl
  rw [parts, textUnder_append, textUnder_append, textUnder_map, textUnder_map, if_neg (by decide),
    if_neg (by decide)]
  rfl

variable (code) in
/-- The document carries its message exactly when the message has no markup of its own. -/
private theorem osmErrorText_carries (chars : ∀ c ∈ message.toList, isXmlChar c = true) :
    CarriesMessage (osmErrorText code message) message.toList ↔
      '<' ∉ message.toList ∧ '&' ∉ message.toList ∧ '\r' ∉ message.toList ∧
        ¬sectionEnd <:+: message.toList := by
  have inside : [messageName, osmErrorName] ≠ [] := List.cons_ne_nil _ _
  unfold CarriesMessage
  rw [readText_osmErrorText]
  constructor
  · rintro ⟨out, read, text⟩
    rw [Reader.run_append] at read
    cases first : Reader.run ⟨[messageName, osmErrorName], true, .content 0⟩
        (normalizeLines message.toList) with
    | none =>
        rw [first] at read
        cases read
    | some p =>
        obtain ⟨r, own⟩ := p
        cases last : r.run afterMessage with
        | none =>
            simp only [first, last, Option.bind_some, Option.map_none, reduceCtorEq] at read
        | some q =>
            obtain ⟨next, rest⟩ := q
            simp only [first, last, Option.bind_some, Option.map_some] at read
            split at read
            · rename_i done
              cases read
              obtain rfl := run_afterMessage last done
              rw [textUnder_append, textUnder_placedBefore, textUnder_append, List.nil_append] at text
              have under : textUnder [osmErrorName, messageName] [([osmErrorName], '\n')] = [] := rfl
              rw [under, List.append_nil] at text
              have lines : (normalizeLines message.toList).length ≤ message.toList.length :=
                normalizeFrom_length false message.toList
              have bound := textUnder_length [osmErrorName, messageName] own
              rw [text] at bound
              -- markup would make the text shorter than the message
              have unmarked : ¬('<' ∈ normalizeLines message.toList ∨ '&' ∈ normalizeLines message.toList) := by
                intro marked
                have short := Reader.run_markup inside marked first
                omega
              rw [not_or] at unmarked
              obtain ⟨plain, -, rfl⟩ := Reader.plain_of_run inside unmarked.1 unmarked.2 first
              rw [textUnder_map, if_pos (by decide)] at text
              rw [text, plainFrom_zero] at plain
              exact ⟨plain.1, plain.2.1, text ▸ return_not_mem_normalizeFrom false message.toList, plain.2.2⟩
            · cases read
  · rintro ⟨markup, reference, isReturn, section_end⟩
    have plain := (plainFrom_zero message.toList).mpr ⟨markup, reference, section_end⟩
    have same : normalizeLines message.toList = message.toList := normalizeFrom_eq_self isReturn
    obtain ⟨brackets, own⟩ := Reader.run_plain_append inside true chars 0 plain afterMessage
    obtain ⟨next, closed, done⟩ := run_afterMessage_open brackets
    rw [same, own, closed]
    refine ⟨_, if_pos done, ?_⟩
    rw [textUnder_append, textUnder_placedBefore, textUnder_append, textUnder_map, if_pos (by decide)]
    exact List.append_nil _

private theorem sentText_respondError {req : HttpRequest} (xml : asksForXml req = true)
    (more : List (String × String)) :
    sentText (respondError req code message more).body = some (osmErrorText code message) := by
  unfold respondError
  rw [← asksForXml, if_pos xml]
  rfl

/-- The body of an error in XML carries the message exactly when the message is one that XML
takes as it stands. -/
theorem respondError_carries_iff {req : HttpRequest} (xml : asksForXml req = true) (code : Nat)
    (chars : ∀ c ∈ message.toList, isXmlChar c = true) (retrySeconds : Option Int) :
    (∃ text, sentText (respondError req code message (retryHeader retrySeconds)).body = some text ∧
        CarriesMessage text message.toList) ↔
      '<' ∉ message.toList ∧ '&' ∉ message.toList ∧ '\r' ∉ message.toList ∧
        ¬sectionEnd <:+: message.toList := by
  rw [sentText_respondError xml, ← osmErrorText_carries code chars]
  constructor
  · rintro ⟨text, same, carries⟩
    rw [Option.some.inj same]
    exact carries
  · exact fun carries => ⟨_, rfl, carries⟩

def sampleXmlRequest : HttpRequest where
  param name := if name = "HTTP_X_ERROR_FORMAT" then some "XML" else none
  now := 0
  payload := .error (.badRequest "")

theorem respondError_carries_iff_sampleXmlRequest :
    ∃ text, sentText (respondError sampleXmlRequest 412
        "Precondition failed: Way 1 requires the nodes with id in (2, 3)" []).body = some text ∧
      CarriesMessage text "Precondition failed: Way 1 requires the nodes with id in (2, 3)".toList :=
  (respondError_carries_iff (show asksForXml sampleXmlRequest = true by decide) 412
    (List.all_eq_true.mp (by decide +kernel)) none).mpr (by decide +kernel)

/-- A member type with markup, as the message quotes it. -/
theorem not_respondError_carries_sampleXmlRequest :
    ¬∀ (req : HttpRequest) (code : Nat) (message : String), asksForXml req = true →
      (∀ c ∈ message.toList, isXmlChar c = true) →
        ∃ text, sentText (respondError req code message []).body = some text ∧
          CarriesMessage text message.toList := by
  intro all
  obtain ⟨text, sent, carries⟩ := all sampleXmlRequest 400 "Invalid type a&b in member relation" (by decide)
    (List.all_eq_true.mp (by decide +kernel))
  rw [sentText_respondError (by decide)] at sent
  obtain rfl := Option.some.inj sent
  have marked := ((osmErrorText_carries _ (List.all_eq_true.mp (by decide +kernel))).mp carries).2.1
  exact absurd marked (by decide +kernel)

end Messages

end Cgimap.Http.ErrorDocuments
