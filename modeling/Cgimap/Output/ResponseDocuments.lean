/- path: Cgimap/Output/ResponseDocuments
   generality: I
   source: src/process_request.cpp, src/choose_formatter.cpp
   digest: Every document that answers a request is complete and tells what it was told. -/

import Cgimap.Library.XmlText
import Cgimap.Output.JsonFormatter
import Cgimap.Output.XmlFormatter

/-!
The text is that of the libraries: XML as its writer leaves it behind when it is destroyed,
JSON as its generator makes it from the calls that it does not refuse.
-/

set_option autoImplicit false
set_option relaxedAutoImplicit false

namespace Cgimap.Output.ResponseDocuments

open Cgimap.Library.ExceptLists
open Cgimap.Library.JsonTree (Generator Json faithful_valueGenerator readValue valueGenerator)
open Cgimap.Library.MarkupTree (Markup TextWriter faithful_treeWriter readTree treeWriter)
open Cgimap.Library.XmlText (isXmlChar)
open Cgimap.Model.Types
open Cgimap.Model.Database
open Cgimap.Model.Users
open Cgimap.Changeset.Responders
open Cgimap.Http.Requests
open Cgimap.Http.Negotiation
open Cgimap.Http.Routing
open Cgimap.Http.ProcessRequest
open Cgimap.Read.DataSelection
open Cgimap.Read.Endpoints
open Cgimap.Output.Documents

section Responders

private theorem mapError_eq_ok {ε ε' α : Type} {x : Except ε α} {f : ε → ε'} {a : α} :
    x.mapError f = .ok a ↔ x = .ok a := by
  cases x <;> simp [Except.mapError]

variable {server : Server} {req : HttpRequest} {seen : Store} {sel : Selection}
  {types : List MimeType} {calls : List Call}

/-- The calls are those of one of the responders; only a download of changes has just one type. -/
structure Answers (types : List MimeType) (calls : List Call) (body : DocumentBody) : Prop where
  calls : calls = body.calls
  known : ∀ t ∈ types, t = .applicationXml ∨ t = .applicationJson
  changes : ∀ c, body = .changes c → MimeType.applicationJson ∉ types

private theorem both_known : ∀ t ∈ [MimeType.applicationXml, MimeType.applicationJson],
    t = .applicationXml ∨ t = .applicationJson := by
  simp

private theorem answers_current (bounds : Option GeoBox) :
    ∃ body, Answers [.applicationXml, .applicationJson] (writeCurrent seen sel bounds) body :=
  ⟨_, writeCurrent_eq seen sel bounds, both_known, fun _ same => by cases same⟩

private theorem changesets_of_responder {id : Int} {discussion : Bool} {sel' : Selection}
    (fresh : sel.changesets = ∅)
    (accepted : changesetResponder seen.db sel id discussion = .ok sel') : sel'.changesets = {id} := by
  have selected : (selectChangesets seen.db sel [id]).1 ≠ 0 →
      (selectChangesets seen.db sel [id]).2.changesets = {id} := by
    intro some
    unfold selectChangesets at some ⊢
    by_cases exists' : (seen.db.changesets.find? id).isSome
    · simp [fresh, Finset.filter_singleton, exists']
    · simp [fresh, Finset.filter_singleton, exists'] at some
  unfold changesetResponder at accepted
  dsimp only at accepted
  split at accepted
  · cases accepted
  · rename_i found
    cases discussion with
    | true =>
        cases accepted
        exact selected found
    | false =>
        cases accepted
        exact selected found

theorem answers_selection {handler : Handler} (fresh : sel.changesets = ∅)
    (answered : selectionResponder server req seen sel handler = .ok (types, calls)) :
    ∃ body, Answers types calls body := by
  cases handler with
  | reads e =>
      obtain ⟨sel', accepted, same⟩ := bind_eq_ok.mp answered
      cases same
      have accepted := mapError_eq_ok.mp accepted
      cases e with
      | changeset id discussion =>
          obtain ⟨c, document⟩ := writeChangesetDocument_eq seen sel'
            (changesets_of_responder fresh accepted) req.now
          exact ⟨.changeset c, document, both_known, fun _ same => by cases same⟩
      | changesetDownload id =>
          refine ⟨_, writeOsmChange_eq seen sel', ?_, ?_⟩
          · simp [typesOf]
          · intro _ _
            simp [typesOf]
      | map bounds => exact answers_current (some bounds)
      | object t id => exact answers_current none
      | version t id v => exact answers_current none
      | history t id => exact answers_current none
      | objects t ids => exact answers_current none
      | wayFull id => exact answers_current none
      | relationFull id => exact answers_current none
      | nodeWays id => exact answers_current none
      | nodeRelations id => exact answers_current none
      | wayRelations id => exact answers_current none
      | relationRelations id => exact answers_current none
  | updates e =>
      cases e with
      | update c =>
          cases answered
          exact answers_current none
      | create => cases answered
      | close c => cases answered
      | upload c => cases answered

end Responders

section Negotiated

private theorem exactMatch_mem (accept : AcceptHeader) (available : List MimeType) :
    (exactMatch accept available).1 = .unspecifiedType ∨ (exactMatch accept available).1 ∈ available := by
  unfold exactMatch
  refine List.foldlRecOn (motive := fun best : MimeType × ℚ =>
    best.1 = .unspecifiedType ∨ best.1 ∈ available) available _ (.inl rfl) fun best known mt member => ?_
  split
  · split
    · exact .inr member
    · exact known
  · exact known

private theorem mem_of_chooseAmong {accept : AcceptHeader} {available : List MimeType}
    {resourceType t : MimeType} {path : Text}
    (chosen : chooseAmong accept available resourceType path = .ok t) : t ∈ available := by
  have refused (types : List MimeType) : notAcceptableFor path types ≠ .ok t := by
    intro accepted
    obtain ⟨names, -, none⟩ := bind_eq_ok.mp accepted
    cases none
  have most : accept.mostAcceptableOf available ≠ .unspecifiedType →
      accept.mostAcceptableOf available ∈ available := by
    intro some
    unfold AcceptHeader.mostAcceptableOf at some ⊢
    have best := exactMatch_mem accept available
    cases available with
    | nil => exact best.resolve_left some
    | cons first rest =>
        dsimp only at some ⊢
        split
        · exact List.mem_cons_self
        · rename_i other
          rw [if_neg other] at some
          exact best.resolve_left some
  unfold chooseAmong at chosen
  split at chosen
  · split at chosen
    · exact absurd chosen (refused _)
    · rename_i offered
      split at chosen
      · exact absurd chosen (refused _)
      · cases chosen
        exact not_not.mp offered
  · dsimp only at chosen
    split at chosen
    · exact absurd chosen (refused _)
    · rename_i some
      have best := most some
      split at chosen
      · split at chosen
        · cases chosen
          exact List.mem_cons_self
        · cases chosen
          exact best
      · cases chosen
        exact best

variable {server : Server} {req : HttpRequest} {types : List MimeType} {resourceType : MimeType}
  {calls : List Call} {r : Response}

private theorem body_of_generate (generated : generateResponse server req types resourceType calls = .ok r) :
    ∃ mimeType encoding, r.body = .document mimeType encoding calls ∧ mimeType ∈ types := by
  obtain ⟨⟨encoding, mimeType, name⟩, negotiated, same⟩ := bind_eq_ok.mp generated
  cases same
  obtain ⟨encoding', -, negotiated⟩ := bind_eq_ok.mp negotiated
  obtain ⟨mimeType', chosen, negotiated⟩ := bind_eq_ok.mp negotiated
  obtain ⟨name', -, same⟩ := bind_eq_ok.mp negotiated
  cases same
  obtain ⟨accept, -, chosen⟩ := bind_eq_ok.mp chosen
  obtain ⟨path, -, chosen⟩ := bind_eq_ok.mp chosen
  exact ⟨mimeType, encoding, rfl, mem_of_chooseAmong (mapError_eq_ok.mp chosen)⟩

end Negotiated

section Requests

variable {server : Server} {req : HttpRequest} {times : Times} {seen store : Store}
  {mimeType : MimeType} {encoding : Encoding} {calls : List Call}

/-- What the body of a response may be: no document, a text, or a document of a responder in
one of its types. -/
def Written (body : ResponseBody) : Prop :=
  ∀ mimeType encoding calls, body = .document mimeType encoding calls →
    mimeType = .textPlain ∨ ∃ types body, Answers types calls body ∧ mimeType ∈ types

private theorem written_respond (failure : HttpError) : Written (respond server req failure).body := by
  have error (code : Nat) (message : String) (more : List (String × String)) :
      Written (respondError req code message more).body := by
    intro mimeType encoding calls document
    unfold respondError at document
    split at document
    · cases document
    · cases document
  have exception (code : Nat) (message : String) :
      Written (respond server req (.thrown (.http code message))).body := by
    unfold respond
    dsimp only
    split
    · intro _ _ _ document
      cases document
    · split
      · intro _ _ _ document
        cases document
      · split
        · intro _ _ _ document
          cases document
        · exact error _ _ _
  cases failure with
  | methodNotAllowed allowed =>
      intro _ _ _ document
      cases document
  | bandwidthLimitExceeded retry => exact error _ _ _
  | thrown e =>
      cases e with
      | http code message => exact exception code message
      | std what => exact error _ _ _
      | outOfFuel => exact error _ _ _

private theorem written_get {sel : Selection} {resourceType : MimeType} {handler : Handler}
    {r : Response} (fresh : sel.changesets = ∅)
    (answered : processGetRequest server req seen sel resourceType handler = .ok r) :
    Written r.body := by
  obtain ⟨⟨types, calls⟩, selected, generated⟩ := bind_eq_ok.mp answered
  obtain ⟨mimeType, encoding, body, member⟩ := body_of_generate generated
  intro _ _ _ document
  rw [body] at document
  cases document
  obtain ⟨content, answers⟩ := answers_selection fresh selected
  exact .inr ⟨types, content, answers, member⟩

private theorem reply_of_upload {tx : Transaction} {mt : MimeType} {c : Int} {payload : Payload}
    {db db' : Db} {reply : Reply}
    (run : (changesetUploadResponder tx mt c payload).run db = .ok (reply, db')) :
    ∃ rows, reply = .diffResult rows := by
  unfold changesetUploadResponder at run
  cases user : tx.user with
  | none =>
      rw [user] at run
      cases run
  | some id =>
      rw [user] at run
      simp only [Cgimap.Library.StatementProgram.Prog.run_bind_eq_ok] at run
      obtain ⟨_, _, -, _, _, -, _, _, -, rows, _, -, _, _, -, _, _, -, _, _, -, same⟩ := run
      cases same
      exact ⟨rows, rfl⟩

private theorem written_update {resourceType : MimeType} {e : UpdateEndpoint} {reply : Reply}
    {r : Response} (uploaded : (∃ c, e = .upload c) → ∃ rows, reply = .diffResult rows)
    (answered : respondUpdate server req resourceType e store reply = .ok r) : Written r.body := by
  unfold respondUpdate at answered
  split at answered
  · exact written_get rfl answered
  · obtain ⟨mimeType, encoding, body, member⟩ := body_of_generate answered
    intro _ _ _ document
    rw [body] at document
    cases document
    cases e with
    | upload c =>
        obtain ⟨rows, rfl⟩ := uploaded ⟨c, rfl⟩
        refine .inr ⟨_, .diffResult rows, ⟨rfl, both_known, fun _ same => by cases same⟩, member⟩
    | create => exact .inl (List.mem_singleton.mp member)
    | update c => exact .inl (List.mem_singleton.mp member)
    | close c => exact .inl (List.mem_singleton.mp member)

private theorem written_orRespond {result : Except HttpError Response}
    (ok : ∀ r, result = .ok r → Written r.body) : Written (orRespond server req result).body := by
  cases result with
  | ok r => exact ok r rfl
  | error failure => exact written_respond failure

private theorem written_post {now : Int} {user : UserInfo} {resourceType : MimeType}
    {e : UpdateEndpoint} {writeDisabled : Bool} {r : Response}
    (answered : (processPostPutRequest server req store now user resourceType e writeDisabled).1 = .ok r) :
    Written r.body := by
  unfold processPostPutRequest at answered
  split at answered
  · cases answered
  · rename_i body payload
    split at answered
    · cases answered
    · split at answered
      · cases answered
      · rename_i reply db run
        refine written_update ?_ answered
        rintro ⟨c, rfl⟩
        have upload : (changesetUploadResponder (updateTransaction server now user
            (updateRequest resourceType body (.upload c))) resourceType c body.osmChange).run store.db =
              .ok (reply, db) := run
        exact reply_of_upload upload

private theorem fresh_of_admitted {method : Method} {ip : String} {user : Option UserInfo}
    {sel : Selection} (admitted : admitRequest server req times seen method ip = .ok (user, sel)) :
    sel.changesets = ∅ := by
  obtain ⟨user', -, admitted⟩ := bind_eq_ok.mp admitted
  obtain ⟨done, -, admitted⟩ := bind_eq_ok.mp admitted
  obtain ⟨sel', fresh, same⟩ := bind_eq_ok.mp admitted
  cases same
  unfold freshSelection at fresh
  split at fresh
  · obtain ⟨visible, -, same⟩ := bind_eq_ok.mp fresh
    cases same
    rfl
  · cases fresh
    rfl

private theorem written_dispatch (method : Method) (ip : String) (handler : Handler)
    (resourceType : MimeType) {r : Response}
    (answered : (dispatch server req times seen store method ip handler resourceType).1 = .ok r) :
    Written r.body := by
  unfold dispatch at answered
  cases admitted : admitRequest server req times seen method ip with
  | error failure =>
      rw [admitted] at answered
      cases answered
  | ok pair =>
      obtain ⟨user, sel⟩ := pair
      rw [admitted] at answered
      have updated (posted : (update server req times seen store user handler resourceType).1 = .ok r) :
          Written r.body := by
        unfold update at posted
        split at posted
        · cases posted
        · split at posted
          · cases posted
          · split at posted
            · cases posted
            · exact written_post posted
      cases method with
      | get => exact written_get (fresh_of_admitted admitted) answered
      | head =>
          obtain ⟨⟨types, calls⟩, -, headed⟩ := bind_eq_ok.mp answered
          obtain ⟨⟨encoding, mimeType, name⟩, -, same⟩ := bind_eq_ok.mp headed
          cases same
          intro _ _ _ document
          cases document
      | options =>
          cases answered
          unfold processOptionsRequest
          split
          · intro _ _ _ document
            cases document
          · intro _ _ _ document
            cases document
      | post => exact updated answered
      | put => exact updated answered

/-- The document of any response is that of a responder, in one of its types. -/
theorem written_response : Written (processRequest server req times seen store).1.body := by
  have notAllowed (allowed : List Method) : Written (processNotAllowed allowed).body := by
    intro _ _ _ document
    cases document
  unfold processRequest
  split
  · exact written_respond _
  · rename_i ip method handler resourceType received
    split
    · exact written_orRespond fun r answered => written_dispatch method ip handler resourceType answered
    · exact notAllowed handler.allowedMethods
  · rename_i ip handler resourceType received
    exact notAllowed handler.allowedMethods

def XmlCharacters (s : String) : Prop := ∀ c ∈ s.toList, isXmlChar c = true

/-- A document in XML is one element, written without a refused call whatever failed while it
was written, and its reader learns what the responder told. -/
theorem xml_response {β : Type} {writer : TextWriter β} {read : List β → Option Markup}
    (faithful : writer.Faithful read XmlCharacters) (header : Header) (answered :
      (processRequest server req times seen store).1.body = .document .applicationXml encoding calls)
    (characters : ∀ call ∈ render (XmlFormatter.xml server.cfg header) false calls,
      ∀ s ∈ call.strings, XmlCharacters s) :
    ∃ out root, writer.document (render (XmlFormatter.xml server.cfg header) false calls) = some out ∧
      read out = some root ∧
      XmlFormatter.readDocument root = some (header, told server.cfg none calls) := by
  rcases written_response _ _ _ answered with text | ⟨types, body, answers, -⟩
  · cases text
  · obtain ⟨w, run, root⟩ := XmlFormatter.run_body server.cfg header body
    obtain ⟨out, written, back⟩ := faithful _ w _ (answers.calls ▸ run) root characters
    refine ⟨out, _, written, back, ?_⟩
    rw [answers.calls, told_calls]
    exact XmlFormatter.readDocument_documentTree server.cfg header body

/-- A document in JSON is one value, whatever failed while it was written, and its reader
learns what the responder told, except for the rows of a diffResult. -/
theorem json_response {β : Type} {g : Generator β} {parse : List β → Option Json}
    (faithful : g.Faithful 5 parse) (header : Header) (answered :
      (processRequest server req times seen store).1.body = .document .applicationJson encoding calls) :
    ∃ value, parse (g.text (render (JsonFormatter.json server.cfg header) false calls)) = some value ∧
      JsonFormatter.readDocument value =
        some (header, (told server.cfg none calls).filter (fun item => !item.isRow)) := by
  rcases written_response _ _ _ answered with text | ⟨types, body, answers, member⟩
  · cases text
  · have available : ∀ c, body ≠ .changes c := fun c same => answers.changes c same member
    have parsed := faithful _ _ (JsonFormatter.run_body server.cfg header body available)
      (JsonFormatter.fits_documentValue server.cfg header body)
    have read := JsonFormatter.readDocument_documentValue server.cfg header body available
    rw [answers.calls, told_calls]
    exact ⟨_, parsed, read⟩

end Requests

section Samples

def sampleAsked (type : String) : Response :=
  (processRequest sampleServer (sampleRequest [("REQUEST_METHOD", "GET"),
    ("REQUEST_URI", "/api/0.6/changeset/7"), ("HTTP_ACCEPT", type)]) ⟨1, 2⟩ sampleStore sampleStore).1

def sampleHeader : Header := ⟨"cgimap", "c", "a", "l"⟩

private theorem document_of_sampleAsked {type : String} {mimeType : MimeType} {good : List Call → Bool}
    (asked : (match (sampleAsked type).body with
      | .document other _ calls => decide (other = mimeType) && good calls
      | _ => false) = true) :
    ∃ encoding calls, (sampleAsked type).body = .document mimeType encoding calls ∧
      good calls = true := by
  cases body : (sampleAsked type).body with
  | document other encoding calls =>
      rw [body] at asked
      have both := Bool.and_eq_true_iff.mp asked
      exact ⟨encoding, calls, congrArg (fun t => ResponseBody.document t encoding calls)
        (of_decide_eq_true both.1), both.2⟩
  | empty =>
      rw [body] at asked
      cases asked
  | text message =>
      rw [body] at asked
      cases asked
  | osmError status message =>
      rw [body] at asked
      cases asked

def sampleCharacters (calls : List Call) : Bool :=
  (render (XmlFormatter.xml .default sampleHeader) false calls).all (fun call =>
    call.strings.all (fun s => s.toList.all isXmlChar))

theorem xml_response_sampleAsked : ∃ encoding calls out root,
    (sampleAsked "application/xml").body = .document .applicationXml encoding calls ∧
      treeWriter.document (render (XmlFormatter.xml .default sampleHeader) false calls) = some out ∧
      readTree out = some root ∧
      XmlFormatter.readDocument root = some (sampleHeader, told .default none calls) := by
  have asked : ∃ encoding calls,
      (sampleAsked "application/xml").body = .document .applicationXml encoding calls ∧
        sampleCharacters calls = true :=
    document_of_sampleAsked (by decide +kernel)
  obtain ⟨encoding, calls, answered, good⟩ := asked
  simp only [sampleCharacters, List.all_eq_true] at good
  obtain ⟨out, root, document⟩ := xml_response (faithful_treeWriter XmlCharacters) sampleHeader answered good
  exact ⟨encoding, calls, out, root, answered, document⟩

theorem json_response_sampleAsked : ∃ encoding calls value,
    (sampleAsked "application/json").body = .document .applicationJson encoding calls ∧
      readValue (valueGenerator.text (render (JsonFormatter.json .default sampleHeader) false calls)) =
        some value ∧
      JsonFormatter.readDocument value =
        some (sampleHeader, (told .default none calls).filter (fun item => !item.isRow)) := by
  have asked : ∃ encoding calls,
      (sampleAsked "application/json").body = .document .applicationJson encoding calls ∧ true = true :=
    document_of_sampleAsked (by decide +kernel)
  obtain ⟨encoding, calls, answered, -⟩ := asked
  obtain ⟨value, document⟩ := json_response (faithful_valueGenerator 5) sampleHeader answered
  exact ⟨encoding, calls, value, answered, document⟩

end Samples

end Cgimap.Output.ResponseDocuments
