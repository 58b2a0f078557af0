/- path: Cgimap/Http/HiddenRedactions
   generality: I
   source: none
   digest: A GET request without the right to see redactions learns nothing of them. -/

import Cgimap.Http.ProcessRequest
import Cgimap.Read.Redaction

set_option autoImplicit false
set_option relaxedAutoImplicit false

namespace Cgimap.Http.HiddenRedactions

open Cgimap.Library.ExceptLists
open Cgimap.Library.KeyedTable
open Cgimap.Model.Types
open Cgimap.Model.Database
open Cgimap.Model.Users
open Cgimap.Changeset.Responders
open Cgimap.Read.DataSelection
open Cgimap.Read.Endpoints
open Cgimap.Read.Redaction
open Cgimap.Http.Requests
open Cgimap.Http.Negotiation
open Cgimap.Http.Routing
open Cgimap.Http.ProcessRequest

variable {server : Server} {req : HttpRequest} {times : Times} {db db' : Db} {accounts : Accounts}
  {sel : Selection}

/-- The requester is not a moderator, or has not asked for redactions. -/
def NoRedactionsFor (server : Server) (req : HttpRequest) (now : Int) (seen : Store) : Prop :=
  ∀ user, requestUser server req now seen = .ok user →
    isModerator user = false ∨ showRedactionsRequested req ≠ .ok true

private theorem admit_sel {seen : Store} (hidden : NoRedactionsFor server req times.read seen)
    {method : Method} {ip : String} {user : Option UserInfo}
    (admitted : admitRequest server req times seen method ip = .ok (user, sel)) : sel = Selection.empty := by
  unfold admitRequest at admitted
  obtain ⟨user', known, rest⟩ := bind_eq_ok.mp admitted
  obtain ⟨_, -, rest⟩ := bind_eq_ok.mp rest
  obtain ⟨sel', fresh, last⟩ := bind_eq_ok.mp rest
  cases last
  unfold freshSelection at fresh
  rcases hidden user known with plain | unasked
  · rw [plain] at fresh
    cases fresh
    rfl
  · split at fresh
    · obtain ⟨visible, asked, last⟩ := bind_eq_ok.mp fresh
      cases last
      cases visible with
      | true => exact absurd asked unasked
      | false => rfl
    · cases fresh
      rfl

private theorem selectionResponder_congr (same : SameExceptRedacted db db')
    (current : CurrentUnredacted db) (current' : CurrentUnredacted db') (handler : Handler) :
    selectionResponder server req ⟨db, accounts⟩ Selection.empty handler =
      selectionResponder server req ⟨db', accounts⟩ Selection.empty handler := by
  cases handler with
  | reads e =>
      have selects : e.responder server.cfg server.mapLimits db Selection.empty =
          e.responder server.cfg server.mapLimits db' Selection.empty :=
        responder_congr same (clean_empty db) e
      unfold selectionResponder
      dsimp only
      rw [← selects]
      cases done : e.responder server.cfg server.mapLimits db Selection.empty with
      | error failure =>
          change Except.error (HttpError.thrown failure) = Except.error (HttpError.thrown failure)
          rfl
      | ok sel =>
          have clean := responder_clean (clean_empty db) done
          have clean' := responder_clean (clean_empty db') (selects ▸ done)
          have written : e.write (⟨db, accounts⟩ : Store) sel req.now =
              e.write ⟨db', accounts⟩ sel req.now :=
            write_congr same current current' clean clean' req.now e
          change Except.ok (typesOf e, _) = Except.ok (typesOf e, _)
          rw [written]
  | updates e =>
      cases e with
      | update c =>
          have keeps : KeepsHistoric Selection.empty (selectChangesets db Selection.empty [c]).2 :=
            ⟨rfl, rfl⟩
          have written : writeCurrent (⟨db, accounts⟩ : Store)
              (selectChangesets db Selection.empty [c]).2 none = writeCurrent ⟨db', accounts⟩
                (selectChangesets db Selection.empty [c]).2 none :=
            writeCurrent_congr same current current' (keeps.clean (clean_empty db))
              (keeps.clean (clean_empty db')) none
          unfold selectionResponder
          dsimp only
          rw [← selectChangesets_congr same, written]
      | create => rfl
      | close c => rfl
      | upload c => rfl

/-- Two databases that differ only in redacted versions, none of them current, give the
same selection and the same response to every GET request whose requester is not a
moderator or has not asked for redactions. -/
theorem redaction_noninterference (server : Server) (req : HttpRequest) (times : Times)
    (accounts : Accounts) (store store' : Store) (same : SameExceptRedacted db db')
    (current : CurrentUnredacted db) (current' : CurrentUnredacted db')
    (get : req.param "REQUEST_METHOD" = some "GET")
    (hidden : NoRedactionsFor server req times.read ⟨db, accounts⟩) :
    (∀ method ip user sel, admitRequest server req times ⟨db, accounts⟩ method ip = .ok (user, sel) →
      ∀ e : Endpoint, e.responder server.cfg server.mapLimits db sel =
        e.responder server.cfg server.mapLimits db' sel) ∧
      (processRequest server req times ⟨db, accounts⟩ store).1 =
        (processRequest server req times ⟨db', accounts⟩ store').1 := by
  refine ⟨?_, ?_⟩
  · intro method ip user sel admitted e
    rw [admit_sel hidden admitted]
    exact responder_congr same (clean_empty db) e
  · unfold processRequest
    cases received : receive server req with
    | error failure => rfl
    | ok parts =>
        obtain ⟨ip, method, handler, resourceType⟩ := parts
        have named : method = some .get := by
          unfold receive at received
          obtain ⟨_, -, rest⟩ := bind_eq_ok.mp received
          obtain ⟨text, given, rest⟩ := bind_eq_ok.mp rest
          obtain ⟨_, -, last⟩ := bind_eq_ok.mp rest
          unfold fcgiGetEnv at given
          rw [get] at given
          cases given
          cases last
          rfl
        subst named
        have admits : admitRequest server req times ⟨db', accounts⟩ .get ip =
            admitRequest server req times ⟨db, accounts⟩ .get ip := rfl
        have dispatched : (dispatch server req times ⟨db, accounts⟩ store .get ip handler
            resourceType).1 = (dispatch server req times ⟨db', accounts⟩ store' .get ip handler
              resourceType).1 := by
          unfold dispatch
          rw [admits]
          cases admitted : admitRequest server req times ⟨db, accounts⟩ .get ip with
          | error failure => rfl
          | ok pair =>
              obtain ⟨user, sel⟩ := pair
              obtain rfl := admit_sel hidden admitted
              change processGetRequest server req ⟨db, accounts⟩ Selection.empty resourceType handler =
                processGetRequest server req ⟨db', accounts⟩ Selection.empty resourceType handler
              unfold processGetRequest
              rw [selectionResponder_congr same current current' handler]
        dsimp only
        split
        · rw [dispatched]
        · rfl

section Samples

def sampleRedacted (lat : Int) : Db :=
  { sampleStore.db with
    current := fun
      | .node => ⟨[⟨1, 2, 7, true, 0, (⟨3, 4, 0⟩ : NodeCoord)⟩], List.nodup_singleton _⟩
      | .way => .empty
      | .relation => .empty
    history := fun
      | .node => ⟨[⟨⟨1, 1, 7, true, 0, (⟨lat, 4, 0⟩ : NodeCoord)⟩, some 1⟩,
          ⟨⟨1, 2, 7, true, 0, (⟨3, 4, 0⟩ : NodeCoord)⟩, none⟩],
          show ([(1, 1), (1, 2)] : List (Nat × Nat)).Nodup by decide⟩
      | .way => .empty
      | .relation => .empty }

theorem sameExceptRedacted_sample (lat lat' : Int) :
    SameExceptRedacted (sampleRedacted lat) (sampleRedacted lat') where
  rest := rfl
  rows t h plain := by
    cases t with
    | node =>
        have kept : ∀ lat, h ∈ (sampleRedacted lat).history .node ↔
            h = ⟨⟨1, 2, 7, true, 0, (⟨3, 4, 0⟩ : NodeCoord)⟩, none⟩ := by
          intro lat
          change h ∈ [_, _] ↔ _
          rw [List.mem_cons, List.mem_singleton]
          constructor
          · rintro (rfl | here)
            · cases plain
            · exact here
          · exact .inr
        rw [kept, kept]
    | way => exact Iff.rfl
    | relation => exact Iff.rfl
  tags _ _ _ _ _ _ _ := Iff.rfl
  refs _ _ _ _ _ _ _ := Iff.rfl

theorem currentUnredacted_sample (lat : Int) : CurrentUnredacted (sampleRedacted lat) := by
  intro t r member h found
  cases t with
  | node =>
      obtain rfl := List.mem_singleton.mp member
      change some _ = some h at found
      cases found
      rfl
  | way => exact (List.not_mem_nil member).elim
  | relation => exact (List.not_mem_nil member).elim

def sampleHistory : HttpRequest :=
  sampleRequest [("REQUEST_METHOD", "GET"), ("REQUEST_URI", "/api/0.6/node/1/history")]

/-- The latitude of the redacted version does not show, while the history is answered. -/
theorem redaction_noninterference_sampleHistory :
    sampleRedacted 8 ≠ sampleRedacted 9 ∧
      (processRequest sampleServer sampleHistory ⟨1, 2⟩ ⟨sampleRedacted 8, sampleStore.accounts⟩
        sampleStore).1.status = 200 ∧
      (processRequest sampleServer sampleHistory ⟨1, 2⟩ ⟨sampleRedacted 8, sampleStore.accounts⟩
        sampleStore).1 =
      (processRequest sampleServer sampleHistory ⟨1, 2⟩ ⟨sampleRedacted 9, sampleStore.accounts⟩
        sampleStore).1 := by
  have hidden : NoRedactionsFor sampleServer sampleHistory 1
      ⟨sampleRedacted 8, sampleStore.accounts⟩ := by
    have known : requestUser sampleServer sampleHistory 1
        ⟨sampleRedacted 8, sampleStore.accounts⟩ = .ok (some ⟨1, [], true⟩) := by decide +kernel
    intro user same
    rw [known] at same
    cases same
    exact .inl rfl
  refine ⟨fun same => ?_, by decide +kernel, ?_⟩
  · have rows : (sampleRedacted 8).history .node = (sampleRedacted 9).history .node := by rw [same]
    exact absurd rows (by decide +kernel)
  · exact (redaction_noninterference sampleServer sampleHistory ⟨1, 2⟩ sampleStore.accounts sampleStore
      sampleStore (sameExceptRedacted_sample 8 9) (currentUnredacted_sample 8)
      (currentUnredacted_sample 9) (by decide +kernel) hidden).2

end Samples

end Cgimap.Http.HiddenRedactions
