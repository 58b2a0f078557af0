/- path: Cgimap/Http/CommittedUpdates
   generality: I
   source: none
   digest: A request changes the database only by the one update transaction it commits. -/

import Cgimap.Http.ProcessRequest
import Cgimap.Library.ExceptLists

set_option autoImplicit false
set_option relaxedAutoImplicit false

namespace Cgimap.Http.CommittedUpdates

open Cgimap.Library.ExceptLists
open Cgimap.Model.Types
open Cgimap.Model.Database
open Cgimap.Model.Users
open Cgimap.Changeset.Responders
open Cgimap.Read.DataSelection
open Cgimap.Http.Requests
open Cgimap.Http.Negotiation
open Cgimap.Http.Routing
open Cgimap.Http.ProcessRequest

variable {server : Server} {req : HttpRequest} {times : Times} {seen store : Store}
  {resourceType : MimeType} {e : UpdateEndpoint} {u : UserInfo}

/-- The way of a request to its commit: the route, the user, the permission, the
payload and the transaction. -/
structure Commits (server : Server) (req : HttpRequest) (times : Times) (seen store : Store)
    (ip : String) (method : Method) (e : UpdateEndpoint) (resourceType : MimeType) (u : UserInfo)
    (sel : Selection) (body : Body) (reply : Reply) (db : Db) : Prop where
  received : receive server req = .ok (ip, some method, .updates e, resourceType)
  allowed : method ∈ (Handler.updates e).allowedMethods
  writes : method = .post ∨ method = .put
  admitted : admitRequest server req times seen method ip = .ok (some u, sel)
  permitted : validateUserDbUpdatePermission times.read seen (some u) = .ok u
  enabled : server.updateFactory = some false
  payload : req.payload = .ok body
  run : (updateTransaction server times.write u (updateRequest resourceType body e)).responder.run
    store.db = .ok (reply, db)

section Forward

variable {ip : String} {method : Method} {sel : Selection} {body : Body} {reply : Reply} {db : Db}

/-- What a request that commits leaves and answers. -/
theorem processRequest_of_commits
    (commits : Commits server req times seen store ip method e resourceType u sel body reply db) :
    processRequest server req times seen store =
      (finish req (Handler.updates e).allowedMethods []
        (orRespond server req (respondUpdate server req resourceType e ⟨db, store.accounts⟩ reply)),
        db) := by
  have posted : processPostPutRequest server req store times.write u resourceType e false =
      (respondUpdate server req resourceType e ⟨db, store.accounts⟩ reply, db) := by
    unfold processPostPutRequest
    simp only [commits.payload, commits.run, Bool.false_eq_true, if_false]
  have updated : update server req times seen store (some u) (.updates e) resourceType =
      (respondUpdate server req resourceType e ⟨db, store.accounts⟩ reply, db) := by
    unfold update
    simp only [commits.permitted, commits.enabled, posted]
  have dispatched : dispatch server req times seen store method ip (.updates e) resourceType =
      (respondUpdate server req resourceType e ⟨db, store.accounts⟩ reply, db) := by
    unfold dispatch
    rw [commits.admitted]
    rcases commits.writes with rfl | rfl
    · exact updated
    · exact updated
  unfold processRequest
  simp only [commits.received, commits.allowed, if_true, dispatched]
  rfl

end Forward

section Backward

private theorem posted_or_unchanged (now : Int) (writeDisabled : Bool) :
    (∃ body reply, writeDisabled = false ∧ req.payload = .ok body ∧
      (updateTransaction server now u (updateRequest resourceType body e)).responder.run store.db =
        .ok (reply, (processPostPutRequest server req store now u resourceType e writeDisabled).2)) ∨
      (processPostPutRequest server req store now u resourceType e writeDisabled).2 = store.db := by
  unfold processPostPutRequest
  cases payload : req.payload with
  | error failure => exact .inr rfl
  | ok body =>
      cases writeDisabled with
      | true => exact .inr rfl
      | false =>
          cases run : (updateTransaction server now u
              (updateRequest resourceType body e)).responder.run store.db with
          | error failure =>
              refine .inr ?_
              simp only [run, Bool.false_eq_true, if_false]
          | ok pair =>
              refine .inl ⟨body, pair.1, rfl, rfl, ?_⟩
              simp only [run, Bool.false_eq_true, if_false]

theorem permitted_user {now : Int} {user : Option UserInfo}
    (permitted : validateUserDbUpdatePermission now seen user = .ok u) :
    user = some u ∧ isUserBlocked now seen u.id = false ∧ isUserActive seen u.id = true ∧
      u.allowApiWrite = true := by
  unfold validateUserDbUpdatePermission at permitted
  cases user with
  | none => cases permitted
  | some u' =>
      dsimp only at permitted
      split at permitted
      · cases permitted
      · rename_i free
        split at permitted
        · cases permitted
        · rename_i active
          split at permitted
          · cases permitted
          · rename_i granted
            cases permitted
            exact ⟨rfl, Bool.eq_false_iff.mpr free, Bool.eq_true_of_not_eq_false active,
              Bool.eq_true_of_not_eq_false granted⟩

private theorem updated_or_unchanged (user : Option UserInfo) (handler : Handler) :
    (∃ u e body reply, user = some u ∧ handler = .updates e ∧
      validateUserDbUpdatePermission times.read seen user = .ok u ∧
      server.updateFactory = some false ∧ req.payload = .ok body ∧
      (updateTransaction server times.write u (updateRequest resourceType body e)).responder.run
        store.db = .ok (reply, (update server req times seen store user handler resourceType).2)) ∨
      (update server req times seen store user handler resourceType).2 = store.db := by
  unfold update
  cases permitted : validateUserDbUpdatePermission times.read seen user with
  | error failure => exact .inr rfl
  | ok u =>
      cases factory : server.updateFactory with
      | none => exact .inr rfl
      | some writeDisabled =>
          cases handler with
          | reads e => exact .inr rfl
          | updates e =>
              rcases posted_or_unchanged times.write writeDisabled with
                ⟨body, reply, rfl, payload, run⟩ | same
              · exact .inl ⟨u, e, body, reply, (permitted_user permitted).1, rfl, rfl, rfl, payload, run⟩
              · exact .inr same

private theorem dispatched_or_unchanged (method : Method) (ip : String) (handler : Handler) :
    (∃ u e sel body reply, handler = .updates e ∧ (method = .post ∨ method = .put) ∧
      admitRequest server req times seen method ip = .ok (some u, sel) ∧
      validateUserDbUpdatePermission times.read seen (some u) = .ok u ∧
      server.updateFactory = some false ∧ req.payload = .ok body ∧
      (updateTransaction server times.write u (updateRequest resourceType body e)).responder.run
        store.db =
          .ok (reply, (dispatch server req times seen store method ip handler resourceType).2)) ∨
      (dispatch server req times seen store method ip handler resourceType).2 = store.db := by
  unfold dispatch
  cases admitted : admitRequest server req times seen method ip with
  | error failure => exact .inr rfl
  | ok pair =>
      obtain ⟨user, sel⟩ := pair
      have updates : method = .post ∨ method = .put →
          (∃ u e sel' body reply, handler = .updates e ∧ (method = .post ∨ method = .put) ∧
            (Except.ok (user, sel) : Except HttpError _) = .ok (some u, sel') ∧
            validateUserDbUpdatePermission times.read seen (some u) = .ok u ∧
            server.updateFactory = some false ∧ req.payload = .ok body ∧
            (updateTransaction server times.write u (updateRequest resourceType body e)).responder.run
              store.db = .ok (reply, (update server req times seen store user handler resourceType).2)) ∨
            (update server req times seen store user handler resourceType).2 = store.db := by
        intro writes
        rcases updated_or_unchanged user handler with
          ⟨u, e, body, reply, rfl, rfl, permitted, factory, payload, run⟩ | same
        · exact .inl ⟨u, e, sel, body, reply, rfl, writes, rfl, permitted, factory, payload, run⟩
        · exact .inr same
      cases method with
      | get => exact .inr rfl
      | head => exact .inr rfl
      | options => exact .inr rfl
      | post => exact updates (.inl rfl)
      | put => exact updates (.inr rfl)

/-- Either a request commits one update transaction, or it leaves the tables alone. -/
theorem commits_or_unchanged (server : Server) (req : HttpRequest) (times : Times)
    (seen store : Store) :
    (∃ ip method e resourceType u sel body reply,
      Commits server req times seen store ip method e resourceType u sel body reply
        (processRequest server req times seen store).2) ∨
      (processRequest server req times seen store).2 = store.db := by
  unfold processRequest
  cases received : receive server req with
  | error failure => exact .inr rfl
  | ok parts =>
      obtain ⟨ip, method, handler, resourceType⟩ := parts
      cases method with
      | none => exact .inr rfl
      | some method =>
          by_cases allowed : method ∈ handler.allowedMethods
          · simp only [allowed, if_true]
            rcases dispatched_or_unchanged method ip handler with
              ⟨u, e, sel, body, reply, rfl, writes, admitted, permitted, factory, payload, run⟩ | same
            · exact .inl ⟨ip, method, e, resourceType, u, sel, body, reply, received, allowed, writes,
                admitted, permitted, factory, payload, run⟩
            · exact .inr same
          · refine .inr ?_
            simp only [allowed, if_false]

end Backward

section Users

theorem user_of_admitted {method : Method} {ip : String} {sel : Selection}
    (admitted : admitRequest server req times seen method ip = .ok (some u, sel)) :
    requestUser server req times.read seen = .ok (some u) := by
  unfold admitRequest at admitted
  obtain ⟨user, known, rest⟩ := bind_eq_ok.mp admitted
  obtain ⟨_, -, rest⟩ := bind_eq_ok.mp rest
  obtain ⟨_, -, same⟩ := bind_eq_ok.mp rest
  cases same
  exact known

theorem bearerToken_of_requestUser {now : Int}
    (known : requestUser server req now seen = .ok (some u)) : ∃ token, bearerToken req = some token := by
  unfold requestUser at known
  obtain ⟨⟨id, allow⟩, determined, same⟩ := bind_eq_ok.mp known
  unfold determineUserId at determined
  split at determined
  · cases determined
    cases same
  · rename_i token carried
    exact ⟨token, carried⟩

end Users

end Cgimap.Http.CommittedUpdates
