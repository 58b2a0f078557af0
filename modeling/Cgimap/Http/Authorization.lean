/- path: Cgimap/Http/Authorization
   generality: I
   source: none
   digest: Whoever changes the database holds a valid token and the right to use it. -/

import Cgimap.Changeset.RowEffects
import Cgimap.Http.CommittedUpdates
import Cgimap.Library.ExceptLists

set_option autoImplicit false
set_option relaxedAutoImplicit false

namespace Cgimap.Http.Authorization

open Cgimap.Library.ExceptLists
open Cgimap.Library.StatementProgram
open Cgimap.Model.Types
open Cgimap.Model.Database
open Cgimap.Model.Users
open Cgimap.Changeset.Updater
open Cgimap.Changeset.Responders
open Cgimap.Changeset.RowEffects
open Cgimap.Read.DataSelection
open Cgimap.Http.Requests
open Cgimap.Http.Negotiation
open Cgimap.Http.Routing
open Cgimap.Http.ProcessRequest
open Cgimap.Http.CommittedUpdates

section Statement

/-- The header of the request carries a bearer token, and the row `t` of the token
table gives it to the user: not expired, not revoked and with the scope for writing. -/
structure TokenGrants (server : Server) (req : HttpRequest) (now : Int) (seen : Store)
    (t : AccessToken) (user : Nat) : Prop where
  header : ∃ token, token ≠ [] ∧
    (req.param "HTTP_AUTHORIZATION").map String.toList = some ("Bearer ".toList ++ token) ∧
    (t.token = String.ofList token ∨ t.token = server.sha256 (String.ofList token))
  stored : t ∈ seen.accounts.tokens
  owner : t.resourceOwnerId = some user
  notExpired : ∀ seconds, t.expiresIn = some seconds → now ≤ t.createdAt + seconds * 1000000
  notRevoked : ∀ time, t.revokedAt = some time → now ≤ time
  scope : ∃ scopes, t.scopes = some scopes ∧ "write_api".toList ∈ scopes.toList.splitOn ' '

/-- The user exists, is not blocked, and is active or confirmed. -/
structure MayWrite (now : Int) (seen : Store) (user : Nat) : Prop where
  known : (seen.db.users.find? user).isSome
  notBlocked : ∀ b ∈ seen.accounts.blocks, b.userId = user → b.needsView = false ∧ b.endsAt ≤ now
  status : (seen.accounts.details user).status = .active ∨
    (seen.accounts.details user).status = .confirmed

def changesetOf : UpdateEndpoint → Option Int
  | .create => none
  | .update c | .close c | .upload c => some c

end Statement

variable {server : Server} {req : HttpRequest} {times : Times} {seen store : Store} {u : UserInfo}

section Tokens

private theorem bearerToken_eq_some {token : String} (carried : bearerToken req = some token) :
    ∃ rest, rest ≠ [] ∧
      (req.param "HTTP_AUTHORIZATION").map String.toList = some ("Bearer ".toList ++ rest) ∧
      token = String.ofList rest := by
  unfold bearerToken at carried
  obtain ⟨header, present, inside⟩ := Option.bind_eq_some_iff.mp carried
  split at inside
  · rename_i bearer
    obtain ⟨rest, split⟩ := List.isPrefixOf_iff_prefix.mp bearer
    have dropped : header.toList.drop 7 = rest := by
      rw [← split]
      rfl
    simp only [dropped] at inside
    split at inside
    · cases inside
    · rename_i good
      cases inside
      refine ⟨rest, fun empty => good (.inl empty), ?_, rfl⟩
      rw [present, Option.map_some, split]
  · cases inside

private theorem split_mem {s part : Text} {delim : Char} (member : part ∈ split s delim) :
    s ≠ [] ∧ part ∈ s.splitOn delim := by
  unfold split at member
  split at member
  · cases member
  · rename_i nonempty
    exact ⟨nonempty, member⟩

private theorem tokenGrants_of_requestUser {now : Int}
    (known : requestUser server req now seen = .ok (some u)) (granted : u.allowApiWrite = true) :
    ∃ t, TokenGrants server req now seen t u.id := by
  unfold requestUser at known
  obtain ⟨⟨id, allow⟩, determined, same⟩ := bind_eq_ok.mp known
  rw [Except.ok.injEq, Option.map_eq_some_iff] at same
  obtain ⟨user, rfl, rfl⟩ := same
  unfold determineUserId at determined
  split at determined
  · cases determined
  · rename_i token carried
    split at determined
    · cases determined
    · rename_i t found
      split at determined
      · cases determined
      · rename_i owner row
        split at determined
        · cases determined
        · rename_i fresh
          split at determined
          · cases determined
          · rename_i valid
            cases determined
            obtain ⟨rest, nonempty, header, rfl⟩ := bearerToken_eq_some carried
            have stored := List.find?_some found
            rw [Bool.or_eq_true, decide_eq_true_eq, decide_eq_true_eq] at stored
            refine ⟨t, ⟨rest, nonempty, header, stored⟩, List.mem_of_find?_eq_some found, row, ?_, ?_,
              ?_⟩
            · intro seconds limited
              unfold AccessToken.expired at fresh
              rw [limited] at fresh
              simpa using fresh
            · intro time taken
              unfold AccessToken.revoked at valid
              rw [taken] at valid
              simpa using valid
            · change AccessToken.allowApiWrite t = true at granted
              unfold AccessToken.allowApiWrite at granted
              obtain ⟨nonempty, member⟩ := split_mem (List.contains_iff_mem.mp granted)
              cases scopes : t.scopes with
              | none =>
                  rw [scopes] at nonempty
                  exact absurd rfl nonempty
              | some text =>
                  rw [scopes] at member
                  exact ⟨text, rfl, member⟩

private theorem mayWrite_of_checks {now : Int} (free : isUserBlocked now seen u.id = false)
    (active : isUserActive seen u.id = true) : MayWrite now seen u.id := by
  unfold isUserActive at active
  rw [Bool.and_eq_true, Bool.or_eq_true, decide_eq_true_eq, decide_eq_true_eq] at active
  refine ⟨active.1, ?_, active.2⟩
  intro b member own
  unfold isUserBlocked at free
  have lets := List.any_eq_false.mp free b member
  simpa [own] using lets

end Tokens

section Changesets

private theorem owns_of_run {now : Int} {resourceType : MimeType} {body : Body} {e : UpdateEndpoint}
    {reply : Reply} {db : Db} {c : Int} (about : changesetOf e = some c)
    (run : (updateTransaction server now u (updateRequest resourceType body e)).responder.run store.db =
      .ok (reply, db)) :
    ∃ row, store.db.changesets.find? c = some row ∧ row.userId = u.id ∧ now ≤ row.closedAt := by
  have owns : ∀ {tx : Transaction} {r r' : ChangesetRow}, tx.user = some u.id →
      Touches tx c r r' store.db db → tx.now = now →
      ∃ row, store.db.changesets.find? c = some row ∧ row.userId = u.id ∧ now ≤ row.closedAt := by
    rintro tx r r' user touches rfl
    exact ⟨r, touches.found, Option.some.inj (touches.user.symm.trans user), touches.notClosed⟩
  cases e with
  | create => cases about
  | update c' =>
      cases about
      obtain ⟨r, touches, -⟩ := changesetUpdateResponder_eq_ok run
      exact owns rfl touches rfl
  | close c' =>
      cases about
      obtain ⟨r, touches, -⟩ := changesetCloseResponder_eq_ok run
      exact owns rfl touches rfl
  | upload c' =>
      cases about
      change (changesetUploadResponder (updateTransaction server now u
        (.upload resourceType c body.osmChange)) resourceType c body.osmChange).run _ = _ at run
      obtain ⟨r, st, db₁, -, touches, -⟩ := changesetUploadResponder_eq_ok run
      exact owns rfl touches rfl

end Changesets

section Requests

private theorem method_of_received {ip : String} {method : Method} {handler : Handler}
    {resourceType : MimeType}
    (received : receive server req = .ok (ip, some method, handler, resourceType)) :
    req.param "REQUEST_METHOD" = some method.name ∧
      route server.numbers server.mapLimits req = .ok (handler, resourceType) := by
  unfold receive at received
  obtain ⟨_, -, rest⟩ := bind_eq_ok.mp received
  obtain ⟨text, given, rest⟩ := bind_eq_ok.mp rest
  obtain ⟨⟨h, mt⟩, routed, same⟩ := bind_eq_ok.mp rest
  simp only [Except.ok.injEq, Prod.mk.injEq] at same
  obtain ⟨-, parsed, rfl, rfl⟩ := same
  unfold fcgiGetEnv at given
  split at given
  · rename_i v present
    cases given
    have named := List.find?_some parsed
    rw [decide_eq_true_eq] at named
    exact ⟨named ▸ present, routed⟩
  · cases given

/-- A request that changes the database is a POST or a PUT with a bearer token that the
token table gives to a user who may write, while writing is enabled; and the changeset it
is about, unless it creates one, is that user's and not closed at the time of the
transaction. -/
theorem write_authorized (server : Server) (req : HttpRequest) (times : Times) (seen store : Store)
    (changed : (processRequest server req times seen store).2 ≠ store.db) :
    (req.param "REQUEST_METHOD" = some "POST" ∨ req.param "REQUEST_METHOD" = some "PUT") ∧
      server.updateFactory = some false ∧
      ∃ user e resourceType, (∃ t, TokenGrants server req times.read seen t user) ∧
        MayWrite times.read seen user ∧
        route server.numbers server.mapLimits req = .ok (.updates e, resourceType) ∧
        ∀ c, changesetOf e = some c → ∃ row, store.db.changesets.find? c = some row ∧
          row.userId = user ∧ times.write ≤ row.closedAt := by
  rcases commits_or_unchanged server req times seen store with
    ⟨ip, method, e, resourceType, u, sel, body, reply, commits⟩ | same
  · obtain ⟨given, routed⟩ := method_of_received commits.received
    obtain ⟨-, free, active, granted⟩ := permitted_user commits.permitted
    refine ⟨?_, commits.enabled, u.id, e, resourceType,
      tokenGrants_of_requestUser (user_of_admitted commits.admitted) granted,
      mayWrite_of_checks free active, routed, fun c about => owns_of_run about commits.run⟩
    rcases commits.writes with rfl | rfl
    · exact .inl given
    · exact .inr given
  · exact absurd same changed

/-- The owner closes the changeset. -/
theorem write_authorized_sampleClose :
    (processRequest sampleServer (sampleClose []) ⟨1, 2⟩ sampleStore sampleStore).2 ≠ sampleStore.db ∧
      ∃ user e resourceType, (∃ t, TokenGrants sampleServer (sampleClose []) 1 sampleStore t user) ∧
        MayWrite 1 sampleStore user ∧
        route sampleServer.numbers sampleServer.mapLimits (sampleClose []) =
          .ok (.updates e, resourceType) ∧
        ∀ c, changesetOf e = some c → ∃ row, sampleStore.db.changesets.find? c = some row ∧
          row.userId = user ∧ 2 ≤ row.closedAt := by
  have closed : ((processRequest sampleServer (sampleClose []) ⟨1, 2⟩ sampleStore
      sampleStore).2.changesets.find? 7).map ChangesetRow.closedAt = some 2 := by decide +kernel
  have opened : (sampleStore.db.changesets.find? 7).map ChangesetRow.closedAt = some 3600 := by
    decide +kernel
  have changed : (processRequest sampleServer (sampleClose []) ⟨1, 2⟩ sampleStore sampleStore).2 ≠
      sampleStore.db := by
    intro same
    rw [same, opened] at closed
    exact absurd closed (by decide)
  exact ⟨changed, (write_authorized sampleServer (sampleClose []) ⟨1, 2⟩ sampleStore sampleStore
    changed).2.2⟩

end Requests

end Cgimap.Http.Authorization
