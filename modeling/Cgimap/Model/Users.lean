/- path: Cgimap/Model/Users
   generality: I
   source: test/structure.sql, include/cgimap/types.hpp
   digest: The tables about users that uploads never write, beside the map data. -/

import Cgimap.Model.Database

set_option autoImplicit false
set_option relaxedAutoImplicit false

namespace Cgimap.Model.Users

open Cgimap.Model.Database

inductive UserStatus where
  | pending
  | active
  | confirmed
  | suspended
  | deleted
  deriving DecidableEq, Repr

inductive UserRole where
  | administrator
  | moderator
  | importer
  deriving DecidableEq, Repr

/-- The columns of `users` that are only read. -/
structure UserDetails where
  dataPublic : Bool
  displayName : String
  status : UserStatus
  deriving DecidableEq, Repr

/-- A row of `oauth_access_tokens`. Timestamps count microseconds. -/
structure AccessToken where
  token : String
  resourceOwnerId : Option Nat
  createdAt : Int
  expiresIn : Option Int
  revokedAt : Option Int
  scopes : Option String
  deriving DecidableEq, Repr

structure UserBlock where
  userId : Nat
  needsView : Bool
  endsAt : Int
  deriving DecidableEq, Repr

structure CommentRow where
  id : Nat
  changesetId : Int
  authorId : Nat
  body : String
  createdAt : Int
  visible : Bool
  deriving DecidableEq, Repr

structure Accounts where
  details : Nat → UserDetails
  roles : List (Nat × UserRole)
  tokens : List AccessToken
  blocks : List UserBlock
  comments : List CommentRow

/-- Everything a request can read. -/
structure Store where
  db : Db
  accounts : Accounts

end Cgimap.Model.Users
