/- path: Cgimap/Http/RouteMatching
   generality: I
   source: src/routes.cpp, src/router.cpp, include/cgimap/router.hpp
   digest: A path matches at most one rule for a method, and the method decides what follows. -/

import Cgimap.Http.HeaderLists
import Cgimap.Http.ProcessRequest

set_option autoImplicit false
set_option relaxedAutoImplicit false

namespace Cgimap.Http.RouteMatching

open Cgimap.Model.Types
open Cgimap.Read.Endpoints
open Cgimap.Http.Requests
open Cgimap.Http.HeaderLists
open Cgimap.Http.Negotiation
open Cgimap.Http.Routing
open Cgimap.Http.ProcessRequest

section Patterns

def Matches (rule : Rule) (path : List Text) : Prop := (matchParts rule.parts path).isSome = true

/-- Some component of a path is matched by both parts. -/
def partsMeet : Part → Part → Bool
  | .literal s, .literal t => s = t
  | .literal s, .osmId => (matchOsmId s.toList).isSome
  | .osmId, .literal s => (matchOsmId s.toList).isSome
  | .osmId, .osmId => true

/-- Some path is matched by both patterns. -/
def patternsMeet : List Part → List Part → Bool
  | [], [] => true
  | p :: ps, q :: qs => partsMeet p q && patternsMeet ps qs
  | _, _ => false

private theorem partsMeet_of_match {p q : Part} {ps qs : List Part} {bit : Text} {bits : List Text}
    (first : (matchParts (p :: ps) (bit :: bits)).isSome = true)
    (second : (matchParts (q :: qs) (bit :: bits)).isSome = true) :
    partsMeet p q = true ∧ (matchParts ps bits).isSome = true ∧ (matchParts qs bits).isSome = true := by
  have literal : ∀ {s : String} {ps : List Part},
      (matchParts (.literal s :: ps) (bit :: bits)).isSome = true →
        bit = s.toList ∧ (matchParts ps bits).isSome = true := by
    intro s ps matched
    rw [matchParts] at matched
    by_cases same : bit = s.toList
    · rw [if_pos same] at matched
      exact ⟨same, matched⟩
    · rw [if_neg same] at matched
      cases matched
  have osmId : ∀ {ps : List Part}, (matchParts (.osmId :: ps) (bit :: bits)).isSome = true →
      (matchOsmId bit).isSome = true ∧ (matchParts ps bits).isSome = true := by
    intro ps matched
    rw [matchParts] at matched
    cases found : matchOsmId bit with
    | none =>
        rw [found] at matched
        cases matched
    | some x =>
        rw [found] at matched
        exact ⟨rfl, by simpa using matched⟩
  cases p with
  | literal s =>
      obtain ⟨rfl, rest⟩ := literal first
      cases q with
      | literal t =>
          obtain ⟨same, rest'⟩ := literal second
          exact ⟨decide_eq_true (String.toList_injective same), rest, rest'⟩
      | osmId => exact ⟨(osmId second).1, rest, (osmId second).2⟩
  | osmId =>
      cases q with
      | literal t =>
          obtain ⟨rfl, rest'⟩ := literal second
          exact ⟨(osmId first).1, (osmId first).2, rest'⟩
      | osmId => exact ⟨rfl, (osmId first).2, (osmId second).2⟩

private theorem patternsMeet_of_match {ps qs : List Part} {path : List Text}
    (first : (matchParts ps path).isSome = true) (second : (matchParts qs path).isSome = true) :
    patternsMeet ps qs = true := by
  induction path generalizing ps qs with
  | nil =>
      cases ps with
      | cons p ps => cases p <;> cases first
      | nil =>
          cases qs with
          | cons q qs => cases q <;> cases second
          | nil => rfl
  | cons bit bits ih =>
      cases ps with
      | nil => cases first
      | cons p ps =>
          cases qs with
          | nil => cases second
          | cons q qs =>
              obtain ⟨meet, rest, rest'⟩ := partsMeet_of_match first second
              rw [patternsMeet, meet, ih rest rest']
              rfl

/-- Rules of which no two match the same path. -/
def Exclusive (rules : List Rule) : Prop :=
  rules.Pairwise (fun a b => ∀ path, ¬(Matches a path ∧ Matches b path))

private theorem Exclusive.filter_length {rules : List Rule} (exclusive : Exclusive rules)
    (path : List Text) : (rules.filter (fun rule => (matchParts rule.parts path).isSome)).length ≤ 1 := by
  have apart := List.Pairwise.filter (fun rule => (matchParts rule.parts path).isSome) exclusive
  rcases matching : rules.filter (fun rule => (matchParts rule.parts path).isSome) with
    _ | ⟨first, _ | ⟨second, rest⟩⟩
  · rw [matching]
    exact Nat.zero_le 1
  · rw [matching]
    exact le_refl 1
  · exfalso
    have matched : ∀ rule ∈ first :: second :: rest, Matches rule path := by
      intro rule member
      rw [← matching] at member
      exact (List.mem_filter.mp member).2
    rw [matching, List.pairwise_cons] at apart
    exact apart.1 second List.mem_cons_self path
      ⟨matched first List.mem_cons_self, matched second (List.mem_cons_of_mem _ List.mem_cons_self)⟩

private theorem exclusive_of_patterns {rules : List Rule}
    (apart : (rules.map Rule.parts).Pairwise (fun a b => patternsMeet a b = false)) : Exclusive rules := by
  rw [List.pairwise_map] at apart
  refine apart.imp fun {a b} none path both => ?_
  rw [patternsMeet_of_match both.1 both.2] at none
  cases none

end Patterns

section Rules

variable (numbers : Numbers) (limits : MapLimits) (req : HttpRequest)

inductive RuleKind where
  | get
  | post
  | put
  deriving DecidableEq

def RuleKind.rules : RuleKind → List Rule
  | .get => rulesGet numbers limits req
  | .post => rulesPost
  | .put => rulesPut

/-- The methods that a list of rules serves. -/
def RuleKind.methods : RuleKind → List Method
  | .get => [.get, .head, .options]
  | .post => [.post, .options]
  | .put => [.put, .options]

theorem exclusive_rules (kind : RuleKind) : Exclusive (kind.rules numbers limits req) := by
  refine exclusive_of_patterns ?_
  cases kind with
  | get =>
      change ((rulesGet ⟨fun _ => none, fun _ => none, fun _ => none⟩ ⟨0, 0⟩
        ⟨fun _ => none, 0, .error .outOfFuel⟩).map Rule.parts).Pairwise _
      decide +kernel
  | post =>
      change (rulesPost.map Rule.parts).Pairwise _
      decide +kernel
  | put =>
      change (rulesPut.map Rule.parts).Pairwise _
      decide +kernel

/-- What the constructor of the first matching rule does. -/
def construct (rules : List Rule) (path : List Text) : Option (Except HttpError Handler) :=
  rules.findSome? (fun rule => (matchParts rule.parts path).map rule.handler)

theorem construct_eq_none {rules : List Rule} {path : List Text} :
    construct rules path = none ↔ ∀ rule ∈ rules, ¬Matches rule path := by
  rw [construct, List.findSome?_eq_none_iff]
  refine forall₂_congr fun rule _ => ?_
  rw [Option.map_eq_none_iff, Matches, Bool.not_eq_true, Option.isSome_eq_false_iff, Option.isNone_iff_eq_none]

/-- Among exclusive rules the one that matches is the first that does. -/
theorem construct_eq_some {rules : List Rule} (exclusive : Exclusive rules) {rule : Rule}
    (listed : rule ∈ rules) {path : List Text} {ids : List Nat}
    (matched : matchParts rule.parts path = some ids) :
    construct rules path = some (rule.handler ids) := by
  induction rules with
  | nil => exact absurd listed List.not_mem_nil
  | cons first rules ih =>
      obtain ⟨alone, rest⟩ := List.pairwise_cons.mp exclusive
      rcases List.mem_cons.mp listed with rfl | later
      · rw [construct, List.findSome?_cons, matched]
        rfl
      · have apart : matchParts first.parts path = none := by
          rw [← Option.not_isSome_iff_eq_none]
          intro both
          exact alone rule later path ⟨both, by rw [Matches, matched]; rfl⟩
        rw [construct, List.findSome?_cons, apart]
        exact ih rest later

private theorem matchRules_eq {rules : List Rule} (exclusive : Exclusive rules) (fits : Bool)
    (path : List Text) (found : Bool) :
    matchRules fits path rules found =
      match construct rules path with
      | none => .ok (.inr found)
      | some (.ok handler) => .ok (if fits then .inl handler else .inr true)
      | some (.error e) => .error e := by
  induction rules generalizing found with
  | nil => rfl
  | cons rule rules ih =>
      obtain ⟨alone, rest⟩ := List.pairwise_cons.mp exclusive
      rw [matchRules, Rule.invokeIf, construct, List.findSome?_cons]
      cases matched : matchParts rule.parts path with
      | none => exact ih rest found
      | some ids =>
          have last : construct rules path = none := construct_eq_none.mpr fun other member both =>
            alone other member path ⟨by rw [Matches, matched]; rfl, both⟩
          dsimp only [Option.map_some]
          cases built : rule.handler ids with
          | error e => rfl
          | ok handler =>
              cases fits with
              | true => rfl
              | false =>
                  have tail := ih rest true
                  rw [last] at tail
                  exact tail

end Rules

section Router

variable (numbers : Numbers) (limits : MapLimits) (req : HttpRequest) (path : List Text) (m : Method)

def PathMatches (kind : RuleKind) : Prop :=
  ∃ rule ∈ kind.rules numbers limits req, Matches rule path

/-- What the constructor of the matching rule of a list does. -/
def RuleKind.construct (kind : RuleKind) : Option (Except HttpError Handler) :=
  RouteMatching.construct (kind.rules numbers limits req) path

/-- The first list with a matching rule that serves the method. -/
def servingKind : Option RuleKind :=
  [RuleKind.get, RuleKind.post, RuleKind.put].find?
    (fun kind => m ∈ kind.methods ∧ (kind.construct numbers limits req path).isSome)

/-- The path and the method decide what the router does. -/
structure Routes : Prop where
  returned : (∃ handler, routerMatch numbers limits req path = .ok (some handler)) ↔
    ∃ kind, PathMatches numbers limits req path kind ∧ m ∈ kind.methods
  handler : ∀ handler, routerMatch numbers limits req path = .ok (some handler) →
    ∃ kind, servingKind numbers limits req path m = some kind ∧
      kind.construct numbers limits req path = some (.ok handler)
  notAllowed : (∃ allowed, routerMatch numbers limits req path = .error (.methodNotAllowed allowed)) ↔
    (∃ kind, PathMatches numbers limits req path kind) ∧
      ∀ kind, PathMatches numbers limits req path kind → m ∉ kind.methods
  allowed : ∀ allowed, routerMatch numbers limits req path = .error (.methodNotAllowed allowed) →
    ∀ m', m' ∈ allowed ↔ m' = .options ∨ ∃ kind, PathMatches numbers limits req path kind ∧ m' ∈ kind.methods
  nothing : routerMatch numbers limits req path = .ok none ↔
    ∀ kind, ¬PathMatches numbers limits req path kind

variable {numbers limits req path m}

private theorem pathMatches_iff (kind : RuleKind) :
    PathMatches numbers limits req path kind ↔ (kind.construct numbers limits req path).isSome = true := by
  rw [Option.isSome_iff_ne_none, ne_eq, RuleKind.construct, construct_eq_none]
  unfold PathMatches
  push Not
  rfl

private theorem construct_update (kind : RuleKind) (update : kind ≠ .get) :
    kind.construct numbers limits req path = none ∨
      ∃ handler, kind.construct numbers limits req path = some (.ok handler) := by
  have total : ∀ rule ∈ kind.rules numbers limits req, ∀ ids, ∃ handler, rule.handler ids = .ok handler := by
    intro rule member ids
    cases kind with
    | get => exact absurd rfl update
    | post =>
        obtain rfl := List.mem_singleton.mp member
        exact ⟨_, rfl⟩
    | put =>
        rcases List.mem_cons.mp member with rfl | later
        · exact ⟨_, rfl⟩
        · rcases List.mem_cons.mp later with rfl | last
          · exact ⟨_, rfl⟩
          · obtain rfl := List.mem_singleton.mp last
            exact ⟨_, rfl⟩
  cases built : kind.construct numbers limits req path with
  | none => exact Or.inl rfl
  | some result =>
      obtain ⟨rule, member, matched⟩ := List.exists_of_findSome?_eq_some built
      obtain ⟨ids, -, rfl⟩ := Option.map_eq_some_iff.mp matched
      obtain ⟨handler, done⟩ := total rule member ids
      exact Or.inr ⟨handler, by rw [done]⟩

private theorem construct_accepted
    (accepted : ∀ e, RuleKind.get.construct numbers limits req path ≠ some (.error e)) (kind : RuleKind) :
    kind.construct numbers limits req path = none ∨
      ∃ handler, kind.construct numbers limits req path = some (.ok handler) := by
  by_cases update : kind = .get
  · subst update
    cases result : RuleKind.get.construct numbers limits req path with
    | none => exact Or.inl rfl
    | some result' =>
        cases result' with
        | ok handler => exact Or.inr ⟨handler, rfl⟩
        | error e => exact absurd result (accepted e)
  · exact construct_update kind update

def reportedMethods (gets posts puts : Bool) : List Method :=
  [.options] ++ (if gets then [.get, .head] else []) ++ (if posts then [.post] else []) ++
    (if puts then [.put] else [])

theorem matchRules_kind (kind : RuleKind) :
    matchRules (decide (m ∈ kind.methods)) path (kind.rules numbers limits req) false =
      match kind.construct numbers limits req path with
      | none => .ok (.inr false)
      | some (.ok handler) => .ok (if decide (m ∈ kind.methods) then .inl handler else .inr true)
      | some (.error e) => .error e :=
  matchRules_eq (exclusive_rules numbers limits req kind) _ path false

theorem routerMatch_known {name : String} (method : fcgiGetEnv req "REQUEST_METHOD" = .ok name)
    (known : parseMethod name = some m) :
    routerMatch numbers limits req path = (do
      match ← matchRules (decide (m ∈ RuleKind.get.methods)) path
          (RuleKind.get.rules numbers limits req) false with
      | .inl handler => .ok (some handler)
      | .inr gets =>
          match ← matchRules (decide (m ∈ RuleKind.post.methods)) path
              (RuleKind.post.rules numbers limits req) false with
          | .inl handler => .ok (some handler)
          | .inr posts =>
              match ← matchRules (decide (m ∈ RuleKind.put.methods)) path
                  (RuleKind.put.rules numbers limits req) false with
              | .inl handler => .ok (some handler)
              | .inr puts =>
                  if gets || posts || puts then
                    .error (.methodNotAllowed (reportedMethods gets posts puts))
                  else .ok none) := by
  unfold routerMatch
  rw [method]
  dsimp only [bind, Except.bind]
  rw [known]
  rfl

private theorem routerMatch_eq {name : String} (method : fcgiGetEnv req "REQUEST_METHOD" = .ok name)
    (known : parseMethod name = some m)
    (accepted : ∀ e, RuleKind.get.construct numbers limits req path ≠ some (.error e)) :
    routerMatch numbers limits req path =
      match servingKind numbers limits req path m with
      | some kind =>
          match kind.construct numbers limits req path with
          | some result => result.map some
          | none => .ok none
      | none =>
          let hit (kind : RuleKind) : Bool := (kind.construct numbers limits req path).isSome
          if hit .get || hit .post || hit .put then
            .error (.methodNotAllowed (reportedMethods (hit .get) (hit .post) (hit .put)))
          else .ok none := by
  have built := construct_accepted accepted
  rw [routerMatch_known method known, matchRules_kind, matchRules_kind, matchRules_kind, servingKind,
    List.find?_cons, List.find?_cons, List.find?_cons, List.find?_nil]
  -- which of the three lists match, and then the method
  rcases built .get with gets | ⟨getHandler, gets⟩
  all_goals rcases built .post with posts | ⟨postHandler, posts⟩
  all_goals rcases built .put with puts | ⟨putHandler, puts⟩
  all_goals
    rw [gets, posts, puts]
    cases m <;> simp [gets, posts, puts, RuleKind.methods, bind, Except.bind, Except.map]

private theorem servingKind_eq_some {kind : RuleKind}
    (serving : servingKind numbers limits req path m = some kind) :
    m ∈ kind.methods ∧ PathMatches numbers limits req path kind := by
  have found := List.find?_some serving
  rw [decide_eq_true_eq] at found
  exact ⟨found.1, (pathMatches_iff kind).mpr found.2⟩

private theorem servingKind_eq_none :
    servingKind numbers limits req path m = none ↔
      ∀ kind, PathMatches numbers limits req path kind → m ∉ kind.methods := by
  rw [servingKind, List.find?_eq_none]
  constructor
  · intro none kind matched served
    have listed : kind ∈ [RuleKind.get, RuleKind.post, RuleKind.put] := by cases kind <;> decide
    exact none kind listed (decide_eq_true ⟨served, (pathMatches_iff kind).mp matched⟩)
  · intro none kind _ both
    rw [decide_eq_true_eq] at both
    exact none kind ((pathMatches_iff kind).mpr both.2) both.1

private theorem mem_reportedMethods (hit : RuleKind → Bool) (m' : Method) :
    m' ∈ reportedMethods (hit .get) (hit .post) (hit .put) ↔
      m' = .options ∨ ∃ kind, hit kind = true ∧ m' ∈ RuleKind.methods kind := by
  have kinds : ∀ P : RuleKind → Prop, (∃ kind, P kind) ↔ P .get ∨ P .post ∨ P .put := by
    intro P
    constructor
    · rintro ⟨kind, holds⟩
      cases kind
      exacts [Or.inl holds, Or.inr (Or.inl holds), Or.inr (Or.inr holds)]
    · rintro (holds | holds | holds)
      exacts [⟨_, holds⟩, ⟨_, holds⟩, ⟨_, holds⟩]
  rw [kinds]
  cases hit .get <;> cases hit .post <;> cases hit .put <;> cases m' <;> decide

private theorem routes_of_served {kind : RuleKind} {handler : Handler}
    (serving : servingKind numbers limits req path m = some kind)
    (built : kind.construct numbers limits req path = some (.ok handler))
    (result : routerMatch numbers limits req path = .ok (some handler)) :
    Routes numbers limits req path m := by
  obtain ⟨served, matched⟩ := servingKind_eq_some serving
  refine ⟨iff_of_true ⟨handler, result⟩ ⟨kind, matched, served⟩, fun other again => ?_, ?_,
    fun allowed failed => ?_, ?_⟩
  · cases result.symm.trans again
    exact ⟨kind, serving, built⟩
  · refine iff_of_false (fun ⟨allowed, failed⟩ => ?_) fun both => both.2 kind matched served
    cases result.symm.trans failed
  · cases result.symm.trans failed
  · refine iff_of_false (fun none => ?_) fun none => none kind matched
    cases result.symm.trans none

private theorem routes_of_unserved
    (unserved : ∀ kind, PathMatches numbers limits req path kind → m ∉ RuleKind.methods kind)
    (hit : ∃ kind, PathMatches numbers limits req path kind)
    (result : routerMatch numbers limits req path = .error (.methodNotAllowed (reportedMethods
      (RuleKind.get.construct numbers limits req path).isSome
      (RuleKind.post.construct numbers limits req path).isSome
      (RuleKind.put.construct numbers limits req path).isSome))) :
    Routes numbers limits req path m := by
  refine ⟨iff_of_false (fun ⟨handler, done⟩ => ?_) fun ⟨kind, matched, served⟩ => unserved kind matched served,
    fun handler done => ?_, iff_of_true ⟨_, result⟩ ⟨hit, unserved⟩, fun allowed failed m' => ?_, ?_⟩
  · cases result.symm.trans done
  · cases result.symm.trans done
  · cases result.symm.trans failed
    rw [mem_reportedMethods fun kind => (kind.construct numbers limits req path).isSome]
    simp only [pathMatches_iff]
  · refine iff_of_false (fun done => ?_) fun none => hit.elim none
    cases result.symm.trans done

private theorem routes_of_unmatched (none : ∀ kind, ¬PathMatches numbers limits req path kind)
    (result : routerMatch numbers limits req path = .ok Option.none) :
    Routes numbers limits req path m := by
  refine ⟨iff_of_false (fun ⟨handler, done⟩ => ?_) fun ⟨kind, matched, _⟩ => none kind matched,
    fun handler done => ?_, iff_of_false (fun ⟨allowed, failed⟩ => ?_) fun both => both.1.elim none,
    fun allowed failed => ?_, iff_of_true result none⟩
  · cases result.symm.trans done
  · cases result.symm.trans done
  · cases result.symm.trans failed
  · cases result.symm.trans failed

/-- What the router does when the constructor of the matching rule for GET accepts the query. -/
private theorem routes_of_accepted {name : String}
    (method : fcgiGetEnv req "REQUEST_METHOD" = .ok name) (known : parseMethod name = some m)
    (accepted : ∀ e, RuleKind.get.construct numbers limits req path ≠ some (.error e)) :
    Routes numbers limits req path m := by
  have result := routerMatch_eq method known accepted
  cases serving : servingKind numbers limits req path m with
  | some kind =>
      obtain ⟨handler, built⟩ : ∃ handler, kind.construct numbers limits req path = some (.ok handler) := by
        rcases construct_accepted accepted kind with missing | built
        · have hit := (pathMatches_iff kind).mp (servingKind_eq_some serving).2
          rw [missing] at hit
          cases hit
        · exact built
      rw [serving] at result
      dsimp only at result
      rw [built] at result
      exact routes_of_served serving built result
  | none =>
      rw [serving] at result
      dsimp only at result
      split at result
      next hit =>
        rw [Bool.or_eq_true, Bool.or_eq_true] at hit
        refine routes_of_unserved (servingKind_eq_none.mp serving) ?_ result
        rcases hit with (get | post) | put
        exacts [⟨_, (pathMatches_iff _).mpr get⟩, ⟨_, (pathMatches_iff _).mpr post⟩,
          ⟨_, (pathMatches_iff _).mpr put⟩]
      next hit =>
        rw [Bool.or_eq_true, Bool.or_eq_true, not_or, not_or] at hit
        refine routes_of_unmatched (fun kind matched => ?_) result
        have own := (pathMatches_iff kind).mp matched
        cases kind
        exacts [hit.1.1 own, hit.1.2 own, hit.2 own]

/-- At most one rule for each method matches; where its constructor takes the query, path and
method decide the rest. -/
theorem router_routes (numbers : Numbers) (limits : MapLimits) (req : HttpRequest) (path : List Text)
    {name : String} (method : fcgiGetEnv req "REQUEST_METHOD" = .ok name)
    (known : parseMethod name = some m) :
    (∀ kind : RuleKind, ((kind.rules numbers limits req).filter
        (fun rule => (matchParts rule.parts path).isSome)).length ≤ 1) ∧
      ((∀ e, RuleKind.get.construct numbers limits req path ≠ some (.error e)) →
        Routes numbers limits req path m) ∧
      ∀ e, RuleKind.get.construct numbers limits req path = some (.error e) →
        m ∈ RuleKind.get.methods → routerMatch numbers limits req path = .error e := by
  refine ⟨fun kind => ?_, routes_of_accepted method known, fun e refused served => ?_⟩
  · exact (exclusive_rules numbers limits req kind).filter_length path
  · rw [routerMatch_known method known, matchRules_kind, refused]
    rfl

def sampleMethod (method : String) : HttpRequest where
  param := fun name => if name = "REQUEST_METHOD" then some method else
    if name = "REQUEST_URI" then some "/api/0.6/map" else none
  now := 0
  payload := .error (.badRequest "")

theorem router_routes_sampleMethod :
    Routes decimalNumbers ⟨50000, 1 / 4⟩ (sampleMethod "PUT") ["changeset".toList, "7".toList] .put :=
  (router_routes decimalNumbers ⟨50000, 1 / 4⟩ (sampleMethod "PUT") ["changeset".toList, "7".toList]
    (show fcgiGetEnv (sampleMethod "PUT") "REQUEST_METHOD" = .ok "PUT" from rfl) (by decide)).2.1
    (fun e refused => by
      have accepted : RuleKind.get.construct decimalNumbers ⟨50000, 1 / 4⟩ (sampleMethod "PUT")
          ["changeset".toList, "7".toList] = some (.ok (.reads (.changeset 7 false))) := by
        decide +kernel
      rw [accepted] at refused
      cases refused)

/-- The constructor of `map_handler` asks for a box before the method is compared. -/
theorem not_routes_sampleMethod :
    ¬∀ (numbers : Numbers) (limits : MapLimits) (req : HttpRequest) (path : List Text) (m : Method)
      (name : String), fcgiGetEnv req "REQUEST_METHOD" = .ok name → parseMethod name = some m →
        Routes numbers limits req path m := by
  intro all
  have routes := all decimalNumbers ⟨50000, 1 / 4⟩ (sampleMethod "GET") ["map".toList] .get "GET"
    rfl (by decide)
  have matched : PathMatches decimalNumbers ⟨50000, 1 / 4⟩ (sampleMethod "GET") ["map".toList] .get :=
    ⟨_, List.mem_cons_self, by unfold Matches; decide⟩
  obtain ⟨handler, done⟩ := routes.returned.mpr ⟨.get, matched, by decide⟩
  have refused : routerMatch decimalNumbers ⟨50000, 1 / 4⟩ (sampleMethod "GET") ["map".toList] =
      .error (.thrown (.badRequest
        "The parameter bbox is required, and must be of the form min_lon,min_lat,max_lon,max_lat.")) := by
    decide +kernel
  rw [refused] at done
  cases done

end Router

end Cgimap.Http.RouteMatching
