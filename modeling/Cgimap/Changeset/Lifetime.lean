/- path: Cgimap/Changeset/Lifetime
   generality: I
   source: none
   digest: The times of a changeset over any run of transactions one after the other. -/

import Cgimap.Changeset.RowEffects

set_option autoImplicit false
set_option relaxedAutoImplicit false

namespace Cgimap.Changeset.Lifetime

open Cgimap.Library.KeyedTable
open Cgimap.Library.StatementProgram
open Cgimap.Library.StatementProgram.Prog
open Cgimap.Model.Types
open Cgimap.Model.Database
open Cgimap.Changeset.Updater
open Cgimap.Changeset.Responders
open Cgimap.Changeset.RowEffects

variable {tx : Transaction} {c : Int} {db db' : Db} {reply : Reply}

/-- An upload to a changeset or an update of its tags. -/
def Extends (request : Request) (c : Int) : Prop :=
  (∃ mt payload, request = .upload mt c payload) ∨ ∃ tags, request = .update c tags

theorem Extends.target {request : Request} (extends' : Extends request c) :
    request.target = some c := by
  rcases extends' with ⟨mt, payload, rfl⟩ | ⟨tags, rfl⟩
  · rfl
  · rfl

/-- What a committed transaction can do to the row of a changeset. -/
inductive RowStep (tx : Transaction) (c : Int) (db db' : Db) : Prop where
  | other (away : tx.request.target ≠ some c)
      (same : db'.changesets.find? c = db.changesets.find? c)
  | created (userId : Nat) (away : tx.request.target = none)
      (absent : db.changesets.find? c = none)
      (row : db'.changesets.find? c = some (newChangesetRow tx userId c))
  | extended (r r' : ChangesetRow) (request : Extends tx.request c)
      (touches : Touches tx c r r' db db') (createdAt : r'.createdAt = r.createdAt)
      (closedAt : r'.closedAt = extendedClosedAt (sessionOf tx r.userId) r)
  | closed (r : ChangesetRow) (request : tx.request = .close c)
      (touches : Touches tx c r { r with closedAt := tx.now } db db')

private theorem other_of_find {c₀ : Int} {r : ChangesetRow} (ne : c ≠ c₀)
    (find : ∀ c', db'.changesets.find? c' = if c' = c₀ then some r else db.changesets.find? c') :
    db'.changesets.find? c = db.changesets.find? c := by
  rw [find, if_neg ne]

/-- Every committed transaction is one of these steps. -/
theorem rowStep_of_run (run : tx.responder.run db = .ok (reply, db')) (c : Int) :
    RowStep tx c db db' := by
  obtain ⟨cfg, now, user, limits, fuel, request⟩ := tx
  cases request with
  | create tags =>
      obtain ⟨c₀, userId, -, absent, find, -⟩ := changesetCreateResponder_eq_ok run
      by_cases same : c = c₀
      · subst same
        refine .created userId rfl absent ?_
        rw [find, if_pos rfl]
      · exact .other nofun (other_of_find same find)
  | update c₀ tags =>
      obtain ⟨r, touches, -⟩ := changesetUpdateResponder_eq_ok run
      by_cases same : c = c₀
      · subst same
        exact .extended r _ (.inr ⟨tags, rfl⟩) touches rfl rfl
      · exact .other (fun named => same (Option.some.inj named).symm)
          (other_of_find same touches.find)
  | close c₀ =>
      obtain ⟨r, touches, -⟩ := changesetCloseResponder_eq_ok run
      by_cases same : c = c₀
      · subst same
        exact .closed r rfl touches
      · exact .other (fun named => same (Option.some.inj named).symm)
          (other_of_find same touches.find)
  | upload mt c₀ payload =>
      obtain ⟨r, st, db₁, -, touches, -⟩ := changesetUploadResponder_eq_ok run
      by_cases same : c = c₀
      · subst same
        exact .extended r _ (.inl ⟨mt, payload, rfl⟩) touches rfl rfl
      · exact .other (fun named => same (Option.some.inj named).symm)
          (other_of_find same touches.find)

section Times

variable {cfg : Settings} {r : ChangesetRow} {T T' : Int}

/-- What holds of the row of a changeset at a time when all transactions so far have
begun. -/
structure Timely (cfg : Settings) (r : ChangesetRow) (T : Int) : Prop where
  begun : r.createdAt ≤ T
  created_le : r.createdAt ≤ r.closedAt
  closed_le : r.closedAt ≤ r.createdAt + interval cfg.changesetTimeoutOpenMax
  -- either the idle time runs, or the open time is used up
  cause : r.closedAt ≤ T + interval cfg.changesetTimeoutIdle ∨
    (r.closedAt = r.createdAt + interval cfg.changesetTimeoutOpenMax ∧
      0 < interval cfg.changesetTimeoutIdle)

theorem Timely.mono (timely : Timely cfg r T) (later : T ≤ T') : Timely cfg r T' := by
  obtain ⟨begun, created, closed, cause⟩ := timely
  refine ⟨by omega, created, closed, ?_⟩
  rcases cause with idle | used
  · exact .inl (by omega)
  · exact .inr used

private theorem interval_nonneg {seconds : Int} (nonneg : 0 ≤ seconds) : 0 ≤ interval seconds := by
  unfold interval
  omega

private theorem interval_mono {a b : Int} (le : a ≤ b) : interval a ≤ interval b := by
  unfold interval
  omega

theorem timely_extended {userId : Nat} {r' : ChangesetRow} (timely : Timely cfg r tx.now)
    (settings : tx.cfg = cfg) (notClosed : tx.now ≤ r.closedAt)
    (createdAt : r'.createdAt = r.createdAt)
    (closedAt : r'.closedAt = extendedClosedAt (sessionOf tx userId) r) :
    Timely cfg r' tx.now ∧ r.closedAt ≤ r'.closedAt ∧ tx.now ≤ r'.closedAt := by
  obtain ⟨begun, created, closed, cause⟩ := timely
  have idle : 0 ≤ interval cfg.changesetTimeoutIdle :=
    interval_nonneg cfg.changesetTimeoutIdle_nonneg
  simp only [extendedClosedAt, sessionOf, settings] at closedAt
  split at closedAt
  · -- the open time is used up: the idle time is positive, for closed_at was in range
    have positive : 0 < interval cfg.changesetTimeoutIdle := by omega
    exact ⟨⟨by omega, by omega, by omega, .inr ⟨by omega, positive⟩⟩, by omega, by omega⟩
  · have forward : r.closedAt ≤ tx.now + interval cfg.changesetTimeoutIdle := by
      rcases cause with running | ⟨used, positive⟩
      · exact running
      · omega
    exact ⟨⟨by omega, by omega, by omega, .inl (by omega)⟩, by omega, by omega⟩

theorem timely_created {userId : Nat} (settings : tx.cfg = cfg)
    (ordered : cfg.changesetTimeoutIdle ≤ cfg.changesetTimeoutOpenMax) :
    Timely cfg (newChangesetRow tx userId c) tx.now := by
  have idle : 0 ≤ interval cfg.changesetTimeoutIdle :=
    interval_nonneg cfg.changesetTimeoutIdle_nonneg
  have open' := interval_mono ordered
  constructor
  · exact Int.le_refl _
  · simp only [newChangesetRow, settings]
    omega
  · simp only [newChangesetRow, settings]
    omega
  · simp only [newChangesetRow, settings]
    exact .inl (Int.le_refl _)

theorem timely_closed (timely : Timely cfg r tx.now) (notClosed : tx.now ≤ r.closedAt) :
    Timely cfg { r with closedAt := tx.now } tx.now := by
  obtain ⟨begun, created, closed, cause⟩ := timely
  have idle : 0 ≤ interval cfg.changesetTimeoutIdle :=
    interval_nonneg cfg.changesetTimeoutIdle_nonneg
  refine ⟨begun, begun, ?_, .inl ?_⟩
  · change tx.now ≤ r.createdAt + _
    omega
  · change tx.now ≤ tx.now + _
    omega

end Times

section Runs

variable {cfg : Settings} {commits : List Commit}

private def TimelyAfter (cfg : Settings) (c : Int) (done : List Commit) (db : Db) : Prop :=
  ∀ r, db.changesets.find? c = some r → ∀ T, (∀ cm ∈ done, cm.tx.now ≤ T) → Timely cfg r T

private theorem timelyAfter_step {done : List Commit} {cm : Commit}
    (ordered : cfg.changesetTimeoutIdle ≤ cfg.changesetTimeoutOpenMax)
    (settings : cm.tx.cfg = cfg) (times : ∀ earlier ∈ done, earlier.tx.now ≤ cm.tx.now)
    (run : cm.tx.responder.run cm.before = .ok (cm.reply, cm.after))
    (before : TimelyAfter cfg c done cm.before) :
    TimelyAfter cfg c (done ++ [cm]) cm.after := by
  intro r' found T bound
  rw [List.forall_mem_append, List.forall_mem_singleton] at bound
  refine Timely.mono ?_ bound.2
  cases rowStep_of_run run c with
  | other away same => exact before r' (same ▸ found) cm.tx.now times
  | created userId away absent row =>
      obtain rfl := Option.some.inj (row.symm.trans found)
      exact timely_created settings ordered
  | extended r r'' request touches createdAt closedAt =>
      have after := touches.find c
      rw [if_pos rfl] at after
      obtain rfl := Option.some.inj (after.symm.trans found)
      exact (timely_extended (before r touches.found cm.tx.now times) settings touches.notClosed
        createdAt closedAt).1
  | closed r request touches =>
      have after := touches.find c
      rw [if_pos rfl] at after
      obtain rfl := Option.some.inj (after.symm.trans found)
      exact timely_closed (before r touches.found cm.tx.now times) touches.notClosed

private theorem earlier_le {done rest : List Commit} {cm : Commit}
    (times : ((done ++ cm :: rest).map (fun cm => cm.tx.now)).Pairwise (· ≤ ·)) :
    ∀ earlier ∈ done, earlier.tx.now ≤ cm.tx.now := by
  intro earlier member
  rw [List.map_append, List.pairwise_append] at times
  exact times.2.2 _ (List.mem_map_of_mem member) _ (by simp)

private theorem timelyAfter_run (run : Serial db commits db')
    (ordered : cfg.changesetTimeoutIdle ≤ cfg.changesetTimeoutOpenMax)
    (settings : ∀ cm ∈ commits, cm.tx.cfg = cfg)
    (times : (commits.map (fun cm => cm.tx.now)).Pairwise (· ≤ ·))
    (absent : db.changesets.find? c = none) :
    TimelyAfter cfg c commits db' ∧
      ∀ done cm rest, done ++ cm :: rest = commits → TimelyAfter cfg c done cm.before := by
  have start : TimelyAfter cfg c [] db := by
    intro r found
    rw [absent] at found
    cases found
  refine Serial.invariant (I := fun done db' => TimelyAfter cfg c done db' ∧
    ∀ done' cm rest, done' ++ cm :: rest = done → TimelyAfter cfg c done' cm.before) run
    ⟨start, fun done' cm rest split => by simp at split⟩ ?_ ?_
  · intro done cm rest split here before
    have member : cm ∈ commits := by
      rw [← split]
      simp
    have earlier : ∀ earlier ∈ done, earlier.tx.now ≤ cm.tx.now := earlier_le (by rwa [split])
    refine ⟨timelyAfter_step ordered (settings cm member) earlier here before.1, ?_⟩
    intro done' cm' rest' split'
    rcases List.eq_nil_or_concat rest' with rfl | ⟨rest'', last, rfl⟩
    · obtain ⟨rfl, same⟩ := List.append_inj' split' rfl
      cases same
      exact before.1
    · rw [List.concat_eq_append, ← List.cons_append, ← List.append_assoc] at split'
      obtain ⟨earlierSplit, -⟩ := List.append_inj' split' rfl
      exact before.2 done' cm' rest'' earlierSplit
  · exact fun _ _ _ before => before

private theorem closed_forever {r : ChangesetRow} (run : Serial db commits db')
    (found : db.changesets.find? c = some r) (late : ∀ cm ∈ commits, r.closedAt < cm.tx.now) :
    (∀ cm ∈ commits, cm.tx.request.target ≠ some c) ∧ db'.changesets.find? c = some r := by
  refine Serial.invariant (I := fun done db' => (∀ cm ∈ done, cm.tx.request.target ≠ some c) ∧
    db'.changesets.find? c = some r) run
    ⟨fun _ member => (List.not_mem_nil member).elim, found⟩ ?_ ?_
  · intro done cm rest split here before
    have after := late cm (by rw [← split]; simp)
    have notTouched : ∀ {r₁ r₂ : ChangesetRow}, Touches cm.tx c r₁ r₂ cm.before cm.after →
        False := by
      intro r₁ r₂ touches
      obtain rfl := Option.some.inj (touches.found.symm.trans before.2)
      have := touches.notClosed
      omega
    rw [List.forall_mem_append, List.forall_mem_singleton]
    cases rowStep_of_run here c with
    | other away same => exact ⟨⟨before.1, away⟩, same.trans before.2⟩
    | created userId away absent row =>
        rw [absent] at before
        cases before.2
    | extended r₁ r₂ request touches createdAt closedAt => exact (notTouched touches).elim
    | closed r₁ request touches => exact (notTouched touches).elim
  · exact fun _ _ _ before => before

/-- The life of a changeset that is created in the run. At every point of the run its
times are in range; an upload or a tag update never shortens its life and leaves it
open at the transaction's time; and from the first transaction after its time of
closing on, none of them is on this changeset. -/
theorem changeset_lifetime {mid : Db} {commits' : List Commit} (run : Serial db commits mid)
    (run' : Serial mid commits' db')
    (ordered : cfg.changesetTimeoutIdle ≤ cfg.changesetTimeoutOpenMax)
    (settings : ∀ cm ∈ commits ++ commits', cm.tx.cfg = cfg)
    (times : ((commits ++ commits').map (fun cm => cm.tx.now)).Pairwise (· ≤ ·))
    (absent : db.changesets.find? c = none) :
    (∀ r, mid.changesets.find? c = some r →
      r.createdAt ≤ r.closedAt ∧
      r.closedAt ≤ r.createdAt + interval cfg.changesetTimeoutOpenMax ∧
      ((∀ cm ∈ commits'.head?, r.closedAt < cm.tx.now) →
        (∀ cm ∈ commits', cm.tx.request.target ≠ some c) ∧
          db'.changesets.find? c = some r)) ∧
    ∀ cm ∈ commits, Extends cm.tx.request c → ∃ r r', cm.before.changesets.find? c = some r ∧
      cm.after.changesets.find? c = some r' ∧ r.closedAt ≤ r'.closedAt ∧
      cm.tx.now ≤ r'.closedAt := by
  rw [List.forall_mem_append] at settings
  have times₁ : (commits.map (fun cm => cm.tx.now)).Pairwise (· ≤ ·) := by
    rw [List.map_append, List.pairwise_append] at times
    exact times.1
  obtain ⟨timely, before⟩ := timelyAfter_run (c := c) run ordered settings.1 times₁ absent
  constructor
  · intro r found
    -- any late enough time will do for the two bounds
    obtain ⟨T, bound⟩ : ∃ T, ∀ cm ∈ commits, cm.tx.now ≤ T := by
      refine ⟨(commits.map (fun cm => cm.tx.now)).foldr max 0, fun cm member => ?_⟩
      clear * - member
      induction commits with
      | nil => cases member
      | cons x rest ih =>
          rcases List.mem_cons.mp member with rfl | later
          · exact le_max_left _ _
          · exact le_trans (ih later) (le_max_right _ _)
    have here := timely r found T bound
    refine ⟨here.created_le, here.closed_le, fun late => closed_forever run' found ?_⟩
    cases commits' with
    | nil => exact fun _ member => (List.not_mem_nil member).elim
    | cons first rest =>
        have start : r.closedAt < first.tx.now := late first rfl
        intro cm member
        rcases List.mem_cons.mp member with rfl | later
        · exact start
        · rw [List.map_append, List.pairwise_append, List.map_cons, List.pairwise_cons] at times
          have := times.2.1.1 cm.tx.now (List.mem_map_of_mem later)
          omega
  · intro cm member extends'
    obtain ⟨done, rest, split⟩ := List.append_of_mem member
    have earlier : ∀ earlier ∈ done, earlier.tx.now ≤ cm.tx.now := earlier_le (by rwa [← split])
    have named := extends'.target
    cases rowStep_of_run (Serial.run_of_mem run cm member) c with
    | other away same => exact absurd named away
    | created userId away absent row =>
        rw [away] at named
        cases named
    | extended r r' request touches createdAt closedAt =>
        have steps := timely_extended
          (before done cm rest split.symm r touches.found cm.tx.now earlier)
          (settings.1 cm member) touches.notClosed createdAt closedAt
        have after := touches.find c
        rw [if_pos rfl] at after
        exact ⟨r, r', touches.found, after, steps.2⟩
    | closed r request touches =>
        rw [Extends, request] at extends'
        rcases extends' with ⟨mt, payload, same⟩ | ⟨tags, same⟩
        · cases same
        · cases same

/-- A changeset is created, its tags are updated and it is closed. -/
def sampleLife : List Transaction :=
  [sampleTx 0 (.create (.ok ⟨[("comment", "roads")], by decide⟩)),
    sampleTx 60 (.update 7 (.ok ⟨[("comment", "paths")], by decide⟩)), sampleTx 90 (.close 7)]

theorem changeset_lifetime_sampleLife : ∃ commits mid r,
    Serial sampleUsers commits mid ∧ commits.length = 3 ∧ mid.changesets.find? 7 = some r ∧
      r.createdAt ≤ r.closedAt ∧ r.closedAt = interval 90 ∧
      ∀ cm ∈ commits, Extends cm.tx.request 7 → ∃ r r', cm.before.changesets.find? 7 = some r ∧
        cm.after.changesets.find? 7 = some r' ∧ r.closedAt ≤ r'.closedAt := by
  have all : ∀ cm ∈ (serially sampleLife sampleUsers).1, cm.tx.cfg = Settings.default := by
    intro cm member
    have listed := tx_of_serially member
    simp only [sampleLife, List.mem_cons, List.not_mem_nil, or_false] at listed
    rcases listed with same | same | same <;> rw [same] <;> rfl
  have times : ((serially sampleLife sampleUsers).1.map (fun cm => cm.tx.now)).Pairwise (· ≤ ·) := by
    decide +kernel
  have absent : sampleUsers.changesets.find? 7 = none := by decide
  have closed : ((serially sampleLife sampleUsers).2.changesets.find? 7).map
      ChangesetRow.closedAt = some (interval 90) := by decide +kernel
  obtain ⟨r, found, closedAt⟩ := Option.map_eq_some_iff.mp closed
  have ordered : Settings.default.changesetTimeoutIdle ≤
      Settings.default.changesetTimeoutOpenMax := by decide
  have life := changeset_lifetime (serial_serially sampleLife sampleUsers) .start ordered
    (by rwa [List.append_nil]) (by rwa [List.append_nil]) absent
  refine ⟨_, _, r, serial_serially sampleLife sampleUsers, by decide +kernel, found,
    (life.1 r found).1, closedAt, fun cm member extends' => ?_⟩
  obtain ⟨r₁, r₂, before, after, forward, -⟩ := life.2 cm member extends'
  exact ⟨r₁, r₂, before, after, forward⟩

end Runs

end Cgimap.Changeset.Lifetime
