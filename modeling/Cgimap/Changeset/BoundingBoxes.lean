/- path: Cgimap/Changeset/BoundingBoxes
   generality: I
   source: none
   digest: The stored box of a changeset is the hull of its uploads' boxes. -/

import Cgimap.Changeset.Lifetime
import Cgimap.Changeset.PayloadSizes
import Cgimap.Osmchange.EditBoxes
import Cgimap.Read.MapQuery

set_option autoImplicit false
set_option relaxedAutoImplicit false

namespace Cgimap.Changeset.BoundingBoxes

open Cgimap.Library.ExceptLists
open Cgimap.Library.KeyedTable
open Cgimap.Library.StatementProgram
open Cgimap.Library.StatementProgram.Prog
open Cgimap.Model.Types
open Cgimap.Model.Database
open Cgimap.Osmchange.UploadRecords
open Cgimap.Osmchange.Handler
open Cgimap.Osmchange.DocumentRuns
open Cgimap.Osmchange.BoxReach
open Cgimap.Osmchange.EditBoxes
open Cgimap.Changeset.Updater
open Cgimap.Changeset.Responders
open Cgimap.Changeset.PayloadSizes (samplePayload)
open Cgimap.Changeset.RowEffects
open Cgimap.Changeset.Lifetime
open Cgimap.Read.MapQuery

section Identity

/-- A box that is not wholly beyond one of the sides of the undefined box. -/
def Absorbs (cfg : Settings) (b : Bbox) : Prop :=
  b.minlat ≤ 200 * cfg.scale ∧ b.minlon ≤ 200 * cfg.scale ∧
    -200 * cfg.scale ≤ b.maxlat ∧ -200 * cfg.scale ≤ b.maxlon

instance (cfg : Settings) (b : Bbox) : Decidable (Absorbs cfg b) :=
  inferInstanceAs (Decidable (_ ∧ _))

variable {cfg : Settings} {b c : Bbox}

theorem undefined_expand_iff : (Bbox.undefined cfg).expand b = b ↔ Absorbs cfg b := by
  obtain ⟨minlat, minlon, maxlat, maxlon⟩ := b
  simp only [Bbox.undefined, Bbox.expand, Bbox.mk.injEq, min_eq_right_iff, max_eq_right_iff,
    Absorbs]

theorem absorbs_undefined (cfg : Settings) : Absorbs cfg (Bbox.undefined cfg) :=
  undefined_expand_iff.mp (Bbox.expand_self _)

theorem Absorbs.expand (absorbs : Absorbs cfg b) (c : Bbox) : Absorbs cfg (b.expand c) := by
  rw [← undefined_expand_iff, ← Bbox.expand_assoc, undefined_expand_iff.mpr absorbs]

theorem Absorbs.expand_eq_undefined (absorbs : Absorbs cfg c)
    (empty : b.expand c = Bbox.undefined cfg) : c = Bbox.undefined cfg := by
  have same := undefined_expand_iff.mpr absorbs
  rwa [← empty, Bbox.expand_assoc, Bbox.expand_self, empty, eq_comm] at same

end Identity

section Hulls

variable {cfg : Settings} {boxes : List Bbox}

/-- The hull of some boxes, none of which stands for the empty box. -/
def hullOf : List Bbox → Option Bbox
  | [] => none
  | b :: bs => some (bs.foldl Bbox.expand b)

theorem hullOf_eq_none : hullOf boxes = none ↔ boxes = [] := by
  cases boxes with
  | nil => exact iff_of_true rfl rfl
  | cons b bs => exact iff_of_false nofun nofun

private theorem hullOf_concat (b : Bbox) :
    hullOf (boxes ++ [b]) = some (((hullOf boxes).map (fun h => h.expand b)).getD b) := by
  cases boxes with
  | nil => rfl
  | cons c cs =>
      rw [List.cons_append, hullOf, List.foldl_append]
      rfl

private theorem absorbs_hullOf (absorb : ∀ b ∈ boxes, Absorbs cfg b) {h : Bbox}
    (hull : hullOf boxes = some h) : Absorbs cfg h := by
  cases boxes with
  | nil => cases hull
  | cons b bs =>
      obtain rfl := Option.some.inj hull
      have first := absorb b List.mem_cons_self
      clear absorb hull
      induction bs generalizing b with
      | nil => exact first
      | cons c cs ih => exact ih (b.expand c) (first.expand c)

/-- What `update_changeset` makes of a stored box. -/
def nextBox (cfg : Settings) (stored : Option Bbox) (box : Bbox) : Option Bbox :=
  let b := (stored.getD (Bbox.undefined cfg)).expand box
  if b = Bbox.undefined cfg then stored else some b

private theorem nextBox_undefined {stored : Option Bbox}
    (absorb : ∀ b ∈ stored, Absorbs cfg b) : nextBox cfg stored (Bbox.undefined cfg) = stored := by
  unfold nextBox
  cases stored with
  | none => exact if_pos (Bbox.expand_self _)
  | some b =>
      have same : b.expand (Bbox.undefined cfg) = b := by
        rw [Bbox.expand_comm]
        exact undefined_expand_iff.mpr (absorb b rfl)
      simp only [Option.getD_some, same, ite_self]

private theorem nextBox_hullOf (absorb : ∀ b ∈ boxes, Absorbs cfg b) {box : Bbox}
    (absorbs : Absorbs cfg box) :
    nextBox cfg (hullOf boxes) box =
      hullOf (boxes ++ [box].filter (fun b => decide (b ≠ Bbox.undefined cfg))) := by
  by_cases empty : box = Bbox.undefined cfg
  · subst empty
    rw [nextBox_undefined fun b => absorbs_hullOf absorb]
    simp
  · have some : [box].filter (fun b => decide (b ≠ Bbox.undefined cfg)) = [box] := by
      simp [empty]
    rw [some, hullOf_concat, nextBox]
    have more : ((hullOf boxes).getD (Bbox.undefined cfg)).expand box ≠ Bbox.undefined cfg :=
      fun none => empty (absorbs.expand_eq_undefined none)
    rw [if_neg more]
    cases hullOf boxes with
    | none => exact congrArg Option.some (undefined_expand_iff.mpr absorbs)
    | some h => rfl

end Hulls

section Runs

def storedBox (db : Db) (c : Int) : Option Bbox := (db.changesets.find? c).bind ChangesetRow.bbox

/-- The box of the upload that a committed transaction is for the changeset: the one of the
edited nodes and ways, together with the relations' one. -/
inductive UploadBox (c : Int) (cm : Commit) : Bbox → Prop where
  | upload {mt : MimeType} {payload : Payload} {st : Upload} {db' : Db}
      (request : cm.tx.request = .upload mt c payload)
      (processed : (processPayload (cm.tx.env c) mt payload).run cm.before = .ok (st, db')) :
      UploadBox c cm ((editBox (cm.tx.env c) st).expand (st.updater .relation).bbox)
  | none (request : ∀ mt payload, cm.tx.request ≠ .upload mt c payload) :
      UploadBox c cm (Bbox.undefined cm.tx.cfg)

variable {cfg : Settings} {c : Int} {db db' : Db} {commits : List Commit}

private theorem absorbs_uploadBox {cm : Commit} {box : Bbox} (settings : cm.tx.cfg = cfg)
    (uploads : UploadBox c cm box) : Absorbs cfg box := by
  cases uploads with
  | upload request processed =>
      rw [← settings]
      exact (((absorbs_undefined cm.tx.cfg).expand _).expand _).expand _
  | none request =>
      rw [settings]
      exact absorbs_undefined cfg

private theorem box_of_away {cm : Commit} {box : Bbox} (settings : cm.tx.cfg = cfg)
    (away : ∀ mt payload, cm.tx.request ≠ .upload mt c payload) (uploads : UploadBox c cm box) :
    box = Bbox.undefined cfg := by
  cases uploads with
  | upload request processed => exact absurd request (away _ _)
  | none request => rw [settings]

private theorem storedBox_of_find {r : ChangesetRow} (found : db.changesets.find? c = some r) :
    storedBox db c = r.bbox := by rw [storedBox, found, Option.bind_some]

private theorem updatedRow_bbox {tx : Transaction} {r : ChangesetRow} (new : UploadStats) (n : Nat)
    (box : Bbox) : (updatedRow (sessionOf tx r.userId) new
      (((freshUpdater tx c).load r.numChanges r.bbox).count n box) r).bbox =
        nextBox tx.cfg r.bbox box := rfl

private theorem storedBox_of_touches {tx : Transaction} {r r' : ChangesetRow}
    (touches : Touches tx c r r' db db') : storedBox db c = r.bbox ∧ storedBox db' c = r'.bbox := by
  have after := touches.find c
  rw [if_pos rfl] at after
  exact ⟨storedBox_of_find touches.found, storedBox_of_find after⟩

private theorem box_step {cm : Commit} {box : Bbox} (settings : cm.tx.cfg = cfg)
    (run : cm.tx.responder.run cm.before = .ok (cm.reply, cm.after))
    (absorb : ∀ b ∈ storedBox cm.before c, Absorbs cfg b) (uploads : UploadBox c cm box) :
    storedBox cm.after c = nextBox cfg (storedBox cm.before c) box := by
  -- other requests than uploads to the changeset leave the box as it is
  have quiet : (∀ mt payload, cm.tx.request ≠ .upload mt c payload) →
      storedBox cm.after c = storedBox cm.before c →
      storedBox cm.after c = nextBox cfg (storedBox cm.before c) box := by
    intro away same
    rw [box_of_away settings away uploads, nextBox_undefined absorb, same]
  cases rowStep_of_run run c with
  | other away same =>
      refine quiet (fun mt payload request => away ?_) (by rw [storedBox, same, storedBox])
      rw [request]
      rfl
  | created userId away absent row =>
      refine quiet (fun mt payload request => ?_) ?_
      · rw [request] at away
        cases away
      · rw [storedBox_of_find row, storedBox, absent]
        rfl
  | closed r request touches =>
      refine quiet (fun mt payload other => ?_) ?_
      · cases request.symm.trans other
      · rw [(storedBox_of_touches touches).1, (storedBox_of_touches touches).2]
  | extended r r' request touches createdAt closedAt =>
      unfold Transaction.responder at run
      rcases request with ⟨mt, payload, request⟩ | ⟨tags, request⟩
      · rw [request] at run
        obtain ⟨r₁, st, db₁, processed, touches', -⟩ := changesetUploadResponder_eq_ok run
        obtain ⟨before, after⟩ := storedBox_of_touches touches'
        rw [before, after, updatedRow_bbox, settings]
        cases uploads with
        | none other => exact absurd request (other mt payload)
        | upload request' processed' =>
            cases request.symm.trans request'
            obtain ⟨rfl, -⟩ := Prod.mk.inj (Except.ok.inj (processed.symm.trans processed'))
            rfl
      · rw [request] at run
        obtain ⟨r₁, touches', -⟩ := changesetUpdateResponder_eq_ok run
        obtain ⟨before, after⟩ := storedBox_of_touches touches'
        rw [before, after, updatedRow_bbox, settings,
          box_of_away settings (fun mt payload other => ?_) uploads]
        cases request.symm.trans other

private theorem uploadBox_of_run {cm : Commit}
    (run : cm.tx.responder.run cm.before = .ok (cm.reply, cm.after)) : ∃ box, UploadBox c cm box := by
  by_cases upload : ∃ mt payload, cm.tx.request = .upload mt c payload
  · obtain ⟨mt, payload, request⟩ := upload
    unfold Transaction.responder at run
    rw [request] at run
    obtain ⟨r, st, db₁, processed, -⟩ := changesetUploadResponder_eq_ok run
    exact ⟨_, .upload request processed⟩
  · exact ⟨_, .none fun mt payload request => upload ⟨mt, payload, request⟩⟩

private theorem hullOf_toList (stored : Option Bbox) : hullOf stored.toList = stored := by
  cases stored <;> rfl

private theorem box_run (run : Serial db commits db') (settings : ∀ cm ∈ commits, cm.tx.cfg = cfg)
    (absorb : ∀ b ∈ storedBox db c, Absorbs cfg b) {boxes : List Bbox}
    (uploads : List.Forall₂ (UploadBox c) commits boxes) :
    storedBox db' c = hullOf ((storedBox db c).toList ++
      boxes.filter (fun b => decide (b ≠ Bbox.undefined cfg))) := by
  refine (Serial.invariant (I := fun done db' => ∀ boxes, List.Forall₂ (UploadBox c) done boxes →
    (∀ b ∈ boxes, Absorbs cfg b) ∧ storedBox db' c = hullOf ((storedBox db c).toList ++
      boxes.filter (fun b => decide (b ≠ Bbox.undefined cfg)))) run ?_ ?_ ?_ boxes uploads).2
  · intro boxes uploads
    cases uploads
    refine ⟨nofun, ?_⟩
    rw [List.filter_nil, List.append_nil, hullOf_toList]
  · intro done cm rest split here before boxes uploads
    obtain ⟨boxes₁, boxes₂, first, last, rfl⟩ := forall₂_append_left uploads
    cases last with
    | cons one none =>
        cases none
        have same : cm.tx.cfg = cfg := settings cm (by rw [← split]; simp)
        obtain ⟨absorb₁, stored⟩ := before boxes₁ first
        have all : ∀ b ∈ (storedBox db c).toList ++
            boxes₁.filter (fun b => decide (b ≠ Bbox.undefined cfg)), Absorbs cfg b := by
          intro b member
          rcases List.mem_append.mp member with old | new
          · exact absorb b (Option.mem_toList.mp old)
          · exact absorb₁ b (List.mem_of_mem_filter new)
        have own := absorbs_uploadBox same one
        refine ⟨List.forall_mem_append.mpr ⟨absorb₁, List.forall_mem_singleton.mpr own⟩, ?_⟩
        rw [box_step same here (by rw [stored]; exact fun b => absorbs_hullOf all) one, stored,
          nextBox_hullOf all own, List.append_assoc, ← List.filter_append]
  · exact fun _ _ _ before boxes uploads => before boxes uploads

end Runs

section Results

/-- What the parser lets through as the body of an element. -/
def ValidBody : (t : ObjectType) → Body t → Prop
  | .node, p => ValidPosition p
  | .way, _ => True
  | .relation, _ => True

private theorem inRange_of_valid {env : Env} (t : ObjectType) {body : Body t}
    (valid : ValidBody t body) : Located (InRange env.cfg) (coordOf env t body) := by
  have wide : ∀ q : ℚ, -180 ≤ q → q ≤ 180 → -200 * env.cfg.scale ≤ cround (q * env.cfg.scale) ∧
      cround (q * env.cfg.scale) ≤ 200 * env.cfg.scale := by
    intro q low high
    have bound := @cround_scaled env.cfg q 180 (by push_cast; exact low) (by push_cast; exact high)
    have scale := env.cfg.scale_pos
    omega
  cases t with
  | node =>
      obtain ⟨south, north, west, east⟩ := (valid : ValidPosition body)
      have lat := wide (Position.lat body) (by linarith) (by linarith)
      have lon := wide (Position.lon body) west east
      exact ⟨lat.1, lat.2, lon⟩
  | way => trivial
  | relation => trivial

/-- The undefined box is neutral exactly for the boxes that are not wholly beyond one of its
sides. With positions within its sides, as the parser and the table have them, the box of the
nodes and ways of an upload is the hull of the positions that they have before and after each
of their elements. The stored box of a changeset is at any time the hull of the one that it
had and of the boxes of its uploads, and stays without a value as long as these are empty. -/
theorem storedBox_hull :
    (∀ cfg b, ((Bbox.undefined cfg).expand b = b ↔ Absorbs cfg b) ∧
      (b.expand (Bbox.undefined cfg) = b ↔ Absorbs cfg b)) ∧
    (∀ env doc db st db', Stored (InRange env.cfg) db →
      (∀ el ∈ doc, el.op ≠ .delete → ValidBody el.objType el.object.body) →
      (processDocument env doc).run db = .ok (st, db') →
      Stored (InRange env.cfg) db' ∧ (∃ batches, Executed env doc db batches st db') ∧
        ∀ batches, Executed env doc db batches st db' →
          IsHull env.cfg (editBox env st) (Edited env batches)) ∧
    ∀ cfg c db db' commits, Serial db commits db' → (∀ cm ∈ commits, cm.tx.cfg = cfg) →
      (∀ b ∈ storedBox db c, Absorbs cfg b) →
      (∃ boxes, List.Forall₂ (UploadBox c) commits boxes) ∧
        ∀ boxes, List.Forall₂ (UploadBox c) commits boxes →
          storedBox db' c = hullOf ((storedBox db c).toList ++
            boxes.filter (fun b => decide (b ≠ Bbox.undefined cfg))) ∧
          (storedBox db' c = none ↔
            storedBox db c = none ∧ ∀ b ∈ boxes, b = Bbox.undefined cfg) := by
  refine ⟨fun cfg b => ⟨undefined_expand_iff, ?_⟩, ?_, ?_⟩
  · rw [Bbox.expand_comm]
    exact undefined_expand_iff
  · intro env doc db st db' stored valid done
    have written : Written (InRange env.cfg) env doc := fun el member changes =>
      inRange_of_valid el.objType (valid el member changes)
    obtain ⟨batches, executed⟩ := executed_of_processDocument done
    refine ⟨(located_of_executed executed stored written).2, ⟨batches, executed⟩,
      fun batches executed => isHull_of_executed executed ?_⟩
    obtain ⟨shown, -⟩ := located_of_executed executed stored written
    exact fun p edited => edited.elim (shown .node p) (shown .way p)
  · intro cfg c db db' commits run settings absorb
    have each := Serial.run_of_mem run
    refine ⟨?_, fun boxes uploads => ?_⟩
    · clear run settings absorb
      induction commits with
      | nil => exact ⟨[], .nil⟩
      | cons cm rest ih =>
          obtain ⟨box, first⟩ := uploadBox_of_run (c := c) (each cm List.mem_cons_self)
          obtain ⟨boxes, others⟩ := ih fun d inside => each d (List.mem_cons_of_mem cm inside)
          exact ⟨box :: boxes, .cons first others⟩
    · have hull := box_run run settings absorb uploads
      refine ⟨hull, ?_⟩
      rw [hull, hullOf_eq_none, List.append_eq_nil_iff, Option.toList_eq_nil_iff,
        List.filter_eq_nil_iff]
      simp

/-- A changeset is created and used by one upload, of nodes and a way in one place. -/
def samplePlace : List Transaction :=
  [sampleTx 0 (.create (.ok ⟨[], List.nodup_nil⟩)),
    sampleTx 60 (.upload .unspecifiedType 7 (samplePayload (sampleUse false)))]

theorem storedBox_hull_samplePlace :
    (Bbox.undefined Settings.default).expand (Bbox.ofPoint 1 2) = Bbox.ofPoint 1 2 ∧
    (∃ batches st db', Executed sampleEnv (sampleUse false) Db.empty batches st db' ∧
      IsHull sampleEnv.cfg (editBox sampleEnv st) (Edited sampleEnv batches)) ∧
    ∃ commits db' boxes, Serial sampleUsers commits db' ∧
      List.Forall₂ (UploadBox 7) commits boxes ∧
      storedBox db' 7 = some (Bbox.ofPoint 10000000 20000000) ∧
      storedBox db' 7 = hullOf (boxes.filter (fun b => decide (b ≠ Bbox.undefined Settings.default))) := by
  obtain ⟨neutral, hulls, boxes⟩ := storedBox_hull
  refine ⟨(neutral _ _).1.mpr (by decide), ?_, ?_⟩
  · obtain ⟨st, db', run, -⟩ := of_check (processDocument sampleEnv (sampleUse false)) Db.empty
      (fun _ _ => true) (by decide +kernel)
    have place : ValidPosition ⟨1, 2⟩ := by norm_num [ValidPosition]
    have valid : ∀ el ∈ sampleUse false, el.op ≠ .delete →
        ValidBody el.objType el.object.body := by
      intro el member changes
      simp only [sampleUse, List.mem_cons, List.not_mem_nil, or_false] at member
      rcases member with rfl | rfl | rfl | rfl | rfl | rfl
      · exact place
      · exact place
      · trivial
      · exact place
      · trivial
      · exact place
    have stored : Stored (InRange sampleEnv.cfg) Db.empty := by
      intro n p found
      cases found
    obtain ⟨-, ⟨batches, executed⟩, hull⟩ := hulls _ _ _ _ _ stored valid run
    exact ⟨batches, st, db', executed, hull batches executed⟩
  · have run := serial_serially samplePlace sampleUsers
    have settings : ∀ cm ∈ (serially samplePlace sampleUsers).1, cm.tx.cfg = Settings.default := by
      intro cm member
      have listed := tx_of_serially member
      simp only [samplePlace, List.mem_cons, List.not_mem_nil, or_false] at listed
      rcases listed with same | same <;> rw [same] <;> rfl
    have absent : storedBox sampleUsers 7 = none := by decide
    have stored : storedBox (serially samplePlace sampleUsers).2 7 =
        some (Bbox.ofPoint 10000000 20000000) := by decide +kernel
    obtain ⟨⟨bs, uploads⟩, all⟩ := boxes _ 7 _ _ _ run settings (by rw [absent]; exact fun b same => by cases same)
    have hull := (all bs uploads).1
    rw [absent] at hull
    exact ⟨_, _, bs, run, uploads, stored, hull⟩

/-- A node beyond the sides of the undefined box, which the table can hold. -/
def sampleFar : Db :=
  Db.empty.setCurrent .node ⟨[⟨1, 1, 7, true, 0, (⟨2010000000, 20, 0⟩ : NodeCoord)⟩], by decide⟩

theorem storedBox_not_hull :
    (¬ ∀ b, (Bbox.undefined Settings.default).expand b = b) ∧
    ∃ st db' batches, Executed sampleEnv [sampleNode .delete 1 1 false] sampleFar batches st db' ∧
      ¬ IsHull sampleEnv.cfg (editBox sampleEnv st) (Edited sampleEnv batches) := by
  constructor
  · intro neutral
    have moved := neutral (Bbox.ofPoint 2010000000 0)
    revert moved
    decide
  · obtain ⟨st, db', run, box⟩ := of_check
      (processDocument sampleEnv [sampleNode .delete 1 1 false]) sampleFar
      (fun st _ => decide (editBox sampleEnv st = ⟨2000000000, 20, 2010000000, 20⟩))
      (by decide +kernel)
    obtain ⟨batches, executed⟩ := executed_of_processDocument run
    refine ⟨st, db', batches, executed, fun hull => ?_⟩
    have far : ∀ p, Edited sampleEnv batches p → p = (⟨2010000000, 20, 0⟩ : NodeCoord) := by
      have stored : Stored (fun p => p = (⟨2010000000, 20, 0⟩ : NodeCoord)) sampleFar := by
        intro n p found
        obtain ⟨r, row, rfl⟩ := Option.map_eq_some_iff.mp found
        obtain ⟨member, -⟩ := Table.find?_eq_some.mp row
        obtain rfl := List.mem_singleton.mp member
        rfl
      have written : Written (fun p => p = (⟨2010000000, 20, 0⟩ : NodeCoord)) sampleEnv
          [sampleNode .delete 1 1 false] := by
        intro el member changes
        obtain rfl := List.mem_singleton.mp member
        exact absurd rfl changes
      obtain ⟨shown, -⟩ := located_of_executed executed stored written
      exact fun p edited => edited.elim (shown .node p) (shown .way p)
    have box : editBox sampleEnv st = ⟨2000000000, 20, 2010000000, 20⟩ := of_decide_eq_true box
    by_cases some : ∃ p, Edited sampleEnv batches p
    · obtain ⟨p, edited⟩ := some
      have least := hull.least p edited (Bbox.ofPoint 2010000000 20)
        (fun q shown => by rw [far q shown]; decide) .south
      rw [box] at least
      revert least
      decide
    · have empty := hull.empty fun p edited => some ⟨p, edited⟩
      rw [box] at empty
      revert empty
      decide

end Results

end Cgimap.Changeset.BoundingBoxes
