/- path: Cgimap/Osmchange/OptimisticLocking
   generality: I
   source: none
   digest: An executed change was based on the version that it writes, if that is an integer of 32 bits. -/

import Cgimap.Osmchange.ElementTrace
import Cgimap.Osmchange.NumericFields

set_option autoImplicit false
set_option relaxedAutoImplicit false

namespace Cgimap.Osmchange.OptimisticLocking

open Cgimap.Library.EventLog
open Cgimap.Library.ExceptLists
open Cgimap.Library.StatementProgram
open Cgimap.Library.StatementProgram.Prog
open Cgimap.Model.Types
open Cgimap.Model.Database
open Cgimap.Osmchange.UploadRecords
open Cgimap.Osmchange.Handler
open Cgimap.Osmchange.ObjectState
open Cgimap.Osmchange.DocumentRuns
open Cgimap.Osmchange.ElementTrace
open Cgimap.Osmchange.Attributes
open Cgimap.Osmchange.NumericFields (WholeInteger whole_of_read fromChars_eq_value)

variable {env : Env} {db db' : Db} {st : Upload} {raw : List RawElement} {doc : List Element}
  {batches : List Batch}

structure ChangesAt (env : Env) (batches : List Batch) (raw : List RawElement) (i : Nat)
    (r : RawElement) (x : (o : Obj) × Event o.1) : Prop where
  element : raw[i]? = some r
  event : (documentTrace env batches)[i]? = some x
  changes : x.2.op ≠ .create
  executed : x.2.skipped = false

/-- The version attribute of an element is this integer. -/
def WritesVersion (r : RawElement) (w : Int) : Prop :=
  ∃ s, versionText r = some s ∧ WholeInteger s w

def versionBefore (env : Env) (db : Db) (batches : List Batch) (i : Nat)
    (x : (o : Obj) × Event o.1) : Option Nat :=
  ((machine env.now).replay (snapshot db) ((documentTrace env batches).take i) x.1).version?

theorem element_of_event (executed : Executed env doc db batches st db') {i : Nat}
    {x : (o : Obj) × Event o.1} (event : (documentTrace env batches)[i]? = some x) :
    ∃ b ∈ batches, ∃ el ∈ b.els, doc[i]? = some el ∧
      x = ⟨objectOf env b el, eventOf env b el⟩ := by
  rw [documentTrace_eq_map, List.getElem?_map, Option.map_eq_some_iff] at event
  obtain ⟨p, found, rfl⟩ := event
  obtain ⟨inside, member⟩ := mem_elementsOf.mp (List.mem_of_getElem? found)
  refine ⟨p.1, inside, p.2, member, ?_, rfl⟩
  rw [← executed.elements, ← elementsOf_els, List.getElem?_map, found]
  rfl

theorem event_of_element (executed : Executed env doc db batches st db') {i : Nat} {el : Element}
    (own : doc[i]? = some el) :
    ∃ b, (documentTrace env batches)[i]? = some ⟨objectOf env b el, eventOf env b el⟩ := by
  rw [← executed.elements, ← elementsOf_els, List.getElem?_map, Option.map_eq_some_iff] at own
  obtain ⟨p, found, rfl⟩ := own
  exact ⟨p.1, by rw [documentTrace_eq_map, List.getElem?_map, found]; rfl⟩

/-- An executed change names the current version by the integer that its text starts with, as
far as 32 bits can tell. -/
theorem versionBefore_of_changesAt (executed : Executed env doc db batches st db')
    (parsed : raw.mapM RawElement.parse = .ok doc) {i : Nat} {r : RawElement}
    {x : (o : Obj) × Event o.1} (here : ChangesAt env batches raw i r x) :
    ∃ s, ∃ w : Int, versionText r = some s ∧ fromChars s = .value w ∧ 0 ≤ w ∧
      versionBefore env db batches i x = some (w.toNat % versionBound) := by
  obtain ⟨b, inside, el, member, own, rfl⟩ := element_of_event executed here.event
  have parse : r.parse = .ok el := by
    have all := mapM_eq_ok.mp parsed
    obtain ⟨short, rfl⟩ := List.getElem?_eq_some_iff.mp here.element
    obtain ⟨short', rfl⟩ := List.getElem?_eq_some_iff.mp own
    exact all.get short short'
  have changes : el.op ≠ .create := here.changes
  have kind : r.op = el.op := by
    unfold RawElement.parse at parse
    obtain ⟨_, -, rest⟩ := bind_eq_ok.mp parse
    cases rest
    rfl
  obtain ⟨-, s, w, text, read, nonneg, version⟩ := parse_version parse (kind ▸ changes)
  refine ⟨s, w, text, read, nonneg, ?_⟩
  obtain ⟨lawful, -⟩ := document_refines executed
  obtain ⟨short, at'⟩ := List.getElem?_eq_some_iff.mp here.event
  rw [← List.take_append_drop i (documentTrace env batches), List.drop_eq_getElem_cons short, at']
    at lawful
  have allowed := lawful.allowed
  have record := recordOf_version (effect_of_executed executed b inside) member changes
  have current : versionBefore env db batches i ⟨objectOf env b el, eventOf env b el⟩ =
      some (recordOf env b el).version := by
    have skipped : (eventOf env b el).skipped = false := here.executed
    change (eventOf env b el).Allowed _ at allowed
    unfold Event.Allowed at allowed
    rw [skipped] at allowed
    simp only [Bool.false_eq_true, if_false] at allowed
    cases op : el.op with
    | create => exact absurd op changes
    | modify =>
        have same : (eventOf env b el).op = .modify := op
        rw [same] at allowed
        exact allowed.1
    | delete =>
        have same : (eventOf env b el).op = .delete := op
        rw [same] at allowed
        exact allowed.1
  rw [current, record, version]

/-- In a processed upload every executed change was based on the version that it writes,
exactly when the version that each of them writes is an integer of 32 bits. -/
theorem version_current_iff (done : (processRaw env raw).run db = .ok (st, db')) :
    ∃ doc, raw.mapM RawElement.parse = .ok doc ∧
      (∃ batches, Executed env doc db batches st db') ∧
      ∀ batches, Executed env doc db batches st db' →
        ((∀ i r x, ChangesAt env batches raw i r x → ∃ v : Nat,
            versionBefore env db batches i x = some v ∧ WritesVersion r v) ↔
          ∀ i r x, ChangesAt env batches raw i r x → ∃ w : Int, WritesVersion r w ∧ w < 2 ^ 32) := by
  obtain ⟨doc, parsed, processed⟩ := processRaw_eq_ok.mp done
  refine ⟨doc, parsed, executed_of_processDocument processed, fun batches executed => ?_⟩
  refine forall_congr' fun i => forall_congr' fun r => forall₂_congr fun x here => ?_
  obtain ⟨s, w, text, read, nonneg, current⟩ := versionBefore_of_changesAt executed parsed here
  have bound : versionBound = 2 ^ 32 := rfl
  -- The setter has read the integer of the attribute, if this is one.
  have written : ∀ w', WritesVersion r w' → w' = w := by
    rintro w' ⟨s', text', whole⟩
    cases text.symm.trans text'
    exact whole_of_read read whole
  rw [current]
  constructor
  · rintro ⟨v, same, writes⟩
    cases same
    have equal := written _ writes
    have small := Nat.mod_lt w.toNat (show 0 < versionBound by decide)
    exact ⟨_, writes, by omega⟩
  · rintro ⟨w', writes, small⟩
    obtain rfl := written w' writes
    refine ⟨_, rfl, ?_⟩
    rwa [Nat.mod_eq_of_lt (by omega), Int.toNat_of_nonneg nonneg]

def sampleModify (version : String) : RawElement :=
  ⟨.modify, .node, [("id", "-1"), ("changeset", "7"), ("version", version)], [],
    (⟨3, 4⟩ : Position), false, List.nodup_nil⟩

def sampleRaw (version : String) : List RawElement :=
  [⟨.create, .node, [("id", "-1"), ("changeset", "7")], [], (⟨1, 2⟩ : Position), false,
    List.nodup_nil⟩, sampleModify version]

theorem version_current_sampleRaw : ∃ st db',
    (processRaw sampleEnv (sampleRaw "1")).run Db.empty = .ok (st, db') ∧
      ∃ doc batches, Executed sampleEnv doc Db.empty batches st db' ∧
        ((∀ i r x, ChangesAt sampleEnv batches (sampleRaw "1") i r x → ∃ v : Nat,
            versionBefore sampleEnv Db.empty batches i x = some v ∧ WritesVersion r v) ↔
          ∀ i r x, ChangesAt sampleEnv batches (sampleRaw "1") i r x → ∃ w : Int,
            WritesVersion r w ∧ w < 2 ^ 32) := by
  obtain ⟨st, db', run, -⟩ := of_check (processRaw sampleEnv (sampleRaw "1")) Db.empty
    (fun _ _ => true) (by decide +kernel)
  obtain ⟨doc, -, ⟨batches, executed⟩, all⟩ := version_current_iff run
  exact ⟨st, db', run, doc, batches, executed, all batches executed⟩

/-- A version that is one more than 2 to the 32nd passes for version one. -/
theorem version_wraps_sampleRaw : ∃ st db',
    (processRaw sampleEnv (sampleRaw "4294967297")).run Db.empty = .ok (st, db') ∧
      ∃ doc batches, (sampleRaw "4294967297").mapM RawElement.parse = .ok doc ∧
        Executed sampleEnv doc Db.empty batches st db' ∧
        ∃ x, ChangesAt sampleEnv batches (sampleRaw "4294967297") 1 (sampleModify "4294967297") x ∧
          WritesVersion (sampleModify "4294967297") 4294967297 ∧
          versionBefore sampleEnv Db.empty batches 1 x = some 1 := by
  obtain ⟨st, db', run, -⟩ := of_check (processRaw sampleEnv (sampleRaw "4294967297")) Db.empty
    (fun _ _ => true) (by decide +kernel)
  obtain ⟨doc, parsed, processed⟩ := processRaw_eq_ok.mp run
  obtain ⟨batches, executed⟩ := executed_of_processDocument processed
  refine ⟨st, db', run, doc, batches, parsed, executed, ?_⟩
  have all := mapM_eq_ok.mp parsed
  obtain ⟨el₀, rest₀, -, tail₀, rfl⟩ := List.forall₂_cons_left_iff.mp all
  obtain ⟨el, rest, parse, tail, rfl⟩ := List.forall₂_cons_left_iff.mp tail₀
  obtain ⟨b, event⟩ := event_of_element executed (show (el₀ :: el :: rest)[1]? = some el from rfl)
  obtain ⟨op, -⟩ := parse_version parse (by decide)
  have here : ChangesAt sampleEnv batches (sampleRaw "4294967297") 1 (sampleModify "4294967297")
      ⟨objectOf sampleEnv b el, eventOf sampleEnv b el⟩ := by
    refine ⟨rfl, event, fun create => ?_, ?_⟩
    · exact nomatch op.symm.trans create
    · change (decide (el.op = .delete) && _) = false
      rw [op]
      rfl
  obtain ⟨s, w, text, read, -, current⟩ := versionBefore_of_changesAt executed parsed here
  obtain rfl : s = "4294967297" := (Option.some.inj text).symm
  have value : fromChars "4294967297" = .value 4294967297 := by decide +kernel
  cases value.symm.trans read
  refine ⟨_, here, ⟨"4294967297", rfl, ?_⟩, current⟩
  exact (fromChars_eq_value value).2.mp (by decide +kernel)

end Cgimap.Osmchange.OptimisticLocking
