/- path: Cgimap/Osmchange/RelationBoxes
   generality: I
   source: src/backend/apidb/changeset_upload/relation_updater.cpp
   digest: Which members of modified relations count towards the bounding box. -/

import Cgimap.Osmchange.BoxReach
import Cgimap.Osmchange.Handler
import Cgimap.Osmchange.ModifyEffects

set_option autoImplicit false
set_option relaxedAutoImplicit false

namespace Cgimap.Osmchange.RelationBoxes

open Cgimap.Library.KeyedTable
open Cgimap.Library.StatementProgram
open Cgimap.Library.StatementProgram.Prog
open Cgimap.Model.Types
open Cgimap.Model.Database
open Cgimap.Osmchange.DiffTracking
open Cgimap.Osmchange.UploadRecords
open Cgimap.Osmchange.SqlStatements
open Cgimap.Osmchange.UpdaterChecks
open Cgimap.Osmchange.UpdaterProcess
open Cgimap.Osmchange.Handler
open Cgimap.Osmchange.ObjectState
open Cgimap.Osmchange.WriteEffects
open Cgimap.Osmchange.CheckEffects
open Cgimap.Osmchange.ModifyEffects
open Cgimap.Osmchange.BoxReach

variable {env : Env} {db db' : Db} {es : List (Elem .relation)} {ids : List Nat}

section Changes

variable (old : ObjState .relation) (e : Elem .relation)

def newTargets : List Obj := e.refs.map (fun r => r.ref.target)

/-- The tag set is not the same as before. -/
def TagsChange : Prop := ¬ ∀ tag, tag ∈ old.tags ↔ tag ∈ e.tags

def Gains : Prop := ∃ m, (ObjectType.relation, m) ∈ newTargets e ∧ (ObjectType.relation, m) ∉ targets old

/-- Members that have to count: those that come or go, and all of them when the tags change
or a relation becomes a member. -/
def Required (o : Obj) : Prop :=
  (o ∈ newTargets e ∧ o ∉ targets old) ∨ (o ∈ targets old ∧ o ∉ newTargets e) ∨
    ((TagsChange old e ∨ Gains old e) ∧ (o ∈ targets old ∨ o ∈ newTargets e))

/-- The queries notice that all members count. -/
def Full : Prop := Gains old e ∨ (TagsChange old e ∧ e.tags ≠ [])

/-- Members that the queries find. -/
def Counted (o : Obj) : Prop :=
  (Full old e ∧ (o ∈ targets old ∨ o ∈ newTargets e)) ∨ (o ∈ newTargets e ∧ o ∉ targets old) ∨
    ((∃ m ∈ newTargets e, m.1 ≠ .relation) ∧ o ∈ targets old ∧ o ∉ newTargets e)

/-- Members of a relation that loses all its tags, and those that a relation without any
node or way member had before. -/
def Missed (o : Obj) : Prop :=
  (old.tags ≠ [] ∧ e.tags = [] ∧ (o ∈ targets old ∨ o ∈ newTargets e)) ∨
    ((∀ m ∈ newTargets e, m.1 = .relation) ∧ o ∈ targets old)

variable {old e}

/-- The queries find what has to count, apart from the missed members. -/
theorem required_iff {o : Obj} (member : o.1 ≠ .relation) :
    Required old e o ↔ Counted old e o ∨ Missed old e o := by
  constructor
  · rintro (⟨new, absent⟩ | ⟨present, gone⟩ | ⟨tags | gains, either⟩)
    · exact .inl (.inr (.inl ⟨new, absent⟩))
    · by_cases some : ∃ m ∈ newTargets e, m.1 ≠ .relation
      · exact .inl (.inr (.inr ⟨some, present, gone⟩))
      · push Not at some
        exact .inr (.inr ⟨some, present⟩)
    · by_cases none : e.tags = []
      · refine .inr (.inl ⟨fun empty => ?_, none, either⟩)
        apply tags
        intro tag
        rw [empty, none]
      · exact .inl (.inl ⟨.inr ⟨tags, none⟩, either⟩)
    · exact .inl (.inl ⟨.inl gains, either⟩)
  · rintro ((⟨gains | ⟨tags, -⟩, either⟩ | ⟨new, absent⟩ | ⟨-, present, gone⟩) |
      (⟨some, none, either⟩ | ⟨flat, present⟩))
    · exact .inr (.inr ⟨.inr gains, either⟩)
    · exact .inr (.inr ⟨.inl tags, either⟩)
    · exact .inl ⟨new, absent⟩
    · exact .inr (.inl ⟨present, gone⟩)
    · refine .inr (.inr ⟨.inl fun same => ?_, either⟩)
      obtain ⟨tag, inside⟩ := List.exists_mem_of_ne_nil _ some
      have kept := (same tag).mp inside
      rw [none] at kept
      cases kept
    · exact .inr (.inl ⟨present, fun new => member (flat o new)⟩)

end Changes

section Queries

private theorem eq_of_id (distinct : (es.map Elem.id).Nodup) {d e : Elem .relation} (first : d ∈ es)
    (second : e ∈ es) (same : d.id = e.id) : d = e :=
  List.inj_on_of_nodup_map distinct first second same

private theorem mem_newMembers {found : List Nat}
    (run : (relationsWithNewRelationMembers es).run db = .ok (found, db')) :
    db' = db ∧ ∀ id, id ∈ found ↔ ∃ e ∈ es, e.id = id ∧ Gains (object db .relation e.id) e := by
  unfold relationsWithNewRelationMembers at run
  split at run
  · rename_i empty
    rw [List.isEmpty_iff] at empty
    subst empty
    cases run
    simp
  · rw [relationsWithNewRelationMembersRows, run_query] at run
    cases run
    refine ⟨rfl, fun id => ?_⟩
    simp only [mem_sortUnique, List.mem_map, List.mem_filter, List.mem_flatMap]
    constructor
    · rintro ⟨_, ⟨⟨e, inside, r, ⟨member, typed⟩, rfl⟩, absent⟩, rfl⟩
      refine ⟨e, inside, rfl, r.ref.target.2, ?_, fun present => ?_⟩
      · refine List.mem_map.mpr ⟨r, member, Prod.ext (of_decide_eq_true typed) rfl⟩
      · obtain ⟨m, row, owner, target⟩ := mem_targets.mp present
        rw [Bool.not_eq_true', List.any_eq_false] at absent
        exact absent m row (decide_eq_true ⟨owner, target⟩)
    · rintro ⟨e, inside, rfl, m, new, absent⟩
      obtain ⟨r, member, target⟩ := List.mem_map.mp new
      refine ⟨(e.id, m), ⟨⟨e, inside, r, ⟨member, by rw [target]; rfl⟩, by rw [target]⟩, ?_⟩, rfl⟩
      rw [Bool.not_eq_true', List.any_eq_false]
      intro c row same
      exact absent (mem_targets.mpr ⟨c, row, of_decide_eq_true same⟩)

private theorem mem_tagRows_of_mem (distinct : (es.map Elem.id).Nodup) {e : Elem .relation}
    (inside : e ∈ es) {k v : String} : (⟨e.id, k, v⟩ : TagRow) ∈ tagRows es ↔ (k, v) ∈ e.tags := by
  simp only [tagRows, List.mem_flatMap, List.mem_map]
  constructor
  · rintro ⟨d, other, tag, member, same⟩
    obtain ⟨id, key, value⟩ := TagRow.mk.inj same
    obtain rfl := eq_of_id distinct other inside id
    rw [← key, ← value]
    exact member
  · intro member
    exact ⟨e, inside, (k, v), member, rfl⟩

private theorem mem_changedTags (distinct : (es.map Elem.id).Nodup) {found : List Nat}
    (run : (relationsWithChangedRelationTags es).run db = .ok (found, db')) :
    db' = db ∧ ∀ id, id ∈ found ↔
      ∃ e ∈ es, e.id = id ∧ TagsChange (object db .relation e.id) e ∧ e.tags ≠ [] := by
  unfold relationsWithChangedRelationTags at run
  split at run
  · rename_i empty
    rw [List.isEmpty_iff] at empty
    subst empty
    cases run
    simp
  · rw [relationsWithChangedRelationTagsRows, run_query] at run
    cases run
    refine ⟨rfl, fun id => ?_⟩
    simp only [mem_sortUnique, List.map_append, List.mem_append, List.mem_map, List.mem_filter,
      Bool.and_eq_true, Bool.not_eq_true', decide_eq_false_iff_not]
    constructor
    · rintro (⟨_, ⟨new, absent⟩, rfl⟩ | ⟨c, ⟨row, named, gone⟩, rfl⟩)
      · -- a tag that is not there yet
        obtain ⟨e, inside, ⟨k, v⟩, member, rfl⟩ : ∃ e ∈ es, ∃ tag ∈ e.tags, _ := by
          simpa only [tagRows, List.mem_flatMap, List.mem_map] using new
        refine ⟨e, inside, rfl, fun same => absent ?_, List.ne_nil_of_mem member⟩
        exact mem_tags_object.mp ((same (k, v)).mpr member)
      · -- a tag that is there no longer, of a relation that has tags
        obtain ⟨r, listed, owner⟩ := List.any_eq_true.mp named
        obtain ⟨e, inside, tag, member, rfl⟩ : ∃ e ∈ es, ∃ tag ∈ e.tags, _ := by
          simpa only [tagRows, List.mem_flatMap, List.mem_map] using listed
        have own : e.id = c.owner := of_decide_eq_true owner
        refine ⟨e, inside, own, fun same => gone ?_, List.ne_nil_of_mem member⟩
        have kept := (same (c.k, c.v)).mp (mem_tags_object.mpr (by rw [own]; exact row))
        have listed' := (mem_tagRows_of_mem distinct inside).mpr kept
        rw [own] at listed'
        exact listed'
    · rintro ⟨e, inside, rfl, change, some⟩
      by_contra neither
      push Not at neither
      apply change
      intro tag
      constructor
      · intro present
        by_contra dropped
        apply neither.2 ⟨e.id, tag.1, tag.2⟩ ⟨mem_tags_object.mp present, ?_, ?_⟩ rfl
        · obtain ⟨first, member⟩ := List.exists_mem_of_ne_nil _ some
          refine List.any_eq_true.mpr ⟨⟨e.id, first.1, first.2⟩, ?_, decide_eq_true rfl⟩
          exact (mem_tagRows_of_mem distinct inside).mpr member
        · intro listed
          exact dropped ((mem_tagRows_of_mem distinct inside).mp listed)
      · intro new
        by_contra absent
        apply neither.1 ⟨e.id, tag.1, tag.2⟩ ⟨(mem_tagRows_of_mem distinct inside).mpr new, ?_⟩ rfl
        intro row
        exact absent (mem_tags_object.mpr row)

private theorem mem_wayNodeMembers (distinct : (es.map Elem.id).Nodup) {e : Elem .relation}
    (inside : e ∈ es) {o : Obj} :
    (e.id, o) ∈ wayNodeMembers es ↔ o ∈ newTargets e ∧ o.1 ≠ .relation := by
  simp only [wayNodeMembers, List.mem_flatMap, List.mem_map, List.mem_filter, decide_eq_true_eq,
    newTargets]
  constructor
  · rintro ⟨d, other, r, ⟨member, typed⟩, same⟩
    obtain ⟨id, target⟩ := Prod.mk.inj same
    obtain rfl := eq_of_id distinct other inside id
    subst target
    exact ⟨⟨r, member, rfl⟩, typed⟩
  · rintro ⟨⟨r, member, rfl⟩, typed⟩
    exact ⟨e, inside, r, ⟨member, typed⟩, rfl⟩

private theorem owner_of_wayNodeMembers {tm : TmpMember} (listed : tm ∈ wayNodeMembers es) :
    ∃ e ∈ es, e.id = tm.1 := by
  simp only [wayNodeMembers, List.mem_flatMap, List.mem_map] at listed
  obtain ⟨e, inside, r, -, rfl⟩ := listed
  exact ⟨e, inside, rfl⟩

private theorem mem_added (distinct : (es.map Elem.id).Nodup) {o : Obj} (typed : o.1 ≠ .relation) :
    o ∈ ((wayNodeMembers es).filter (fun tm => !(db.currentRefs .relation).rows.any
        (fun cm => decide (cm.owner = tm.1 ∧ cm.ref.target = tm.2)))).map Prod.snd ↔
      ∃ e ∈ es, o ∈ newTargets e ∧ o ∉ targets (object db .relation e.id) := by
  constructor
  · intro found
    obtain ⟨tm, selected, rfl⟩ := List.mem_map.mp found
    obtain ⟨listed, absent⟩ := List.mem_filter.mp selected
    obtain ⟨e, inside, own⟩ := owner_of_wayNodeMembers listed
    rw [← Prod.mk.eta (p := tm), ← own] at listed
    refine ⟨e, inside, ((mem_wayNodeMembers distinct inside).mp listed).1, fun present => ?_⟩
    obtain ⟨m, row, owner, target⟩ := mem_targets.mp present
    rw [Bool.not_eq_true', List.any_eq_false] at absent
    exact absent m row (decide_eq_true ⟨owner.trans own, target⟩)
  · rintro ⟨e, inside, new, absent⟩
    refine List.mem_map.mpr ⟨(e.id, o), List.mem_filter.mpr ⟨?_, ?_⟩, rfl⟩
    · exact (mem_wayNodeMembers distinct inside).mpr ⟨new, typed⟩
    · rw [Bool.not_eq_true', List.any_eq_false]
      intro m row same
      exact absent (mem_targets.mpr ⟨m, row, of_decide_eq_true same⟩)

private theorem mem_removed (distinct : (es.map Elem.id).Nodup) {o : Obj}
    (typed : o.1 ≠ .relation) :
    o ∈ ((db.currentRefs .relation).select (fun cm =>
        (wayNodeMembers es).any (fun tm => decide (tm.1 = cm.owner)) &&
          !(wayNodeMembers es).any (fun tm => decide (tm.1 = cm.owner ∧ tm.2 = cm.ref.target)))).map
            (fun cm => cm.ref.target) ↔
      ∃ e ∈ es, (∃ m ∈ newTargets e, m.1 ≠ .relation) ∧
        o ∈ targets (object db .relation e.id) ∧ o ∉ newTargets e := by
  constructor
  · intro found
    obtain ⟨cm, selected, rfl⟩ := List.mem_map.mp found
    obtain ⟨row, test⟩ := (Table.mem_select _ _).mp selected
    rw [Bool.and_eq_true, Bool.not_eq_true', List.any_eq_false] at test
    obtain ⟨some, gone⟩ := test
    obtain ⟨tm, listed, same⟩ := List.any_eq_true.mp some
    obtain ⟨e, inside, own⟩ := owner_of_wayNodeMembers listed
    have owner : e.id = cm.owner := own.trans (of_decide_eq_true same)
    rw [← Prod.mk.eta (p := tm), ← own] at listed
    refine ⟨e, inside, ⟨tm.2, (mem_wayNodeMembers distinct inside).mp listed⟩,
      mem_targets.mpr ⟨cm, row, owner.symm, rfl⟩, fun new => ?_⟩
    have still := (mem_wayNodeMembers distinct inside).mpr ⟨new, typed⟩
    exact gone _ still (decide_eq_true ⟨owner, rfl⟩)
  · rintro ⟨e, inside, ⟨m, new, other⟩, present, absent⟩
    obtain ⟨cm, row, owner, target⟩ := mem_targets.mp present
    refine List.mem_map.mpr ⟨cm, (Table.mem_select _ _).mpr ⟨row, ?_⟩, target⟩
    rw [Bool.and_eq_true, Bool.not_eq_true', List.any_eq_false]
    refine ⟨List.any_eq_true.mpr ⟨(e.id, m), ?_, decide_eq_true owner.symm⟩, ?_⟩
    · exact (mem_wayNodeMembers distinct inside).mpr ⟨new, other⟩
    · intro tm listed same
      obtain ⟨own, same⟩ := of_decide_eq_true same
      have here : tm = (e.id, o) := Prod.ext (own.trans owner) (same.trans target)
      rw [here] at listed
      exact absent ((mem_wayNodeMembers distinct inside).mp listed).1

private theorem mem_marked {added removed : List Obj} {o : Obj} {new : Bool} :
    (∃ d ∈ added.map (fun o => (⟨o, true⟩ : RelMemberDifference)) ++
        removed.map (fun o => ⟨o, false⟩), d.newMember = new ∧ d.member = o) ↔
      o ∈ (if new then added else removed) := by
  constructor
  · rintro ⟨d, listed, rfl, rfl⟩
    rcases List.mem_append.mp listed with came | went
    · obtain ⟨_, found, rfl⟩ := List.mem_map.mp came
      exact found
    · obtain ⟨_, found, rfl⟩ := List.mem_map.mp went
      exact found
  · intro found
    cases new with
    | true => exact ⟨⟨o, true⟩, List.mem_append_left _ (List.mem_map_of_mem found), rfl, rfl⟩
    | false => exact ⟨⟨o, false⟩, List.mem_append_right _ (List.mem_map_of_mem found), rfl, rfl⟩

/-- The members that come are all found, those that go only where one of the others is a node
or way. -/
private theorem mem_difference (distinct : (es.map Elem.id).Nodup)
    {diff : List RelMemberDifference}
    (run : (relationsWithChangedWayNodeMembers es).run db = .ok (diff, db')) :
    db' = db ∧ ∀ o : Obj, o.1 ≠ .relation →
      ((∃ d ∈ diff, d.newMember = true ∧ d.member = o) ↔
        ∃ e ∈ es, o ∈ newTargets e ∧ o ∉ targets (object db .relation e.id)) ∧
      ((∃ d ∈ diff, d.newMember = false ∧ d.member = o) ↔
        ∃ e ∈ es, (∃ m ∈ newTargets e, m.1 ≠ .relation) ∧
          o ∈ targets (object db .relation e.id) ∧ o ∉ newTargets e) := by
  unfold relationsWithChangedWayNodeMembers at run
  split at run
  · rename_i empty
    rw [List.isEmpty_iff] at empty
    subst empty
    cases run
    simp
  · rw [run_bind, relationsWithAddedMembersRows, run_query] at run
    dsimp only at run
    rw [run_bind, relationsWithRemovedMembersRows, run_query] at run
    cases run
    refine ⟨rfl, fun o typed => ⟨?_, ?_⟩⟩
    · exact mem_marked.trans (mem_added distinct typed)
    · exact mem_marked.trans (mem_removed distinct typed)

end Queries

section Package

private theorem differenceBbox_spans {diff : List RelMemberDifference} {new : Bool} {box : Bbox}
    (run : (calcRelMemberDifferenceBbox env diff new).run db = .ok (box, db')) :
    Spans env box (fun p => ∃ d ∈ diff, d.newMember = new ∧ p ∈ pointsOf db d.member) ∧
      ∀ s x, x ≤ reach (Bbox.undefined env.cfg) s → x ≤ reach box s := by
  simp only [calcRelMemberDifferenceBbox, run_bind_eq_ok] at run
  obtain ⟨nodes, db₁, readNodes, ways, db₂, readWays, done⟩ := run
  obtain rfl := (calcNodeBbox_reads env _).run_eq_ok readNodes
  obtain rfl := (calcWayBbox_reads env _).run_eq_ok readWays
  cases done
  constructor
  · refine (((spans_undefined env).expand (calcNodeBbox_spans readNodes)).expand
      (calcWayBbox_spans readWays)).congr fun p => ?_
    simp only [differenceIds, List.mem_map, List.mem_filter, decide_eq_true_eq]
    constructor
    · rintro ((none | ⟨id, ⟨d, ⟨listed, kind, typed⟩, rfl⟩, found⟩) |
        ⟨id, ⟨d, ⟨listed, kind, typed⟩, rfl⟩, found⟩)
      · exact none.elim
      · exact ⟨d, listed, kind, by rw [← typed] at found; exact found⟩
      · exact ⟨d, listed, kind, by rw [← typed] at found; exact found⟩
    · rintro ⟨d, listed, kind, found⟩
      cases typed : d.member.1 with
      | node => exact .inl (.inr ⟨d.member.2, ⟨d, ⟨listed, kind, typed⟩, rfl⟩, by rw [← typed]; exact found⟩)
      | way => exact .inr ⟨d.member.2, ⟨d, ⟨listed, kind, typed⟩, rfl⟩, by rw [← typed]; exact found⟩
      | relation =>
          rw [← Prod.mk.eta (p := d.member), typed] at found
          cases found
  · intro s x below
    exact le_reach_expand.mpr (.inl (le_reach_expand.mpr (.inl below)))

private theorem ne_relation_of_point {o : Obj} {p : NodeCoord} (found : p ∈ pointsOf db o) :
    o.1 ≠ .relation := by
  obtain ⟨t, id⟩ := o
  rintro rfl
  cases found

private theorem counted_iff {diff : List RelMemberDifference} {p : NodeCoord}
    (full : ∀ id, id ∈ ids ↔ ∃ e ∈ es, e.id = id ∧ Full (object db .relation e.id) e)
    (new : ∀ e ∈ es, targets (object db' .relation e.id) = newTargets e)
    (here : ∀ o, p ∈ pointsOf db' o ↔ p ∈ pointsOf db o)
    (difference : ∀ o : Obj, o.1 ≠ .relation →
      ((∃ d ∈ diff, d.newMember = true ∧ d.member = o) ↔
        ∃ e ∈ es, o ∈ newTargets e ∧ o ∉ targets (object db .relation e.id)) ∧
      ((∃ d ∈ diff, d.newMember = false ∧ d.member = o) ↔
        ∃ e ∈ es, (∃ m ∈ newTargets e, m.1 ≠ .relation) ∧
          o ∈ targets (object db .relation e.id) ∧ o ∉ newTargets e)) :
    ((∃ id ∈ ids, ∃ o ∈ targets (object db .relation id), p ∈ pointsOf db o) ∨
        (∃ d ∈ diff, d.newMember = false ∧ p ∈ pointsOf db d.member)) ∨
      ((∃ id ∈ ids, ∃ o ∈ targets (object db' .relation id), p ∈ pointsOf db' o) ∨
        (∃ d ∈ diff, d.newMember = true ∧ p ∈ pointsOf db' d.member)) ↔
      ∃ e ∈ es, ∃ o, Counted (object db .relation e.id) e o ∧ p ∈ pointsOf db o := by
  simp only [full, here]
  constructor
  · rintro ((⟨_, ⟨e, inside, rfl, full⟩, o, old, found⟩ | ⟨d, listed, gone, found⟩) |
      (⟨_, ⟨e, inside, rfl, full⟩, o, now, found⟩ | ⟨d, listed, came, found⟩))
    · exact ⟨e, inside, o, .inl ⟨full, .inl old⟩, found⟩
    · have known := (difference d.member (ne_relation_of_point found)).2
      obtain ⟨e, inside, removed⟩ := known.mp ⟨d, listed, gone, rfl⟩
      exact ⟨e, inside, d.member, .inr (.inr removed), found⟩
    · rw [new e inside] at now
      exact ⟨e, inside, o, .inl ⟨full, .inr now⟩, found⟩
    · have known := (difference d.member (ne_relation_of_point found)).1
      obtain ⟨e, inside, added⟩ := known.mp ⟨d, listed, came, rfl⟩
      exact ⟨e, inside, d.member, .inr (.inl added), found⟩
  · rintro ⟨e, inside, o, ⟨full, old | now⟩ | added | removed, found⟩
    · exact .inl (.inl ⟨e.id, ⟨e, inside, rfl, full⟩, o, old, found⟩)
    · rw [← new e inside] at now
      exact .inr (.inl ⟨e.id, ⟨e, inside, rfl, full⟩, o, now, found⟩)
    · have known := (difference o (ne_relation_of_point found)).1
      obtain ⟨d, listed, came, rfl⟩ := known.mpr ⟨e, inside, added⟩
      exact .inr (.inr ⟨d, listed, came, found⟩)
    · have known := (difference o (ne_relation_of_point found)).2
      obtain ⟨d, listed, gone, rfl⟩ := known.mpr ⟨e, inside, removed⟩
      exact .inl (.inr ⟨d, listed, gone, found⟩)

theorem modifyPackage_reach {acc acc' : Tracking × Bbox}
    (run : (modifyPackage env .relation ids acc es).run db = .ok (acc', db')) (s : Side) (x : Int) :
    x ≤ reach acc'.2 s ↔ x ≤ reach acc.2 s ∨ x ≤ reach (Bbox.undefined env.cfg) s ∨
      ∃ e ∈ es, ∃ o, Counted (object db .relation e.id) e o ∧
        ∃ p ∈ pointsOf db o, x ≤ reachOf p s := by
  have effect := (modifyPackage_ok run).1
  have distinct := effect.matching.distinct
  obtain ⟨upd, before, after, read, readAfter, result⟩ := modifyPackage_boxes run
  simp only [bboxBefore, run_bind_eq_ok] at read
  obtain ⟨newMembers, db₁, readNew, changedTags, db₂, readTags, box, db₃, readBox, diff, db₄,
    readDiff, removed, db₅, readRemoved, done⟩ := read
  obtain ⟨same₁, gains⟩ := mem_newMembers readNew
  rw [same₁] at readTags
  obtain ⟨same₂, tags⟩ := mem_changedTags distinct readTags
  rw [same₂] at readBox
  rw [(calcRelationBbox_reads env _).run_eq_ok readBox] at readDiff
  obtain ⟨same₄, difference⟩ := mem_difference distinct readDiff
  rw [same₄] at readRemoved
  cases done
  simp only [bboxAfter, calcBbox, run_bind_eq_ok] at readAfter
  obtain ⟨box', db₆, readBox', added, db₇, readAdded, done⟩ := readAfter
  rw [(calcRelationBbox_reads env _).run_eq_ok readBox'] at readAdded
  cases done
  have nodes : ∀ id, object db' .node id = object db .node id := effect.acts.other .node (by decide)
  have ways : ∀ id, object db' .way id = object db .way id := effect.acts.other .way (by decide)
  have new : ∀ e ∈ es, targets (object db' .relation e.id) = newTargets e := by
    intro e inside
    rw [effect.acts.same, elemsOf_eq_singleton distinct inside]
    simp [targets, newTargets, ObjState.modifyAll, ObjState.refsOfElem]
  have full : ∀ id, id ∈ sortUnique (newMembers ++ changedTags) ↔
      ∃ e ∈ es, e.id = id ∧ Full (object db .relation e.id) e := by
    intro id
    rw [mem_sortUnique, List.mem_append, gains, tags, ← exists_or]
    refine exists_congr fun e => ?_
    rw [← and_or_left, ← and_or_left]
    rfl
  obtain ⟨removedSpans, floor⟩ := differenceBbox_spans readRemoved
  have spans := ((calcRelationBbox_spans readBox).expand removedSpans).expand
    ((calcRelationBbox_spans readBox').expand (differenceBbox_spans readAdded).1)
  have counted : Spans env ((box.expand removed).expand (box'.expand added)) (fun p => ∃ e ∈ es,
      ∃ o, Counted (object db .relation e.id) e o ∧ p ∈ pointsOf db o) :=
    spans.congr fun p => counted_iff full new (mem_pointsOf_congr nodes ways) difference
  have lower : x ≤ reach (Bbox.undefined env.cfg) s →
      x ≤ reach ((box.expand removed).expand (box'.expand added)) s := by
    intro below
    exact le_reach_expand.mpr (.inl (le_reach_expand.mpr (.inr (floor s x below))))
  have all := counted s x
  rw [or_iff_left_of_imp lower] at all
  rw [result, Bbox.expand_assoc, le_reach_expand, all]
  refine or_congr_right (or_congr_right ?_)
  constructor
  · rintro ⟨p, ⟨e, inside, o, counts, found⟩, far⟩
    exact ⟨e, inside, o, counts, p, found, far⟩
  · rintro ⟨e, inside, o, counts, p, found, far⟩
    exact ⟨p, ⟨e, inside, o, counts, found⟩, far⟩

end Package

/-- The batch writes `e` over the state `old` of its relation. -/
def Change (env : Env) (db : Db) (es : List (Elem .relation)) (old : ObjState .relation)
    (e : Elem .relation) : Prop :=
  ∃ before after, elemsOf es e.id = before ++ e :: after ∧
    old = ObjState.modifyAll env.now before (object db .relation e.id)

section Batch

private def PackageChange (env : Env) (db : Db) (packages : List (List (Elem .relation)))
    (old : ObjState .relation) (e : Elem .relation) : Prop :=
  ∃ pre p post, packages = pre ++ p :: post ∧ e ∈ p ∧ old = ObjState.modifyAll env.now
    (pre.flatMap (fun q => elemsOf q e.id)) (object db .relation e.id)

private theorem packageChange_iff {old : ObjState .relation} {e : Elem .relation} :
    PackageChange env db (buildPackages es) old e ↔ Change env db es old e := by
  constructor
  · rintro ⟨pre, p, post, split, member, rfl⟩
    have inside : p ∈ buildPackages es := by
      rw [split]
      simp
    have all := buildPackages_elemsOf es e.id
    rw [split, List.flatMap_append, List.flatMap_cons,
      elemsOf_eq_singleton (buildPackages_distinct inside) member] at all
    exact ⟨_, _, all.symm, rfl⟩
  · rintro ⟨before, after, split, rfl⟩
    rw [← buildPackages_elemsOf] at split
    have short : ∀ p ∈ buildPackages es, (elemsOf p e.id).length ≤ 1 := fun p member =>
      length_elemsOf_le_one (buildPackages_distinct member) e.id
    obtain ⟨pre, p, post, same, start, found⟩ := split_flatMap short split
    refine ⟨pre, p, post, same, ?_, by rw [start]⟩
    have here : e ∈ elemsOf p e.id := by
      rw [found]
      exact List.mem_singleton_self e
    exact (mem_elemsOf.mp here).1

/-- A counted member reaches at least that far. -/
private def Reaches (db : Db) (C : ObjState .relation → Elem .relation → Prop) (s : Side) (x : Int) :
    Prop :=
  ∃ old e, C old e ∧ ∃ o, Counted old e o ∧ ∃ p ∈ pointsOf db o, x ≤ reachOf p s

/-- The packages so far, and how far the box reaches. -/
private structure Boxed (env : Env) (start : Bbox) (db : Db) (done : List (List (Elem .relation)))
    (acc : Tracking × Bbox) (db' : Db) : Prop where
  acts : Acts .relation (fun id => ObjState.modifyAll env.now (done.flatMap (fun p => elemsOf p id)))
    db db'
  reaches : ∀ s x, (x ≤ reach acc.2 s ∨ x ≤ reach (Bbox.undefined env.cfg) s) ↔
    x ≤ reach (start.expand (Bbox.undefined env.cfg)) s ∨ Reaches db (PackageChange env db done) s x
  floor : done ≠ [] → ∀ s x, x ≤ reach (Bbox.undefined env.cfg) s → x ≤ reach acc.2 s

private theorem packageChange_snoc {done : List (List (Elem .relation))} {p : List (Elem .relation)}
    {old : ObjState .relation} {e : Elem .relation} :
    PackageChange env db (done ++ [p]) old e ↔ PackageChange env db done old e ∨
      (e ∈ p ∧ old = ObjState.modifyAll env.now (done.flatMap (fun q => elemsOf q e.id))
        (object db .relation e.id)) := by
  constructor
  · rintro ⟨pre, q, post, split, member, rfl⟩
    rcases List.eq_nil_or_concat post with rfl | ⟨rest, r, rfl⟩
    · obtain ⟨rfl, same⟩ := List.append_inj split (by
        have lengths := congrArg List.length split
        simp at lengths
        exact lengths)
      cases same
      exact .inr ⟨member, rfl⟩
    · rw [List.concat_eq_append, ← List.cons_append, ← List.append_assoc] at split
      obtain ⟨rfl, -⟩ := List.append_inj split (by
        have lengths := congrArg List.length split
        simp at lengths ⊢
        omega)
      exact .inl ⟨pre, q, rest, rfl, member, rfl⟩
  · rintro (⟨pre, q, post, rfl, member, rfl⟩ | ⟨member, rfl⟩)
    · exact ⟨pre, q, post ++ [p], by simp, member, rfl⟩
    · exact ⟨done, p, [], rfl, member, rfl⟩

private theorem Boxed.step {start : Bbox} {done : List (List (Elem .relation))}
    {p : List (Elem .relation)} {acc acc' : Tracking × Bbox} {db₁ db₂ : Db}
    (boxed : Boxed env start db done acc db₁)
    (run : (modifyPackage env .relation ids acc p).run db₁ = .ok (acc', db₂)) :
    Boxed env start db (done ++ [p]) acc' db₂ := by
  have effect := (modifyPackage_ok run).1
  have reached := modifyPackage_reach run
  have nodes : ∀ id, object db₁ .node id = object db .node id := boxed.acts.other .node (by decide)
  have ways : ∀ id, object db₁ .way id = object db .way id := boxed.acts.other .way (by decide)
  refine ⟨?_, fun s x => ?_, fun _ s x below => (reached s x).mpr (.inr (.inl below))⟩
  · refine (boxed.acts.trans effect.acts).congr fun id => ?_
    rw [List.flatMap_append, ObjState.modifyAll_append, List.flatMap_singleton]
  · have now : (∃ e ∈ p, ∃ o, Counted (object db₁ .relation e.id) e o ∧
        ∃ q ∈ pointsOf db₁ o, x ≤ reachOf q s) ↔ Reaches db (fun old e => e ∈ p ∧
          old = ObjState.modifyAll env.now (done.flatMap (fun q => elemsOf q e.id))
            (object db .relation e.id)) s x := by
      simp only [boxed.acts.same, mem_pointsOf_congr nodes ways]
      constructor
      · rintro ⟨e, member, counted⟩
        exact ⟨_, e, ⟨member, rfl⟩, counted⟩
      · rintro ⟨_, e, ⟨member, rfl⟩, counted⟩
        exact ⟨e, member, counted⟩
    have both : Reaches db (PackageChange env db (done ++ [p])) s x ↔
        Reaches db (PackageChange env db done) s x ∨ Reaches db (fun old e => e ∈ p ∧
          old = ObjState.modifyAll env.now (done.flatMap (fun q => elemsOf q e.id))
            (object db .relation e.id)) s x := by
      simp only [Reaches, packageChange_snoc, or_and_right, exists_or]
    have before := boxed.reaches s x
    rw [reached, both, now]
    constructor
    · rintro ((far | far | far) | far)
      · exact (before.mp (.inl far)).imp_right .inl
      · exact (before.mp (.inr far)).imp_right .inl
      · exact .inr (.inr far)
      · exact (before.mp (.inr far)).imp_right .inl
    · rintro (far | far | far)
      · exact (before.mpr (.inl far)).imp_left .inl
      · exact (before.mpr (.inr far)).imp_left .inl
      · exact .inl (.inr (.inr far))

private theorem boxed_of_processModify {st st' : Upload}
    (run : (processModify env .relation st).run db = .ok (st', db'))
    (replaced : replaceOldIds st.ct (st.updater .relation).modifyBuf = .ok es) :
    ∃ ct, Boxed env (st.updater .relation).bbox db (buildPackages es)
      (ct, (st'.updater .relation).bbox) db' := by
  simp only [processModify, run_bind_eq_ok] at run
  obtain ⟨es', db₀, first, _, db₁, lock, ⟨ct, box⟩, db₂, packages, done⟩ := run
  obtain ⟨same, rfl⟩ := run_liftExcept_eq_ok.mp first
  rw [replaced] at same
  cases same
  obtain ⟨rfl, -⟩ := lockCurrent_ok lock
  cases done
  have start : Boxed env (st.updater .relation).bbox db₁ []
      (st.ct, (st.updater .relation).bbox) db₁ := by
    refine ⟨Acts.refl, fun s x => ?_, fun none => absurd rfl none⟩
    have none : ¬ Reaches db₁ (PackageChange env db₁ []) s x := by
      rintro ⟨old, e, ⟨pre, p, post, split, -⟩, -⟩
      simp at split
    rw [le_reach_expand, or_iff_left none]
  have all := run_foldlM_invariant (Boxed env (st.updater .relation).bbox db₁) (buildPackages es)
    (fun done p _ acc db₂ acc' db₃ boxed run => boxed.step run) start packages
  rw [List.nil_append] at all
  refine ⟨ct, ?_⟩
  rw [Upload.setUpdater_updater]
  exact all

end Batch

/-- To each side the box before the batch, or a counted member of a relation in it, reaches as
far as the position. -/
def Surrounded (env : Env) (start : Bbox) (db : Db) (es : List (Elem .relation)) (p : NodeCoord) :
    Prop :=
  ∀ s, reachOf p s ≤ reach (start.expand (Bbox.undefined env.cfg)) s ∨
    ∃ old e, Change env db es old e ∧ ∃ o, Counted old e o ∧
      ∃ q ∈ pointsOf db o, reachOf p s ≤ reachOf q s

/-- The box of a batch contains all members that have to count, exactly when the missed ones
lie between others. -/
theorem relationBbox_contains_iff {st st' : Upload}
    (run : (processModify env .relation st).run db = .ok (st', db'))
    (replaced : replaceOldIds st.ct (st.updater .relation).modifyBuf = .ok es) :
    (∀ old e, Change env db es old e → ∀ o, Required old e o → ∀ p ∈ pointsOf db o,
        Contains (st'.updater .relation).bbox p) ↔
      ∀ old e, Change env db es old e → ∀ o, Missed old e o → ∀ p ∈ pointsOf db o,
        Surrounded env (st.updater .relation).bbox db es p := by
  obtain ⟨ct, boxed⟩ := boxed_of_processModify run replaced
  have contains : ∀ old e, Change env db es old e → ∀ p : NodeCoord,
      (Contains (st'.updater .relation).bbox p ↔
        Surrounded env (st.updater .relation).bbox db es p) := by
    intro old e change p
    have some : buildPackages es ≠ [] := by
      obtain ⟨pre, q, post, split, -⟩ := packageChange_iff.mpr change
      rw [split]
      simp
    rw [contains_iff]
    refine forall_congr' fun s => ?_
    have far := boxed.reaches s (reachOf p s)
    rw [or_iff_left_of_imp (boxed.floor some s _)] at far
    rw [far]
    refine or_congr_right ?_
    simp only [Reaches, packageChange_iff]
  constructor
  · intro all old e change o missed p found
    apply (contains old e change p).mp
    apply all old e change o _ p found
    exact (required_iff (ne_relation_of_point found)).mpr (.inr missed)
  · intro all old e change o required p found
    apply (contains old e change p).mpr
    rcases (required_iff (ne_relation_of_point found)).mp required with counted | missed
    · intro s
      exact .inr ⟨old, e, change, o, counted, p, found, le_refl _⟩
    · exact all old e change o missed p found

section Samples

def sampleTagged : Db :=
  (((Db.empty.setCurrent .node ⟨[⟨1, 1, 7, true, 0, (⟨10, 20, 0⟩ : NodeCoord)⟩], by decide⟩).setCurrent
    .relation ⟨[⟨1, 1, 7, true, 0, ()⟩], by decide⟩).setTags .relation
      ⟨[⟨1, "type", "site"⟩], by decide⟩).setRefs .relation
        ⟨[⟨1, 1, (⟨.node, 1, ""⟩ : Member)⟩], by decide⟩

def sampleRetagged (value : Option String) : OsmObject .relation where
  changeset := 7
  id := 1
  version := 1
  tags := value.toList.map (fun v => ("type", v))
  body := [(⟨.node, 1, ""⟩ : RelationMember)]
  tags_nodup := by cases value <;> simp

def sampleUpload (value : Option String) : Upload :=
  Handler.modify sampleEnv (sampleRetagged value) (Upload.empty sampleEnv)

def sampleRecord (value : Option String) : Elem .relation := modifiedElem sampleEnv (sampleRetagged value)

private theorem sample_replaced (value : Option String) :
    replaceOldIds (sampleUpload value).ct ((sampleUpload value).updater .relation).modifyBuf =
      .ok [sampleRecord value] := rfl

private theorem sample_change (value : Option String) :
    Change sampleEnv sampleTagged [sampleRecord value] (object sampleTagged .relation 1)
      (sampleRecord value) := ⟨[], [], rfl, rfl⟩

private theorem sample_required {value : Option String} (other : value ≠ some "site") :
    Required (object sampleTagged .relation 1) (sampleRecord value) (.node, 1) := by
  refine .inr (.inr ⟨.inl fun same => ?_, .inl (by decide)⟩)
  have kept := (same ("type", "site")).mp (by decide)
  obtain ⟨v, member, written⟩ := List.mem_map.mp kept
  rw [Option.mem_toList] at member
  cases written
  exact other member

/-- A new tag value makes the node count. -/
theorem relationBbox_contains_sampleTagged : ∃ st' db',
    (processModify sampleEnv .relation (sampleUpload (some "route"))).run sampleTagged =
      .ok (st', db') ∧ Contains (st'.updater .relation).bbox ⟨10, 20, 0⟩ := by
  obtain ⟨st', db', run, -⟩ := of_check
    (processModify sampleEnv .relation (sampleUpload (some "route"))) sampleTagged
    (fun _ _ => true) (by decide +kernel)
  have contains := relationBbox_contains_iff run (sample_replaced (some "route"))
  refine ⟨st', db', run, ?_⟩
  apply contains.mpr _ _ _ (sample_change _) (.node, 1) (sample_required (by decide)) _ (by decide)
  rintro old e ⟨before, after, split, -⟩ o missed p -
  have member : e ∈ elemsOf [sampleRecord (some "route")] e.id := by
    rw [split]
    simp
  have same := List.mem_singleton.mp (mem_elemsOf.mp member).1
  subst same
  rcases missed with ⟨-, none, -⟩ | ⟨flat, -⟩
  · cases none
  · have never := flat (.node, 1) (by decide)
    cases never

/-- Without any tag left, the change of the tags goes unnoticed. -/
theorem relationBbox_misses_sampleTagged : ∃ st' db',
    (processModify sampleEnv .relation (sampleUpload none)).run sampleTagged = .ok (st', db') ∧
    Change sampleEnv sampleTagged [sampleRecord none] (object sampleTagged .relation 1)
      (sampleRecord none) ∧
    Required (object sampleTagged .relation 1) (sampleRecord none) (.node, 1) ∧
    (⟨10, 20, 0⟩ : NodeCoord) ∈ pointsOf sampleTagged (.node, 1) ∧
    ¬ Contains (st'.updater .relation).bbox ⟨10, 20, 0⟩ := by
  obtain ⟨st', db', run, outside⟩ := of_check
    (processModify sampleEnv .relation (sampleUpload none)) sampleTagged
    (fun st' _ => decide (¬ Contains (st'.updater .relation).bbox ⟨10, 20, 0⟩)) (by decide +kernel)
  exact ⟨st', db', run, sample_change none, sample_required (by decide), by decide,
    of_decide_eq_true outside⟩

end Samples

end Cgimap.Osmchange.RelationBoxes
