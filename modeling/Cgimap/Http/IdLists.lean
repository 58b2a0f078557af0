/- path: Cgimap/Http/IdLists
   generality: I
   source: include/cgimap/api06/id_version.hpp, src/api06/handler_utils.cpp,
     test/test_parse_id_list.cpp
   digest: Ids with versions: their order, how they are written and how lists of them are parsed. -/

import Cgimap.Http.Routing
import Cgimap.Library.ExceptLists
import Cgimap.Library.SortedUnique

set_option autoImplicit false
set_option relaxedAutoImplicit false

namespace Cgimap.Http.IdLists

open Cgimap.Library.ExceptLists
open Cgimap.Library.SortedUnique
open Cgimap.Model.Types
open Cgimap.Read.Endpoints
open Cgimap.Http.Requests
open Cgimap.Http.Routing

section Order

private theorem before_trichotomy (a b : IdVersion) :
    IdVersion.before a b = true ∨ a = b ∨ IdVersion.before b a = true := by
  obtain ⟨i, v⟩ := a
  obtain ⟨j, w⟩ := b
  simp only [IdVersion.before, Bool.or_eq_true, Bool.and_eq_true, decide_eq_true_eq,
    IdVersion.mk.injEq]
  rcases lt_trichotomy i j with less | same | more
  · exact Or.inl (Or.inl less)
  · cases v with
    | none =>
        cases w with
        | none => exact Or.inr (Or.inl ⟨same, rfl⟩)
        | some w => exact Or.inr (Or.inr (Or.inr ⟨same.symm, rfl⟩))
    | some v =>
        cases w with
        | none => exact Or.inl (Or.inr ⟨same, rfl⟩)
        | some w =>
            rcases lt_trichotomy v w with below | equal | above
            · exact Or.inl (Or.inr ⟨same, decide_eq_true below⟩)
            · exact Or.inr (Or.inl ⟨same, congrArg some equal⟩)
            · exact Or.inr (Or.inr (Or.inr ⟨same.symm, decide_eq_true above⟩))
  · exact Or.inr (Or.inr (Or.inl more))

private theorem before_trans {a b c : IdVersion} (first : IdVersion.before a b = true)
    (second : IdVersion.before b c = true) : IdVersion.before a c = true := by
  obtain ⟨i, v⟩ := a
  obtain ⟨j, w⟩ := b
  obtain ⟨k, x⟩ := c
  simp only [IdVersion.before, Bool.or_eq_true, Bool.and_eq_true, decide_eq_true_eq] at first second ⊢
  rcases first with less | ⟨rfl, versions⟩
  · rcases second with less' | ⟨rfl, -⟩
    · exact Or.inl (less.trans less')
    · exact Or.inl less
  · rcases second with less' | ⟨rfl, versions'⟩
    · exact Or.inl less'
    · refine Or.inr ⟨rfl, ?_⟩
      cases v with
      | none => cases versions
      | some v =>
          cases w with
          | none => cases versions'
          | some w =>
              cases x with
              | none => rfl
              | some x =>
                  exact decide_eq_true ((of_decide_eq_true versions).trans (of_decide_eq_true versions'))

private theorem before_irrefl (a : IdVersion) : IdVersion.before a a = false := by
  obtain ⟨i, v⟩ := a
  cases v with
  | none => simp [IdVersion.before]
  | some v => simp [IdVersion.before]

theorem strictTotal_before : StrictTotal IdVersion.before :=
  ⟨before_irrefl, before_trans, before_trichotomy⟩

end Order

section Writing

def numberText (n : Nat) : Text := (toString n).toList

def formatIdVersion (idv : IdVersion) : Text :=
  match idv.version with
  | some v => numberText idv.id ++ 'v' :: numberText v
  | none => numberText idv.id

def listText (l : List IdVersion) : Text := [','].intercalate (l.map formatIdVersion)

/-- The ranges of the two members of `id_version`. -/
structure Fits (idv : IdVersion) : Prop where
  id : idv.id < 2 ^ 64
  version : ∀ v, idv.version = some v → v < versionBound

private theorem numberText_eq (n : Nat) : numberText n = Nat.toDigits 10 n := by
  rw [numberText, Nat.toString_eq_ofList_toDigits, String.toList_ofList]

private theorem numberText_ne_nil (n : Nat) : numberText n ≠ [] := by
  rw [numberText_eq]
  exact Nat.toDigits_ne_nil

private theorem isDigit_numberText {n : Nat} {c : Char} (member : c ∈ numberText n) :
    c.isDigit = true := by
  rw [numberText_eq] at member
  exact Nat.isDigit_of_mem_toDigits (by decide) (by decide) member

private theorem not_mem_numberText (n : Nat) {c : Char} (other : c.isDigit = false) :
    c ∉ numberText n := by
  intro member
  rw [isDigit_numberText member] at other
  cases other

private theorem parseRubyNumber_numberText {bound n : Nat} (small : n < bound) :
    parseRubyNumber bound (numberText n) = n := by
  have all : (numberText n).takeWhile Char.isDigit = numberText n :=
    List.takeWhile_eq_self_iff.mpr fun c member => isDigit_numberText member
  have value : decimalValue (numberText n) = n := by
    have digits := Nat.ofDigitChars_toDigits (b := 10) (n := n) (by decide) (by decide)
    rw [Nat.ofDigitChars_eq_foldl] at digits
    rw [numberText_eq]
    exact digits
  unfold parseRubyNumber fromChars
  dsimp only
  rw [all, value, if_neg (not_or.mpr ⟨numberText_ne_nil n, not_le.mpr small⟩)]
  rfl

private theorem formatIdVersion_ne_nil (idv : IdVersion) : formatIdVersion idv ≠ [] := by
  unfold formatIdVersion
  split
  · exact List.append_ne_nil_of_left_ne_nil (numberText_ne_nil _) _
  · exact numberText_ne_nil _

private theorem mem_formatIdVersion {idv : IdVersion} {c : Char} (member : c ∈ formatIdVersion idv) :
    c.isDigit = true ∨ c = 'v' := by
  unfold formatIdVersion at member
  split at member
  · rcases List.mem_append.mp member with id | rest
    · exact Or.inl (isDigit_numberText id)
    · rcases List.mem_cons.mp rest with letter | version
      · exact Or.inr letter
      · exact Or.inl (isDigit_numberText version)
  · exact Or.inl (isDigit_numberText member)

private theorem parseSingleId_format {idv : IdVersion} (fits : Fits idv) :
    parseSingleId (formatIdVersion idv) = idv := by
  obtain ⟨id, version⟩ := idv
  have letter : ∀ n, 'v' ∉ numberText n := fun n => not_mem_numberText n (by decide)
  cases version with
  | none =>
      have parts : split (formatIdVersion ⟨id, none⟩) 'v' = [numberText id] := by
        change split (numberText id) 'v' = [numberText id]
        rw [split, if_neg (numberText_ne_nil id), List.splitOn_eq_singleton (letter id)]
      rw [parseSingleId, parts]
      exact congrArg (IdVersion.mk · none) (parseRubyNumber_numberText fits.id)
  | some v =>
      have parts : split (formatIdVersion ⟨id, some v⟩) 'v' = [numberText id, numberText v] := by
        change split (numberText id ++ 'v' :: numberText v) 'v' = [numberText id, numberText v]
        rw [split, if_neg (by simp), List.splitOn_append_cons_self_of_not_mem (letter id),
          List.splitOn_eq_singleton (letter v)]
      rw [parseSingleId, parts]
      dsimp only
      rw [parseRubyNumber_numberText fits.id, parseRubyNumber_numberText (fits.version v rfl)]

private theorem split_listText (l : List IdVersion) :
    split (listText l) ',' = l.map formatIdVersion := by
  cases l with
  | nil => rfl
  | cons idv l =>
      have plain : ∀ text ∈ (idv :: l).map formatIdVersion, ',' ∉ text := by
        intro text member comma
        obtain ⟨item, -, rfl⟩ := List.mem_map.mp member
        rcases mem_formatIdVersion comma with digit | letter
        · exact absurd digit (by decide)
        · exact absurd letter (by decide)
      have parts : (listText (idv :: l)).splitOn ',' = (idv :: l).map formatIdVersion :=
        List.splitOn_intercalate ',' plain (by simp)
      have nonempty : listText (idv :: l) ≠ [] := by
        intro empty
        rw [empty, List.splitOn_nil, List.map_cons, List.cons.injEq] at parts
        exact formatIdVersion_ne_nil idv parts.1.symm
      rw [split, if_neg nonempty, parts]

end Writing

section Parsing

def paramValue (query name : Text) : Option Text :=
  ((parseParams (urldecode query)).find? (fun p => p.1 = name)).map Prod.snd

def components (query name : Text) : List Text :=
  match paramValue query name with
  | none => []
  | some value => split value ','

private theorem parseIdListParams_eq {req : HttpRequest} {query : Text}
    (given : getQueryString req = .ok query) (name : Text) :
    parseIdListParams req name = .ok (sortUnique IdVersion.before
      (((components query name).filter (fun part => part ≠ [])).map parseSingleId)) := by
  unfold parseIdListParams queryParams
  rw [given]
  dsimp only [bind, Except.bind]
  unfold components paramValue
  cases (parseParams (urldecode query)).find? (fun p => p.1 = name) with
  | none => rfl
  | some p => rfl

/-- Characters that mean nothing in a query. -/
def Unreserved (s : Text) : Prop := ∀ c ∈ s, c ≠ '&' ∧ c ≠ '=' ∧ c ≠ '%' ∧ c ≠ '+'

private theorem urldecode_unreserved {s : Text} (plain : ∀ c ∈ s, c ≠ '%' ∧ c ≠ '+') :
    urldecode s = s := by
  induction s with
  | nil => rfl
  | cons c s ih =>
      obtain ⟨percent, plus⟩ := plain c List.mem_cons_self
      rw [urldecode, ih fun other member => plain other (List.mem_cons_of_mem _ member)]
      · exact plus
      · exact fun a b t same _ => percent same

private theorem unreserved_listText (l : List IdVersion) : Unreserved (listText l) := by
  induction l with
  | nil => exact fun c member => absurd member List.not_mem_nil
  | cons idv l ih =>
      intro c member
      have own : ∀ c ∈ formatIdVersion idv, c ≠ '&' ∧ c ≠ '=' ∧ c ≠ '%' ∧ c ≠ '+' := by
        intro c member
        refine ⟨?_, ?_, ?_, ?_⟩ <;>
          rintro rfl <;> rcases mem_formatIdVersion member with digit | letter <;>
            first | exact absurd digit (by decide) | exact absurd letter (by decide)
      cases l with
      | nil =>
          rw [listText, List.map_singleton, List.intercalate_singleton] at member
          exact own c member
      | cons idv' l =>
          rw [listText, List.map_cons, List.map_cons, List.intercalate_cons_cons, List.append_assoc,
            List.mem_append, List.mem_append, List.mem_singleton] at member
          rcases member with first | rfl | rest
          · exact own c first
          · decide
          · exact ih c rest

private theorem paramValue_single {name value : Text} (plain : Unreserved name)
    (plain' : Unreserved value) : paramValue (name ++ '=' :: value) name = some value := by
  have decoded : urldecode (name ++ '=' :: value) = name ++ '=' :: value := by
    refine urldecode_unreserved fun c member => ?_
    rcases List.mem_append.mp member with first | rest
    · exact (plain c first).2.2
    · rcases List.mem_cons.mp rest with rfl | last
      · decide
      · exact (plain' c last).2.2
  have part : '&' ∉ name ++ '=' :: value := by
    rw [List.mem_append, List.mem_cons, not_or, not_or]
    exact ⟨fun member => (plain _ member).1 rfl, by decide, fun member => (plain' _ member).1 rfl⟩
  have equals : ∀ s, Unreserved s → '=' ∉ s := fun s plain member => (plain _ member).2.1 rfl
  have parsed : parseParams (name ++ '=' :: value) = [(name, value)] := by
    rw [parseParams, split, if_neg (by simp), List.splitOn_eq_singleton part]
    rw [List.filterMap_cons, List.filterMap_nil, split, if_neg (by simp),
      List.splitOn_append_cons_self_of_not_mem (equals name plain),
      List.splitOn_eq_singleton (equals value plain')]
  rw [paramValue, decoded, parsed]
  simp

/-- The order is a strict total one, the result of every query is strictly increasing and has the
parses of the components, and a list that was written comes back sorted and without duplicates. -/
theorem parseIdListParams_sorted :
    ((∀ a, IdVersion.before a a = false) ∧
        (∀ a b c, IdVersion.before a b = true → IdVersion.before b c = true →
          IdVersion.before a c = true) ∧
        ∀ a b, IdVersion.before a b = true ∨ a = b ∨ IdVersion.before b a = true) ∧
      (∀ (req : HttpRequest) (query name : Text), getQueryString req = .ok query →
        ∃ ids, parseIdListParams req name = .ok ids ∧
          ids.Pairwise (fun a b => IdVersion.before a b = true) ∧
          ∀ idv, idv ∈ ids ↔ ∃ part ∈ components query name, part ≠ [] ∧ idv = parseSingleId part) ∧
      (∀ (l : List IdVersion), (∀ idv ∈ l, Fits idv) →
        ∀ (req : HttpRequest) (query name : Text), getQueryString req = .ok query →
          paramValue query name = some (listText l) →
            ∃ ids, parseIdListParams req name = .ok ids ∧
              ids.Pairwise (fun a b => IdVersion.before a b = true) ∧ ∀ idv, idv ∈ ids ↔ idv ∈ l) ∧
      ∀ (l : List IdVersion) (name : Text), Unreserved name →
        paramValue (name ++ '=' :: listText l) name = some (listText l) := by
  refine ⟨⟨before_irrefl, fun a b c => before_trans, before_trichotomy⟩, ?_, ?_,
    fun l name plain => paramValue_single plain (unreserved_listText l)⟩
  · intro req query name given
    refine ⟨_, parseIdListParams_eq given name, pairwise_sortUnique strictTotal_before _, fun idv => ?_⟩
    rw [mem_sortUnique, List.mem_map]
    constructor
    · rintro ⟨part, member, rfl⟩
      obtain ⟨listed, nonempty⟩ := List.mem_filter.mp member
      exact ⟨part, listed, of_decide_eq_true nonempty, rfl⟩
    · rintro ⟨part, listed, nonempty, rfl⟩
      exact ⟨part, List.mem_filter.mpr ⟨listed, decide_eq_true nonempty⟩, rfl⟩
  · intro l fits req query name given value
    have pieces : ((components query name).filter (fun part => part ≠ [])).map parseSingleId = l := by
      have filled : (l.map formatIdVersion).filter (fun part => part ≠ []) = l.map formatIdVersion := by
        refine List.filter_eq_self.mpr fun part member => ?_
        obtain ⟨idv, -, rfl⟩ := List.mem_map.mp member
        exact decide_eq_true (formatIdVersion_ne_nil idv)
      rw [components, value]
      dsimp only
      rw [split_listText, filled, List.map_map]
      exact (List.map_congr_left fun idv member => parseSingleId_format (fits idv member)).trans
        (List.map_id l)
    refine ⟨_, parseIdListParams_eq given name, pairwise_sortUnique strictTotal_before _, fun idv => ?_⟩
    rw [mem_sortUnique, pieces]

/-- The query `nodes=1v2,1,1v2`. -/
theorem parseIdListParams_sorted_sampleList :
    ∃ ids, parseIdListParams
        ⟨fun name => if name = "QUERY_STRING" then some "nodes=1v2,1,1v2" else none, 0,
          .error (.badRequest "")⟩ "nodes".toList = .ok ids ∧
      ids.Pairwise (fun a b => IdVersion.before a b = true) ∧
      ∀ idv, idv ∈ ids ↔ idv ∈ [⟨1, some 2⟩, ⟨1, none⟩, (⟨1, some 2⟩ : IdVersion)] :=
  parseIdListParams_sorted.2.2.1 [⟨1, some 2⟩, ⟨1, none⟩, ⟨1, some 2⟩]
    (by
      intro idv member
      simp only [List.mem_cons, List.not_mem_nil, or_false] at member
      rcases member with rfl | rfl | rfl
      · exact ⟨by decide, fun v same => by cases same; decide⟩
      · exact ⟨by decide, nofun⟩
      · exact ⟨by decide, fun v same => by cases same; decide⟩)
    _ "nodes=1v2,1,1v2".toList "nodes".toList rfl (by decide +kernel)

end Parsing

end Cgimap.Http.IdLists
