/- path: Cgimap/Http/MediaTypeChoice
   generality: I
   source: src/choose_formatter.cpp, src/mime_types.cpp, include/cgimap/choose_formatter.hpp
   digest: Which media type is chosen for the entries of an Accept header. -/

import Cgimap.Http.HeaderLists
import Cgimap.Library.ExceptLists
import Mathlib.Data.List.Induction

set_option autoImplicit false
set_option relaxedAutoImplicit false

namespace Cgimap.Http.MediaTypeChoice

open Cgimap.Library.ExceptLists
open Cgimap.Model.Types
open Cgimap.Changeset.Responders
open Cgimap.Http.Requests
open Cgimap.Http.Negotiation
open Cgimap.Http.HeaderLists

section Fields

/-- A word of the header, without its separators. -/
structure Word where
  text : Text
  nonempty : text ≠ []
  trimmed : Trimmed text
  plain : ',' ∉ text ∧ ';' ∉ text ∧ '=' ∉ text

/-- A media range. The lone `*` stands for `*/*`. -/
inductive MediaRange where
  | star
  | typed (type subtype : Word) (slashes : '/' ∉ type.text ∧ '/' ∉ subtype.text)
      (wildcard : type.text = "*".toList → subtype.text = "*".toList)

def MediaRange.text : MediaRange → Text
  | .star => "*".toList
  | .typed type subtype _ _ => type.text ++ '/' :: subtype.text

def MediaRange.mimeType : MediaRange → MimeType
  | .star => .anyType
  | .typed type subtype _ _ => mimeParseFrom (type.text ++ '/' :: subtype.text)

inductive Parameter where
  | quality (w : Weight)
  | other (name value : Word) (different : name.text ≠ "q".toList)

def Parameter.text : Parameter → Text
  | .quality w => "q".toList ++ '=' :: w.text
  | .other name value _ => name.text ++ '=' :: value.text

/-- A media range and its parameters, with white space after the range and around the
parameters. -/
def writeItem (range : MediaRange) (gap : Text) (params : List (Slot Parameter)) : Text :=
  [';'].intercalate ((range.text ++ gap) :: params.map (Slot.text Parameter.text))

structure AcceptItem where
  range : MediaRange
  gap : Text
  params : List (Slot Parameter)
  blank : Blank gap
  trimmed : Trimmed (writeItem range gap params)

def AcceptItem.text (item : AcceptItem) : Text := writeItem item.range item.gap item.params

def Parameter.apply (q : ℚ) : Parameter → ℚ
  | .quality w => w.value
  | .other _ _ _ => q

def AcceptItem.quality (item : AcceptItem) : ℚ :=
  (item.params.filterMap Slot.content).foldl Parameter.apply 1

/-- A well-formed Accept header: a list with at least one item. -/
structure AcceptField where
  slots : List (Slot AcceptItem)
  filled : slots.filterMap Slot.content ≠ []

def AcceptField.items (field : AcceptField) : List AcceptItem := field.slots.filterMap Slot.content

def AcceptField.text (field : AcceptField) : Text :=
  [','].intercalate (field.slots.map (Slot.text AcceptItem.text))

/-- The media type and the quality of an item, if the server knows the type. -/
def AcceptItem.entry (item : AcceptItem) : Option (MimeType × ℚ) :=
  if item.range.mimeType = .unspecifiedType then none else some (item.range.mimeType, item.quality)

/-- The last entry for a media type. -/
def AcceptField.own (field : AcceptField) (mt : MimeType) : Option ℚ :=
  (((field.items.filterMap AcceptItem.entry).filter (fun e => e.1 = mt)).getLast?).map Prod.snd

/-- The quality of a media type: that of its own entry, else that of `*/*`, else zero. -/
def AcceptField.effective (field : AcceptField) (mt : MimeType) : ℚ :=
  ((field.own mt).or (field.own .anyType)).getD 0

end Fields

section Writing

/-- A text that is a piece of a list with the separator `d`. -/
private def Piece (d : Char) (s : Text) : Prop := s ≠ [] ∧ Trimmed s ∧ d ∉ s

private theorem Word.piece (word : Word) {d : Char} (plain : d ∉ word.text) : Piece d word.text :=
  ⟨word.nonempty, word.trimmed, plain⟩

private theorem trimmed_append {s t : Text} {d : Char} (first : s ≠ []) (second : t ≠ [])
    (trimmed : Trimmed s) (trimmed' : Trimmed t) : Trimmed (s ++ d :: t) := by
  constructor
  · intro c head
    rw [List.head?_append_of_ne_nil s first] at head
    exact trimmed.1 c head
  · intro c last
    rw [List.getLast?_append_of_ne_nil s (List.cons_ne_nil d t), List.getLast?_cons_of_ne_nil second] at last
    exact trimmed'.2 c last

private theorem isSpace_weight (w : Weight) {c : Char} (member : c ∈ w.text) : isSpace c = false := by
  cases space : isSpace c with
  | false => rfl
  | true =>
      exfalso
      simp only [isSpace, Bool.or_eq_true, decide_eq_true_eq] at space
      rcases Decimal.mem_text member with digit | point
      · rcases space with ((rfl | rfl) | rfl) | rfl <;> exact absurd digit (by decide)
      · rcases space with ((rfl | rfl) | rfl) | rfl <;> exact absurd point (by decide)

private theorem weight_piece (w : Weight) {d : Char} (other : d.isDigit = false ∧ d ≠ '.') :
    Piece d w.text := by
  refine ⟨w.text_ne_nil, ⟨fun c head => ?_, fun c last => ?_⟩, w.toDecimal.not_mem_text other⟩
  · exact isSpace_weight w (List.mem_of_mem_head? head)
  · exact isSpace_weight w (List.mem_of_mem_getLast? last)

private theorem q_piece {d : Char} (other : d ≠ 'q') : Piece d "q".toList := by
  refine ⟨by decide, by decide, ?_⟩
  change d ∉ ['q']
  rwa [List.mem_singleton]

private theorem Piece.append {d e : Char} {s t : Text} (first : Piece d s) (second : Piece d t)
    (other : d ≠ e) : Piece d (s ++ e :: t) := by
  refine ⟨List.append_ne_nil_of_left_ne_nil first.1 _,
    trimmed_append first.1 second.1 first.2.1 second.2.1, ?_⟩
  rw [List.mem_append, List.mem_cons, not_or, not_or]
  exact ⟨first.2.2, other, second.2.2⟩

private theorem Parameter.piece (p : Parameter) {d : Char} (separator : d = ',' ∨ d = ';') :
    Piece d p.text := by
  have different : d ≠ '=' ∧ d ≠ 'q' ∧ d.isDigit = false ∧ d ≠ '.' := by
    rcases separator with rfl | rfl <;> decide
  cases p with
  | quality w =>
      exact (q_piece different.2.1).append (weight_piece w different.2.2) different.1
  | other name value same =>
      have plain : ∀ word : Word, d ∉ word.text := fun word => by
        rcases separator with rfl | rfl
        exacts [word.plain.1, word.plain.2.1]
      exact (name.piece (plain name)).append (value.piece (plain value)) different.1

private theorem MediaRange.piece (range : MediaRange) {d : Char} (separator : d = ',' ∨ d = ';') :
    Piece d range.text := by
  cases range with
  | star =>
      refine ⟨by decide, by unfold MediaRange.text; decide, ?_⟩
      rcases separator with rfl | rfl <;> decide
  | typed type subtype slashes wildcard =>
      have plain : ∀ word : Word, d ∉ word.text := fun word => by
        rcases separator with rfl | rfl
        exacts [word.plain.1, word.plain.2.1]
      refine (type.piece (plain type)).append (subtype.piece (plain subtype)) ?_
      rcases separator with rfl | rfl <;> decide

/-- The places between the semicolons of an item: the range, then the parameters. -/
private def itemSlots (item : AcceptItem) : List (Slot Text) :=
  ⟨[], some item.range.text, item.gap, fun _ member => (List.not_mem_nil member).elim, item.blank⟩ ::
    item.params.map (fun slot => ⟨slot.left, slot.content.map Parameter.text, slot.right, slot.blank⟩)

private theorem itemSlots_text (item : AcceptItem) :
    item.text = [';'].intercalate ((itemSlots item).map (Slot.text id)) := by
  have places : (item.params.map (fun slot : Slot Parameter =>
      (⟨slot.left, slot.content.map Parameter.text, slot.right, slot.blank⟩ : Slot Text))).map
        (Slot.text id) = item.params.map (Slot.text Parameter.text) := by
    rw [List.map_map]
    refine List.map_congr_left fun slot _ => ?_
    cases filled : slot.content <;> simp [Slot.text, filled]
  rw [itemSlots, List.map_cons, places]
  rfl

private theorem itemSlots_piece {item : AcceptItem} {d : Char} (separator : d = ',' ∨ d = ';')
    {slot : Slot Text} (member : slot ∈ itemSlots item) {a : Text} (filled : slot.content = some a) :
    Piece d a := by
  rcases List.mem_cons.mp member with rfl | later
  · cases filled
    exact item.range.piece separator
  · obtain ⟨place, -, rfl⟩ := List.mem_map.mp later
    obtain ⟨p, -, rfl⟩ := Option.map_eq_some_iff.mp filled
    exact p.piece separator

private theorem splitTrim_item (item : AcceptItem) :
    splitTrim item.text ';' =
      item.range.text :: (item.params.filterMap Slot.content).map Parameter.text := by
  have pieces : splitTrim ([';'].intercalate ((itemSlots item).map (Slot.text id))) ';' =
      (itemSlots item).filterMap (fun slot => slot.content.map id) :=
    splitTrim_slots (by decide) fun slot member a filled => itemSlots_piece (Or.inr rfl) member filled
  rw [itemSlots_text, pieces, itemSlots, List.filterMap_cons_some (by rfl), List.filterMap_map,
    List.map_filterMap]
  refine congrArg _ (List.filterMap_congr fun slot _ => ?_)
  exact congrFun Option.map_id (slot.content.map Parameter.text)

private theorem mem_intercalate {d c : Char} {pieces : List Text} (member : c ∈ [d].intercalate pieces) :
    c = d ∨ ∃ piece ∈ pieces, c ∈ piece := by
  induction pieces with
  | nil => exact (List.not_mem_nil member).elim
  | cons piece pieces ih =>
      cases pieces with
      | nil => exact Or.inr ⟨piece, List.mem_cons_self, by simpa using member⟩
      | cons piece' pieces =>
          rw [List.intercalate_cons_cons, List.append_assoc, List.mem_append, List.mem_append,
            List.mem_singleton] at member
          rcases member with first | rfl | rest
          · exact Or.inr ⟨piece, List.mem_cons_self, first⟩
          · exact Or.inl rfl
          · exact (ih rest).imp_right fun ⟨other, inside, found⟩ =>
              ⟨other, List.mem_cons_of_mem _ inside, found⟩

private theorem comma_not_mem_item (item : AcceptItem) : ',' ∉ item.text := by
  intro member
  rw [itemSlots_text] at member
  rcases mem_intercalate member with same | ⟨piece, listed, inside⟩
  · exact absurd same (by decide)
  · obtain ⟨slot, place, rfl⟩ := List.mem_map.mp listed
    have space : isSpace ',' = false := by decide
    rw [Slot.text, List.mem_append, List.mem_append] at inside
    rcases inside with left | content | right
    · rw [slot.blank.1 _ left] at space
      cases space
    · cases filled : slot.content with
      | none =>
          rw [filled] at content
          exact List.not_mem_nil content
      | some a =>
          rw [filled] at content
          exact (itemSlots_piece (Or.inl rfl) place filled).2.2 content
    · rw [slot.blank.2 _ right] at space
      cases space

private theorem item_piece (item : AcceptItem) : Piece ',' item.text := by
  refine ⟨?_, item.trimmed, comma_not_mem_item item⟩
  have first : item.range.text ++ item.gap ≠ [] :=
    List.append_ne_nil_of_left_ne_nil (item.range.piece (Or.inl rfl)).1 _
  unfold AcceptItem.text writeItem
  cases item.params with
  | nil => rwa [List.map_nil, List.intercalate_singleton]
  | cons slot slots =>
      rw [List.map_cons, List.intercalate_cons_cons, List.append_assoc]
      exact List.append_ne_nil_of_left_ne_nil first _

private theorem splitTrim_field (field : AcceptField) :
    splitTrim field.text ',' = field.items.map AcceptItem.text := by
  rw [AcceptField.text, splitTrim_slots (by decide) fun slot _ item _ => item_piece item,
    AcceptField.items, List.map_filterMap]

end Writing

section Parsing

variable (numbers : Numbers)

/-- `from_chars` reads the qualities of the header as the decimals that they are. -/
def ReadsExactly (field : AcceptField) : Prop :=
  ∀ item ∈ field.items, ∀ w, Parameter.quality w ∈ item.params.filterMap Slot.content →
    numbers.fromCharsFixed w.text = some (some w.value)

private theorem splitTrim_pair {d : Char} (separator : isSpace d = false) {s t : Text}
    (first : Piece d s) (second : Piece d t) : splitTrim (s ++ d :: t) d = [s, t] := by
  have places : ([d].intercalate ([⟨[], some s, [], by simp [Blank]⟩,
      ⟨[], some t, [], by simp [Blank]⟩].map (Slot.text id))) = s ++ d :: t := by
    simp [Slot.text]
  rw [← places]
  refine splitTrim_slots separator fun slot member a filled => ?_
  rcases List.mem_cons.mp member with rfl | later
  · cases filled
    exact first
  · obtain rfl := List.mem_singleton.mp later
    cases filled
    exact second

private theorem acceptParameter_text (p : Parameter) (q : ℚ)
    (exact : ∀ w, p = .quality w → numbers.fromCharsFixed w.text = some (some w.value)) :
    acceptParameter numbers q p.text = .ok (p.apply q) := by
  cases p with
  | quality w =>
      have parts : splitTrim (Parameter.quality w).text '=' = ["q".toList, w.text] :=
        splitTrim_pair (by decide) (q_piece (by decide)) (weight_piece w (by decide))
      have range : ¬(w.value < 0 ∨ 1 < w.value) := by
        rw [not_or, not_lt, not_lt]
        exact ⟨w.value_nonneg, w.bounded⟩
      rw [acceptParameter, parts]
      dsimp only
      rw [if_pos rfl, exact w rfl]
      exact if_neg range
  | other name value different =>
      have parts : splitTrim (Parameter.other name value different).text '=' =
          [name.text, value.text] :=
        splitTrim_pair (by decide) (name.piece name.plain.2.2) (value.piece value.plain.2.2)
      rw [acceptParameter, parts]
      exact if_neg different

private theorem foldlM_parameters (params : List Parameter) (q : ℚ)
    (exact : ∀ w, Parameter.quality w ∈ params → numbers.fromCharsFixed w.text = some (some w.value)) :
    (params.map Parameter.text).foldlM (acceptParameter numbers) q =
      .ok (params.foldl Parameter.apply q) := by
  induction params generalizing q with
  | nil => rfl
  | cons p params ih =>
      rw [List.map_cons, List.foldlM_cons, acceptParameter_text numbers p q fun w same =>
        exact w (same ▸ List.mem_cons_self)]
      exact ih _ fun w member => exact w (List.mem_cons_of_mem _ member)

private theorem acceptElement_text (item : AcceptItem)
    (exact : ∀ w, Parameter.quality w ∈ item.params.filterMap Slot.content →
      numbers.fromCharsFixed w.text = some (some w.value)) :
    acceptElement numbers item.text = .ok item.entry := by
  have quality := foldlM_parameters numbers _ 1 exact
  rw [acceptElement, splitTrim_item]
  dsimp only
  rw [quality]
  unfold AcceptItem.entry
  cases item.range with
  | star => rfl
  | typed type subtype slashes wildcard =>
      have long : (MediaRange.typed type subtype slashes wildcard).text ≠ "*".toList := by
        intro short
        have slash : '/' ∈ (MediaRange.typed type subtype slashes wildcard).text :=
          List.mem_append_right _ List.mem_cons_self
        rw [short] at slash
        exact absurd slash (by decide)
      have parts : splitTrim (MediaRange.typed type subtype slashes wildcard).text '/' =
          [type.text, subtype.text] :=
        splitTrim_pair (by decide) (type.piece slashes.1) (subtype.piece slashes.2)
      rw [if_neg long, parts]
      dsimp only
      rw [if_neg fun both => both.2 (wildcard both.1)]
      change (if mimeParseFrom (type.text ++ '/' :: subtype.text) = .unspecifiedType then _ else _) = _
      by_cases unknown : mimeParseFrom (type.text ++ '/' :: subtype.text) = .unspecifiedType
      · rw [if_pos unknown]
        exact congrArg Except.ok (if_pos unknown).symm
      · rw [if_neg unknown]
        exact congrArg Except.ok (if_neg unknown).symm

private theorem mapping_last (entries : List (MimeType × ℚ)) (mt : MimeType) :
    entries.foldl (fun (mapping : AcceptHeader) e => Function.update mapping e.1 (some e.2))
        (fun _ => none) mt =
      ((entries.filter (fun e => e.1 = mt)).getLast?).map Prod.snd := by
  induction entries using List.reverseRecOn with
  | nil => rfl
  | append_singleton entries e ih =>
      rw [List.foldl_append, List.foldl_cons, List.foldl_nil, List.filter_append]
      by_cases same : e.1 = mt
      · rw [← same, Function.update_self, List.filter_cons_of_pos (by simp), List.filter_nil,
          List.getLast?_concat]
        rfl
      · rw [Function.update_of_ne (Ne.symm same), ih, List.filter_cons_of_neg (by simpa using same),
          List.filter_nil, List.append_nil]

private theorem parseAccept_text {field : AcceptField} (exact : ReadsExactly numbers field) :
    parseAccept numbers field.text = .ok field.own := by
  have read : (field.items.map AcceptItem.text).mapM (acceptElement numbers) =
      .ok (field.items.map AcceptItem.entry) := by
    rw [mapM_eq_ok, List.forall₂_map_left_iff, List.forall₂_map_right_iff, List.forall₂_same]
    exact fun item member => acceptElement_text numbers item (exact item member)
  have some : field.items.map AcceptItem.text ≠ [] := by
    rw [ne_eq, List.map_eq_nil_iff]
    exact field.filled
  unfold parseAccept
  rw [splitTrim_field]
  dsimp only
  rw [if_neg some, read]
  change Except.ok _ = _
  rw [List.filterMap_map]
  exact congrArg Except.ok (funext (mapping_last _))

end Parsing

section Properties

/-- A type that a responder can have. -/
def Concrete (mt : MimeType) : Prop := mt ≠ .unspecifiedType ∧ mt ≠ .anyType

variable (field : AcceptField) (available : List MimeType) (resourceType : MimeType)
  (result : Except Exception MimeType)

/-- The type that is chosen is one of the best ones, and is acceptable. -/
structure FollowsAccept : Prop where
  chosen : resourceType = .unspecifiedType → ∀ t, result = .ok t →
    t ∈ available ∧ 0 < field.effective t ∧ ∀ u ∈ available, field.effective u ≤ field.effective t
  refused : resourceType = .unspecifiedType → ((∃ message, result = .error (.notAcceptable message)) ↔
    ∀ t ∈ available, ¬0 < field.effective t)
  fixed : resourceType ≠ .unspecifiedType →
    ((∃ t, result = .ok t) ↔ resourceType ∈ available ∧ 0 < field.effective resourceType)
  decided : (∃ t, result = .ok t) ∨ ∃ message, result = .error (.notAcceptable message)

/-- The highest quality that is listed for an available type counts, and so does a zero. -/
structure QualitiesDecide : Prop where
  listed : resourceType = .unspecifiedType → (∃ t ∈ available, field.own t ≠ none) →
    ∃ t ∈ available, ∃ q, field.own t = some q ∧ 0 < q ∧
      ((∃ u ∈ available, field.own u = none) → ∀ w, field.own .anyType = some w → w ≤ q)
  unlisted : resourceType = .unspecifiedType → (∀ t ∈ available, field.own t = none) →
    field.own .anyType ≠ some 0
  fixed : resourceType ≠ .unspecifiedType → resourceType ∈ available →
    (field.own resourceType).or (field.own .anyType) ≠ some 0

end Properties

section Choosing

variable {field : AcceptField} {available : List MimeType} {t : MimeType} {q : ℚ}

private theorem weight_range (item : AcceptItem) : 0 ≤ item.quality := by
  have range : ∀ (params : List Parameter) (q : ℚ), 0 ≤ q → 0 ≤ params.foldl Parameter.apply q := by
    intro params
    induction params with
    | nil => exact fun _ positive => positive
    | cons p params ih =>
        intro q positive
        refine ih _ ?_
        cases p with
        | quality w => exact w.value_nonneg
        | other name value different => exact positive
  exact range _ 1 zero_le_one

private theorem own_nonneg (listed : field.own t = some q) : 0 ≤ q := by
  rw [AcceptField.own, Option.map_eq_some_iff] at listed
  obtain ⟨e, last, rfl⟩ := listed
  obtain ⟨item, -, entry⟩ := List.mem_filterMap.mp (List.mem_of_mem_filter (List.mem_of_getLast? last))
  unfold AcceptItem.entry at entry
  split at entry
  · cases entry
  · cases entry
    exact weight_range item

private theorem effective_own (listed : field.own t = some q) : field.effective t = q := by
  rw [AcceptField.effective, listed]
  rfl

private theorem effective_wildcard (unlisted : field.own t = none) :
    field.effective t = (field.own .anyType).getD 0 := by
  rw [AcceptField.effective, unlisted, Option.none_or]

private theorem exactMatch_cases (field : AcceptField) (available : List MimeType) :
    (exactMatch field.own available = (.unspecifiedType, -1) ∧ ∀ t ∈ available, field.own t = none) ∨
      ∃ t ∈ available, ∃ q, exactMatch field.own available = (t, q) ∧ field.own t = some q ∧
        ∀ u ∈ available, ∀ q', field.own u = some q' → q' ≤ q := by
  induction available using List.reverseRecOn with
  | nil => exact Or.inl ⟨rfl, fun t member => absurd member List.not_mem_nil⟩
  | append_singleton available u ih =>
      cases listed : field.own u with
      | none =>
          have step : exactMatch field.own (available ++ [u]) = exactMatch field.own available := by
            simp only [exactMatch, List.foldl_append, List.foldl_cons, List.foldl_nil, listed]
          rw [step]
          rcases ih with ⟨start, none⟩ | ⟨t, member, q, best, own, highest⟩
          · refine Or.inl ⟨start, fun t member => ?_⟩
            rcases List.mem_append.mp member with before | last
            · exact none t before
            · rw [List.mem_singleton.mp last, listed]
          · refine Or.inr ⟨t, List.mem_append_left _ member, q, best, own, fun u' member' q' own' => ?_⟩
            rcases List.mem_append.mp member' with before | last
            · exact highest u' before q' own'
            · rw [List.mem_singleton.mp last, listed] at own'
              cases own'
      | some q =>
          have step : exactMatch field.own (available ++ [u]) =
              if (exactMatch field.own available).2 < q then (u, q) else exactMatch field.own available := by
            simp only [exactMatch, List.foldl_append, List.foldl_cons, List.foldl_nil, listed]
            rfl
          rw [step]
          have positive := own_nonneg listed
          rcases ih with ⟨start, none⟩ | ⟨t, member, q', best, own, highest⟩
          · rw [start, if_pos (by linarith)]
            refine Or.inr ⟨u, by simp, q, rfl, listed, fun u' member' q' own' => ?_⟩
            rcases List.mem_append.mp member' with before | last
            · rw [none u' before] at own'
              cases own'
            · rw [List.mem_singleton.mp last, listed] at own'
              exact (Option.some.inj own').symm.le
          · rw [best]
            by_cases above : q' < q
            · rw [if_pos above]
              refine Or.inr ⟨u, by simp, q, rfl, listed, fun u' member' q'' own' => ?_⟩
              rcases List.mem_append.mp member' with before | last
              · exact (highest u' before q'' own').trans above.le
              · rw [List.mem_singleton.mp last, listed] at own'
                exact (Option.some.inj own').symm.le
            · rw [if_neg above]
              refine Or.inr ⟨t, List.mem_append_left _ member, q', rfl, own, fun u' member' q'' own' => ?_⟩
              rcases List.mem_append.mp member' with before | last
              · exact highest u' before q'' own'
              · rw [List.mem_singleton.mp last, listed] at own'
                exact (Option.some.inj own').symm.le.trans (not_lt.mp above)

private theorem notAcceptableFor_concrete {α : Type} (path : Text) {types : List MimeType}
    (concrete : ∀ t ∈ types, Concrete t) :
    ∃ message, (notAcceptableFor path types : Except Exception α) = .error (.notAcceptable message) := by
  have names : ∃ names, types.mapM mimeToString = .ok names := by
    induction types with
    | nil => exact ⟨[], rfl⟩
    | cons t types ih =>
        obtain ⟨names, rest⟩ := ih fun other member => concrete other (List.mem_cons_of_mem _ member)
        have head : ∃ name, mimeToString t = .ok name := by
          have specified := (concrete t List.mem_cons_self).1
          cases t
          · exact absurd rfl specified
          all_goals exact ⟨_, rfl⟩
        obtain ⟨name, head⟩ := head
        refine ⟨name :: names, ?_⟩
        rw [List.mapM_cons, head, rest]
        rfl
  obtain ⟨names, done⟩ := names
  unfold notAcceptableFor mimeTypesToString
  rw [done]
  exact ⟨_, rfl⟩

private theorem chooseAmong_best {accept : AcceptHeader} (path : Text) (known : Concrete t)
    (best : accept.mostAcceptableOf available = t) :
    chooseAmong accept available .unspecifiedType path = .ok t := by
  unfold chooseAmong
  rw [if_neg (not_not_intro rfl)]
  dsimp only
  rw [best, if_neg known.1]
  cases available with
  | nil => rfl
  | cons first rest => exact if_neg known.2

private theorem chooseAmong_none {accept : AcceptHeader} (path : Text)
    (concrete : ∀ t ∈ available, Concrete t)
    (none : accept.mostAcceptableOf available = .unspecifiedType) :
    ∃ message, chooseAmong accept available .unspecifiedType path = .error (.notAcceptable message) := by
  unfold chooseAmong
  rw [if_neg (not_not_intro rfl)]
  dsimp only
  rw [none, if_pos rfl]
  exact notAcceptableFor_concrete path concrete

private theorem chooseAmong_free (path : Text) (nonempty : available ≠ [])
    (concrete : ∀ t ∈ available, Concrete t) :
    (∃ t ∈ available, ∃ q, chooseAmong field.own available .unspecifiedType path = .ok t ∧
        field.own t = some q ∧ ∀ u ∈ available, ∀ q', field.own u = some q' → q' ≤ q) ∨
      ((∀ t ∈ available, field.own t = none) ∧ ∃ t ∈ available, ∃ w,
        chooseAmong field.own available .unspecifiedType path = .ok t ∧ field.own .anyType = some w) ∨
      ((∀ t ∈ available, field.own t = none) ∧ field.own .anyType = none ∧
        ∃ message, chooseAmong field.own available .unspecifiedType path = .error (.notAcceptable message)) := by
  cases available with
  | nil => exact absurd rfl nonempty
  | cons first rest =>
      have known := concrete first List.mem_cons_self
      have shape : AcceptHeader.mostAcceptableOf field.own (first :: rest) =
          if (exactMatch field.own (first :: rest)).1 = .unspecifiedType ∧
            (field.own .anyType).isSome = true then first
          else (exactMatch field.own (first :: rest)).1 := rfl
      rcases exactMatch_cases field (first :: rest) with ⟨start, none⟩ | ⟨t, member, q, best, own, highest⟩
      · rw [start] at shape
        cases wildcard : field.own .anyType with
        | some w =>
            rw [wildcard, if_pos ⟨rfl, rfl⟩] at shape
            exact Or.inr (Or.inl ⟨none, first, List.mem_cons_self, w, chooseAmong_best path known shape, rfl⟩)
        | none =>
            rw [wildcard, if_neg (fun both => nomatch both.2)] at shape
            exact Or.inr (Or.inr ⟨none, rfl, chooseAmong_none path concrete shape⟩)
      · have known' := concrete t member
        rw [best, if_neg (fun both => known'.1 both.1)] at shape
        exact Or.inl ⟨t, member, q, chooseAmong_best path known' shape, own, highest⟩

private theorem chooseAmong_fixed (path : Text) (concrete : ∀ t ∈ available, Concrete t)
    (specified : t ≠ .unspecifiedType) :
    (chooseAmong field.own available t path = .ok t ∧
        t ∈ available ∧ (field.own t).or (field.own .anyType) ≠ none) ∨
      (∃ message, chooseAmong field.own available t path = .error (.notAcceptable message)) ∧
        ¬(t ∈ available ∧ (field.own t).or (field.own .anyType) ≠ none) := by
  unfold chooseAmong
  rw [if_pos specified]
  by_cases member : t ∈ available
  · have acceptable : AcceptHeader.isAcceptable field.own t = false ↔
        (field.own t).or (field.own .anyType) = none := by
      unfold AcceptHeader.isAcceptable
      rw [Option.or_eq_none_iff, Bool.or_eq_false_iff]
      simp
    rw [if_neg (not_not_intro member)]
    by_cases none : (field.own t).or (field.own .anyType) = none
    · rw [if_pos (acceptable.mpr none)]
      have single : ∀ u ∈ [t], Concrete u := fun u only =>
        concrete u (List.mem_singleton.mp only ▸ member)
      exact .inr ⟨notAcceptableFor_concrete path single, fun both => both.2 none⟩
    · rw [if_neg fun other => none (acceptable.mp other)]
      exact .inl ⟨rfl, member, none⟩
  · rw [if_pos member]
    exact .inr ⟨notAcceptableFor_concrete path concrete, fun both => member both.1⟩

private theorem follows_of_best (member : t ∈ available) (positive : 0 < field.effective t)
    (best : ∀ u ∈ available, field.effective u ≤ field.effective t) :
    FollowsAccept field available .unspecifiedType (.ok t) := by
  refine ⟨fun _ u again => ?_, fun _ => ?_, fun fixed => absurd rfl fixed, .inl ⟨t, rfl⟩⟩
  · cases again
    exact ⟨member, positive, best⟩
  · exact iff_of_false nofun fun all => all t member positive

private theorem follows_listed (member : t ∈ available) (own : field.own t = some q)
    (highest : ∀ u ∈ available, ∀ p, field.own u = some p → p ≤ q) :
    FollowsAccept field available .unspecifiedType (.ok t) ↔
      QualitiesDecide field available .unspecifiedType := by
  have value := effective_own own
  constructor
  · intro follows
    obtain ⟨-, positive, best⟩ := follows.chosen rfl t rfl
    rw [value] at positive best
    refine ⟨fun _ _ => ⟨t, member, q, own, positive, ?_⟩, fun _ none => ?_, fun fixed => absurd rfl fixed⟩
    · rintro ⟨u, inside, unlisted⟩ w wildcard
      have other := best u inside
      rw [effective_wildcard unlisted, wildcard] at other
      exact other
    · rw [none t member] at own
      cases own
  · intro decides
    obtain ⟨t', member', q', own', positive, above⟩ :=
      decides.listed rfl ⟨t, member, by rw [own]; exact Option.some_ne_none q⟩
    have least : q' ≤ q := highest t' member' q' own'
    refine follows_of_best member (by rw [value]; exact positive.trans_le least) fun u inside => ?_
    rw [value]
    cases listed : field.own u with
    | some p =>
        rw [effective_own listed]
        exact highest u inside p listed
    | none =>
        rw [effective_wildcard listed]
        cases wildcard : field.own .anyType with
        | none => exact (positive.trans_le least).le
        | some w => exact (above ⟨u, inside, listed⟩ w wildcard).trans least

private theorem follows_wildcard {w : ℚ} (unlisted : ∀ u ∈ available, field.own u = none)
    (member : t ∈ available) (wildcard : field.own .anyType = some w) :
    FollowsAccept field available .unspecifiedType (.ok t) ↔
      QualitiesDecide field available .unspecifiedType := by
  have value : ∀ u ∈ available, field.effective u = w := by
    intro u inside
    rw [effective_wildcard (unlisted u inside), wildcard]
    rfl
  constructor
  · intro follows
    obtain ⟨-, positive, -⟩ := follows.chosen rfl t rfl
    rw [value t member] at positive
    refine ⟨fun _ ⟨u, inside, listed⟩ => absurd (unlisted u inside) listed, fun _ _ zero => ?_,
      fun fixed => absurd rfl fixed⟩
    rw [wildcard] at zero
    cases zero
    exact lt_irrefl _ positive
  · intro decides
    have positive : 0 < w := by
      refine lt_of_le_of_ne (own_nonneg wildcard) fun zero => decides.unlisted rfl unlisted ?_
      rw [wildcard, ← zero]
    refine follows_of_best member (by rw [value t member]; exact positive) fun u inside => ?_
    rw [value u inside, value t member]

/-- Without any entry that applies, no type has a positive quality, and none is chosen. -/
private theorem follows_nothing {message : String} (unlisted : ∀ u ∈ available, field.own u = none)
    (wildcard : field.own .anyType = none) :
    FollowsAccept field available .unspecifiedType (.error (.notAcceptable message)) ↔
      QualitiesDecide field available .unspecifiedType := by
  refine iff_of_true
    ⟨fun _ u again => ?_, fun _ => ?_, fun fixed => absurd rfl fixed, .inr ⟨message, rfl⟩⟩
    ⟨fun _ ⟨u, inside, listed⟩ => absurd (unlisted u inside) listed, fun _ _ zero => ?_,
      fun fixed => absurd rfl fixed⟩
  · cases again
  · refine iff_of_true ⟨message, rfl⟩ fun u inside => ?_
    rw [effective_wildcard (unlisted u inside), wildcard]
    exact lt_irrefl _
  · rw [wildcard] at zero
    cases zero

private theorem follows_fixed (path : Text) (concrete : ∀ t ∈ available, Concrete t)
    {resourceType : MimeType} (free : resourceType ≠ .unspecifiedType) :
    FollowsAccept field available resourceType (chooseAmong field.own available resourceType path) ↔
      QualitiesDecide field available resourceType := by
  have success : (∃ t', chooseAmong field.own available resourceType path = .ok t') ↔
      resourceType ∈ available ∧ (field.own resourceType).or (field.own .anyType) ≠ none := by
    have chosen := @chooseAmong_fixed field available resourceType path concrete free
    rcases chosen with ⟨done, both⟩ | ⟨⟨message, failed⟩, neither⟩
    · exact iff_of_true ⟨resourceType, done⟩ both
    · rw [failed]
      exact iff_of_false (fun ⟨t', done⟩ => by cases done) neither
  constructor
  · intro follows
    refine ⟨fun same => absurd same free, fun same => absurd same free, fun _ member zero => ?_⟩
    have done := (follows.fixed free).mp (success.mpr ⟨member, by rw [zero]; exact Option.some_ne_none 0⟩)
    have positive := done.2
    rw [AcceptField.effective, zero] at positive
    exact lt_irrefl _ positive
  · intro decides
    refine ⟨fun same => absurd same free, fun same => absurd same free, fun _ => success.trans ?_,
      (chooseAmong_fixed path concrete free).imp (fun both => ⟨resourceType, both.1⟩) And.left⟩
    refine and_congr_right fun member => ?_
    have nonzero := decides.fixed free member
    rw [AcceptField.effective]
    cases applies : (field.own resourceType).or (field.own .anyType) with
    | none => exact iff_of_false (not_not_intro rfl) (lt_irrefl _)
    | some q =>
        rw [applies] at nonzero
        have low : 0 ≤ q := by
          rcases Option.or_eq_some_iff.mp applies with own | ⟨-, wildcard⟩
          · exact own_nonneg own
          · exact own_nonneg wildcard
        refine iff_of_true (Option.some_ne_none q) (lt_of_le_of_ne low fun zero => nonzero ?_)
        exact congrArg some (show q = 0 from zero.symm)

/-- The choice follows the header exactly when the listed qualities decide it. -/
theorem followsAccept_iff {numbers : Numbers} (exact : ReadsExactly numbers field)
    (nonempty : available ≠ []) (concrete : ∀ t ∈ available, Concrete t) (resourceType : MimeType)
    (path : Text) :
    FollowsAccept field available resourceType (do
        let accept ← parseAccept numbers field.text
        chooseAmong accept available resourceType path) ↔
      QualitiesDecide field available resourceType := by
  rw [parseAccept_text numbers exact]
  change FollowsAccept field available resourceType (chooseAmong field.own available resourceType path) ↔ _
  by_cases free : resourceType = .unspecifiedType
  · subst free
    rcases chooseAmong_free path nonempty concrete with
      ⟨t, member, q, done, own, highest⟩ | ⟨none, t, member, w, done, wildcard⟩ |
        ⟨none, wildcard, message, failed⟩
    · rw [done]
      exact follows_listed member own highest
    · rw [done]
      exact follows_wildcard none member wildcard
    · rw [failed]
      exact follows_nothing none wildcard
  · exact follows_fixed path concrete free

end Choosing

section Samples

def sampleWord (text : String) (nonempty : text.toList ≠ []) (trimmed : Trimmed text.toList)
    (plain : ',' ∉ text.toList ∧ ';' ∉ text.toList ∧ '=' ∉ text.toList) : Word :=
  ⟨text.toList, nonempty, trimmed, plain⟩

private theorem trimmed_sample : Trimmed "application".toList ∧ Trimmed "json".toList ∧
    Trimmed "*".toList := by
  decide

def sampleJson (w : Weight) (trimmed : Trimmed (writeItem
    (.typed (sampleWord "application" (by decide) trimmed_sample.1 (by decide))
      (sampleWord "json" (by decide) trimmed_sample.2.1 (by decide)) (by decide) (by decide))
    [] [⟨[], some (.quality w), [], by simp [Blank]⟩])) : AcceptItem :=
  ⟨_, _, _, by simp [Blank], trimmed⟩

private theorem zero_ne_nil : "0".toList ≠ [] := by decide

private theorem zero_digits : ∀ c ∈ "0".toList ++ Option.getD none [], c.isDigit = true :=
  List.all_eq_true.mp rfl

private theorem half_digits : ∀ c ∈ "0".toList ++ Option.getD (some "5".toList) [], c.isDigit = true :=
  List.all_eq_true.mp rfl

private theorem zero_le_one : Decimal.value ⟨"0".toList, none, zero_ne_nil, zero_digits⟩ ≤ 1 := by
  decide +kernel

private theorem half_le_one :
    Decimal.value ⟨"0".toList, some "5".toList, zero_ne_nil, half_digits⟩ ≤ 1 := by
  decide +kernel

def sampleZero : Weight := ⟨⟨"0".toList, none, zero_ne_nil, zero_digits⟩, zero_le_one⟩

def sampleHalf : Weight := ⟨⟨"0".toList, some "5".toList, zero_ne_nil, half_digits⟩, half_le_one⟩

def sampleField (item : AcceptItem) : AcceptField :=
  ⟨[⟨[], some item, [], by simp [Blank]⟩], by simp⟩

private theorem readsExactly_decimals (field : AcceptField) : ReadsExactly decimalNumbers field :=
  fun _ _ w _ => readDecimal_text w.toDecimal

/-- The header `application/json;q=0.5`. -/
theorem followsAccept_sampleHalf :
    FollowsAccept (sampleField (sampleJson sampleHalf (by decide)))
      [.applicationXml, .applicationJson] .unspecifiedType (do
        let accept ← parseAccept decimalNumbers
          (sampleField (sampleJson sampleHalf (by decide))).text
        chooseAmong accept [.applicationXml, .applicationJson] .unspecifiedType "/".toList) :=
  (followsAccept_iff (readsExactly_decimals _) (by simp) (by unfold Concrete; decide) _ _).mpr
    ⟨fun _ _ => ⟨.applicationJson, by decide, 1 / 2, by decide +kernel, by norm_num, fun _ w listed =>
        nomatch (show none = some w from listed)⟩,
      fun _ none => absurd (none .applicationJson (by decide)) (by decide +kernel),
      fun specified => absurd rfl specified⟩

/-- The header `application/json;q=0`. -/
theorem not_followsAccept_sampleZero :
    ¬∀ (numbers : Numbers) (field : AcceptField) (available : List MimeType) (path : Text),
      ReadsExactly numbers field → available ≠ [] → (∀ t ∈ available, Concrete t) →
        FollowsAccept field available .unspecifiedType (do
          let accept ← parseAccept numbers field.text
          chooseAmong accept available .unspecifiedType path) := by
  intro all
  have follows := all decimalNumbers (sampleField (sampleJson sampleZero (by decide)))
    [.applicationXml, .applicationJson] "/".toList (readsExactly_decimals _) (by simp)
    (by unfold Concrete; decide)
  obtain ⟨-, positive, -⟩ := follows.chosen rfl .applicationJson (by decide +kernel)
  exact absurd positive (by decide +kernel)

end Samples

end Cgimap.Http.MediaTypeChoice
