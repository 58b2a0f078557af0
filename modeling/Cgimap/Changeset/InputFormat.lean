/- path: Cgimap/Changeset/InputFormat
   generality: I
   source: include/cgimap/api06/changeset_upload/changeset_input_format.hpp,
     test/test_parse_changeset_input.cpp
   digest: The SAX parser of changeset documents, whose context is one value and no stack. -/

import Cgimap.Osmchange.XmlDocuments

set_option autoImplicit false
set_option relaxedAutoImplicit false

namespace Cgimap.Changeset.InputFormat

open Cgimap.Library.ExceptLists
open Cgimap.Model.Types
open Cgimap.Osmchange.XmlParser (Attrs Location Event Failure payload onEnhanceException lastAttr)
open Cgimap.Osmchange.XmlDocuments (Tree ValidTag tagOfAttrs tagsOf)
open Cgimap.Osmchange.XmlDocuments.Tree (childEvents)

inductive Context where
  | root
  | top
  | inChangeset
  | inTag
  deriving DecidableEq

/-- `ChangesetXMLParser`; `tags` holds the entries of `m_tags`. -/
structure Parser where
  context : Context
  tags : List (String × String)
  changesetElementFound : Bool

def Parser.initial : Parser := ⟨.root, [], false⟩

def assign : List (String × String) → String × String → List (String × String)
  | [], tag => [tag]
  | other :: tags, tag => if other.1 = tag.1 then tag :: tags else other :: assign tags tag

section Steps

variable (s : Parser)

/-- `add_tag` for a key and a value. -/
def addTag (key value : String) : Except Failure Parser :=
  if key = "" then payload "Key may not be empty"
  else if 255 < key.length then payload "Key has more than 255 unicode characters"
  else if 255 < value.length then payload "Value has more than 255 unicode characters"
  else .ok { s with tags := assign s.tags (key, value) }

/-- `add_tag` for the attributes of an element. -/
def addTagAttrs (attrs : Attrs) : Except Failure Parser :=
  match lastAttr "k" attrs with
  | none => payload "Mandatory field k missing in tag element"
  | some k =>
      match lastAttr "v" attrs with
      | none => payload "Mandatory field v missing in tag element"
      | some v => addTag s k v

def onStartElement (element : String) (attrs : Attrs) : Except Failure Parser :=
  match s.context with
  | .root =>
      if element = "osm" then .ok { s with context := .top }
      else payload "Unknown top-level element, expecting osm"
  | .top =>
      if element = "changeset" then
        .ok { s with context := .inChangeset, changesetElementFound := true }
      else payload "Unknown element, expecting changeset"
  | .inChangeset =>
      if element = "tag" then addTagAttrs { s with context := .inTag } attrs
      else payload "Unknown element, expecting tag"
  | .inTag => .ok s

def onEndElement (element : String) : Except Failure Parser :=
  match s.context with
  | .root => .error .assertion
  | .top =>
      if element = "osm" then
        if s.changesetElementFound then .ok { s with context := .root }
        else payload ("Cannot parse valid changeset from xml string. " ++
          "XML doesn't contain an osm/changeset element")
      else .error .assertion
  | .inChangeset =>
      if element = "changeset" then .ok { s with context := .top } else .error .assertion
  | .inTag => if element = "tag" then .ok { s with context := .inChangeset } else .error .assertion

def onEvent : Event → Except Failure Parser
  | .startElement name attrs location =>
      (onStartElement s name attrs).mapError (onEnhanceException location)
  | .endElement name location => (onEndElement s name).mapError (onEnhanceException location)

def onEvents (events : List Event) : Except Failure Parser := events.foldlM onEvent s

end Steps

/-- `process_message`, for the events that the document leads to. -/
def processMessage (events : List Event) : Except Failure (List (String × String)) :=
  (onEvents Parser.initial events).map Parser.tags

section Meaning

/-- The tags of the elements `tag` in an element `changeset` in an element `osm`. -/
def directTags (roots : List Tree) : List (String × String) :=
  (roots.filter (fun o => o.name = "osm")).flatMap (fun o =>
    (o.children.filter (fun c => c.name = "changeset")).flatMap (fun c => tagsOf c.children))

/-- The entries of a map after all these assignments: the last one of a key counts. -/
structure LastWins (pairs tags : List (String × String)) : Prop where
  distinct : (tags.map Prod.fst).Nodup
  entries : ∀ k v, (k, v) ∈ tags ↔
    ∃ before later, pairs = before ++ (k, v) :: later ∧ k ∉ later.map Prod.fst

/-- What is expected of the parser for the events of these elements. -/
structure Conforms (roots : List Tree) : Prop where
  asserts : onEvents Parser.initial (childEvents roots) ≠ .error .assertion
  contexts : ∀ pre (t : Tree) post s s', childEvents roots = pre ++ (t.events ++ post) →
    onEvents Parser.initial pre = .ok s → onEvents s t.events = .ok s' → s'.context = s.context
  tags : ∀ tags, processMessage (childEvents roots) = .ok tags → LastWins (directTags roots) tags

/-- An element of the second kind comes before any that is not of the first. -/
def Before {α : Type} (plain other : α → Prop) (l : List α) : Prop :=
  ∃ pre a post, l = pre ++ a :: post ∧ (∀ b ∈ pre, plain b) ∧ other a

structure PlainTag (t : Tree) : Prop where
  name : t.name = "tag"
  attrs : ValidTag t.attrs
  empty : t.children = []

structure FilledTag (t : Tree) : Prop where
  name : t.name = "tag"
  attrs : ValidTag t.attrs
  filled : t.children ≠ []

structure PlainChangeset (c : Tree) : Prop where
  name : c.name = "changeset"
  children : ∀ t ∈ c.children, PlainTag t

structure FilledChangeset (c : Tree) : Prop where
  name : c.name = "changeset"
  children : Before PlainTag FilledTag c.children

structure PlainOsm (o : Tree) : Prop where
  name : o.name = "osm"
  children : ∀ c ∈ o.children, PlainChangeset c

structure FilledOsm (o : Tree) : Prop where
  name : o.name = "osm"
  children : Before PlainChangeset FilledChangeset o.children

/-- Some tag has an element in it, and all that comes before can be read. -/
def NestedInTag (roots : List Tree) : Prop :=
  ∃ pre o post, roots = pre ++ o :: post ∧ (∀ r ∈ pre, PlainOsm r) ∧
    (∀ r ∈ pre.head?, r.children ≠ []) ∧ FilledOsm o

end Meaning

section Runs

variable {s s' : Parser} {events events' : List Event}

theorem onEvents_append : onEvents s (events ++ events') =
    onEvents s events >>= fun s' => onEvents s' events' := List.foldlM_append ..

theorem onEvents_cons {event : Event} : onEvents s (event :: events) =
    onEvent s event >>= fun s' => onEvents s' events := List.foldlM_cons ..

def Event.isStart : Event → Bool
  | .startElement _ _ _ => true
  | .endElement _ _ => false

/-- No element starts inside a tag, as far as the run gets. -/
def Clean : Parser → List Event → Prop
  | _, [] => True
  | s, event :: events => (Event.isStart event = true → s.context ≠ .inTag) ∧
      ∀ s', onEvent s event = .ok s' → Clean s' events

theorem clean_append : Clean s (events ++ events') ↔
    Clean s events ∧ ∀ s', onEvents s events = .ok s' → Clean s' events' := by
  induction events generalizing s with
  | nil =>
      simp only [List.nil_append, Clean, true_and]
      constructor
      · intro clean s' same
        cases same
        exact clean
      · exact fun clean => clean s rfl
  | cons event events ih =>
      simp only [List.cons_append, Clean, ih, onEvents_cons, bind_eq_ok, and_assoc]
      refine and_congr_right fun _ => ?_
      constructor
      · intro all
        exact ⟨fun s₁ step => (all s₁ step).1, fun s' ⟨s₁, step, rest⟩ => (all s₁ step).2 s' rest⟩
      · rintro ⟨first, rest⟩ s₁ step
        exact ⟨first s₁ step, fun s' run => rest s' ⟨s₁, step, run⟩⟩

end Runs

section Stacks

/-- The names of the open elements, innermost first. -/
def stackAfter : List Event → List String → Option (List String)
  | [], stack => some stack
  | .startElement name _ _ :: events, stack => stackAfter events (name :: stack)
  | .endElement _ _ :: _, [] => none
  | .endElement name _ :: events, opened :: stack =>
      if opened = name then stackAfter events stack else none

theorem stackAfter_append (events events' : List Event) (stack : List String) :
    stackAfter (events ++ events') stack = (stackAfter events stack).bind (stackAfter events') := by
  induction events generalizing stack with
  | nil => rfl
  | cons event events ih =>
      cases event with
      | startElement name attrs location => exact ih (name :: stack)
      | endElement name location =>
          cases stack with
          | nil => rfl
          | cons opened stack =>
              simp only [List.cons_append, stackAfter]
              split
              · exact ih stack
              · rfl

mutual

theorem stackAfter_events : (t : Tree) → (stack : List String) →
    stackAfter t.events stack = some stack
  | .element name attrs opened closed children, stack => by
      rw [Tree.events, stackAfter, stackAfter_append, stackAfter_childEvents children]
      simp [stackAfter]

theorem stackAfter_childEvents : (children : List Tree) → (stack : List String) →
    stackAfter (childEvents children) stack = some stack
  | [], _ => rfl
  | child :: children, stack => by
      rw [childEvents, stackAfter_append, stackAfter_events child, Option.bind_some,
        stackAfter_childEvents children]

end

/-- The open elements that a context stands for, as long as none of them is in a tag. -/
def openNames : Context → List String
  | .root => []
  | .top => ["osm"]
  | .inChangeset => ["changeset", "osm"]
  | .inTag => ["tag", "changeset", "osm"]

theorem openNames_injective : Function.Injective openNames := by
  intro c c'
  cases c <;> cases c' <;> decide

variable {s s' : Parser} {events : List Event} {stack : List String}

private theorem mapError_eq_ok {α : Type} {x : Except Failure α} {f : Failure → Failure} {a : α} :
    x.mapError f = .ok a ↔ x = .ok a := by
  cases x <;> simp [Except.mapError]

private theorem mapError_ne_assertion {α : Type} {x : Except Failure α} {location : Location}
    (safe : x ≠ .error .assertion) :
    x.mapError (onEnhanceException location) ≠ .error .assertion := by
  intro fails
  cases x with
  | ok a => cases fails
  | error failure =>
      cases failure with
      | payloadError e =>
          cases e <;> cases location <;> cases fails
      | exception e => cases fails
      | assertion => exact safe rfl
      | nullPointer => cases fails

theorem addTag_ok {key value : String} (done : addTag s key value = .ok s') :
    s' = { s with tags := assign s.tags (key, value) } := by
  unfold addTag at done
  split at done
  · cases done
  · split at done
    · cases done
    · split at done
      · cases done
      · cases done
        rfl

theorem addTagAttrs_ok {attrs : Attrs} (done : addTagAttrs s attrs = .ok s') :
    s'.context = s.context := by
  unfold addTagAttrs at done
  split at done
  · cases done
  · split at done
    · cases done
    · rw [addTag_ok done]

theorem addTagAttrs_safe (attrs : Attrs) : addTagAttrs s attrs ≠ .error .assertion := by
  unfold addTagAttrs
  split
  · nofun
  · split
    · nofun
    · unfold addTag
      split
      · nofun
      · split
        · nofun
        · split <;> nofun

private theorem start_opens (name : String) (attrs : Attrs) (outside : s.context ≠ .inTag) :
    onStartElement s name attrs ≠ .error .assertion ∧
      ∀ s', onStartElement s name attrs = .ok s' →
        openNames s'.context = name :: openNames s.context := by
  unfold onStartElement
  cases found : s.context with
  | root =>
      dsimp only
      split
      · rename_i same
        refine ⟨nofun, fun s' done => ?_⟩
        cases done
        rw [same]
        rfl
      · exact ⟨nofun, nofun⟩
  | top =>
      dsimp only
      split
      · rename_i same
        refine ⟨nofun, fun s' done => ?_⟩
        cases done
        rw [same]
        rfl
      · exact ⟨nofun, nofun⟩
  | inChangeset =>
      dsimp only
      split
      · rename_i same
        refine ⟨addTagAttrs_safe attrs, fun s' done => ?_⟩
        rw [addTagAttrs_ok done, same]
        rfl
      · exact ⟨nofun, nofun⟩
  | inTag => exact absurd found outside

private theorem end_opens {name : String} (opens : openNames s.context = name :: stack) :
    onEndElement s name ≠ .error .assertion ∧
      ∀ s', onEndElement s name = .ok s' → openNames s'.context = stack := by
  unfold onEndElement
  cases found : s.context with
  | root =>
      rw [found] at opens
      cases opens
  | top =>
      rw [found] at opens
      obtain ⟨rfl, rfl⟩ := List.cons.inj opens
      dsimp only
      rw [if_pos rfl]
      split
      · refine ⟨nofun, fun s' done => ?_⟩
        cases done
        rfl
      · exact ⟨nofun, nofun⟩
  | inChangeset =>
      rw [found] at opens
      obtain ⟨rfl, rfl⟩ := List.cons.inj opens
      refine ⟨nofun, fun s' done => ?_⟩
      cases done
      rfl
  | inTag =>
      rw [found] at opens
      obtain ⟨rfl, rfl⟩ := List.cons.inj opens
      refine ⟨nofun, fun s' done => ?_⟩
      cases done
      rfl

/-- A run in which no element stands in a tag keeps track of the open elements. -/
theorem opens_run (clean : Clean s events)
    (balance : stackAfter events (openNames s.context) = some stack) :
    onEvents s events ≠ .error .assertion ∧
      ∀ s', onEvents s events = .ok s' → openNames s'.context = stack := by
  induction events generalizing s with
  | nil =>
      cases balance
      refine ⟨nofun, fun s' done => ?_⟩
      cases done
      rfl
  | cons event events ih =>
      obtain ⟨outside, rest⟩ := clean
      have step : onEvent s event ≠ .error .assertion ∧ ∀ s', onEvent s event = .ok s' →
          stackAfter events (openNames s'.context) = some stack := by
        cases event with
        | startElement name attrs location =>
            obtain ⟨safe, follows⟩ := start_opens name attrs (outside rfl)
            refine ⟨mapError_ne_assertion safe, fun s' done => ?_⟩
            rw [follows s' (mapError_eq_ok.mp done)]
            exact balance
        | endElement name location =>
            cases opens : openNames s.context with
            | nil =>
                rw [opens] at balance
                cases balance
            | cons opened names =>
                rw [opens, stackAfter] at balance
                split at balance
                · rename_i same
                  subst same
                  obtain ⟨safe, follows⟩ := end_opens opens
                  refine ⟨mapError_ne_assertion safe, fun s' done => ?_⟩
                  rw [follows s' (mapError_eq_ok.mp done)]
                  exact balance
                · cases balance
      obtain ⟨safe, follows⟩ := step
      rw [onEvents_cons]
      cases run : onEvent s event with
      | error failure =>
          rw [run] at safe
          exact ⟨safe, nofun⟩
      | ok s₁ => exact ih (rest s₁ run) (follows s₁ run)

end Stacks

section Maps

variable {tags pairs : List (String × String)} {tag : String × String}

private theorem mem_assign_iff (distinct : (tags.map Prod.fst).Nodup) {k v : String} :
    (k, v) ∈ assign tags tag ↔ (k, v) = tag ∨ (k ≠ tag.1 ∧ (k, v) ∈ tags) := by
  induction tags with
  | nil => simp [assign]
  | cons other tags ih =>
      rw [List.map_cons, List.nodup_cons] at distinct
      unfold assign
      split
      · rename_i same
        rw [List.mem_cons, List.mem_cons]
        refine or_congr_right ⟨fun member => ⟨fun key => ?_, .inr member⟩, ?_⟩
        · apply distinct.1
          rw [same, ← key]
          exact List.mem_map_of_mem member
        · rintro ⟨key, here | later⟩
          · exact absurd (by rw [← here] at same; exact same) key
          · exact later
      · rename_i different
        rw [List.mem_cons, List.mem_cons, ih distinct.2]
        constructor
        · rintro (here | here | ⟨key, later⟩)
          · exact .inr ⟨fun key => different (by rw [← here]; exact key), .inl here⟩
          · exact .inl here
          · exact .inr ⟨key, .inr later⟩
        · rintro (here | ⟨key, here | later⟩)
          · exact .inr (.inl here)
          · exact .inl here
          · exact .inr (.inr ⟨key, later⟩)

private theorem keys_assign {k : String} :
    k ∈ (assign tags tag).map Prod.fst ↔ k = tag.1 ∨ k ∈ tags.map Prod.fst := by
  induction tags with
  | nil => simp [assign]
  | cons other tags ih =>
      unfold assign
      split
      · rename_i same
        simp [same]
      · rw [List.map_cons, List.mem_cons, ih, List.map_cons, List.mem_cons]
        tauto

private theorem nodup_assign (distinct : (tags.map Prod.fst).Nodup) :
    ((assign tags tag).map Prod.fst).Nodup := by
  induction tags with
  | nil => simp [assign]
  | cons other tags ih =>
      rw [List.map_cons, List.nodup_cons] at distinct
      unfold assign
      split
      · rename_i same
        rw [List.map_cons, List.nodup_cons, ← same]
        exact distinct
      · rename_i different
        rw [List.map_cons, List.nodup_cons, keys_assign]
        exact ⟨fun found => found.elim different distinct.1, ih distinct.2⟩

theorem lastWins_foldl (pairs : List (String × String)) : LastWins pairs (pairs.foldl assign []) := by
  induction pairs using List.reverseRecOn with
  | nil =>
      refine ⟨List.nodup_nil, fun k v => iff_of_false List.not_mem_nil ?_⟩
      rintro ⟨before, later, split, -⟩
      cases before <;> cases split
  | append_singleton pairs tag ih =>
      rw [List.foldl_append, List.foldl_cons, List.foldl_nil]
      refine ⟨nodup_assign ih.distinct, fun k v => ?_⟩
      rw [mem_assign_iff ih.distinct, ih.entries]
      constructor
      · rintro (rfl | ⟨key, before, later, rfl, last⟩)
        · exact ⟨pairs, [], rfl, List.not_mem_nil⟩
        · refine ⟨before, later ++ [tag], by simp, ?_⟩
          rw [List.map_append, List.mem_append]
          rintro (found | here)
          · exact last found
          · exact key (List.mem_singleton.mp here)
      · rintro ⟨before, later, split, last⟩
        rcases List.eq_nil_or_concat later with rfl | ⟨later, tag', rfl⟩
        · obtain ⟨-, same⟩ := List.append_inj' split rfl
          exact .inl (List.singleton_inj.mp same).symm
        · rw [List.concat_eq_append, ← List.cons_append, ← List.append_assoc] at split
          obtain ⟨same, single⟩ := List.append_inj' split rfl
          cases single
          rw [List.concat_eq_append, List.map_append, List.mem_append, not_or] at last
          exact .inr ⟨fun key => last.2 (List.mem_singleton.mpr key), before, later, same, last.1⟩

end Maps

section Levels

/-- The elements at one place of the document: those that are read, and how; those with
an element in a tag; and all others, which are refused. -/
structure Level (At : Parser → Prop) (Plain Filled : Tree → Prop) (read : Parser → Tree → Parser) :
    Prop where
  plain : ∀ s t, At s → Plain t →
    Clean s t.events ∧ onEvents s t.events = .ok (read s t) ∧ At (read s t)
  filled : ∀ s t, At s → Filled t → ¬Clean s t.events
  other : ∀ s t, At s → ¬Plain t → ¬Filled t → Clean s t.events ∧ ∀ s', onEvents s t.events ≠ .ok s'

variable {At : Parser → Prop} {Plain Filled : Tree → Prop} {read : Parser → Tree → Parser}
  {s : Parser} {l : List Tree}

theorem before_cons {t : Tree} :
    Before Plain Filled (t :: l) ↔ Filled t ∨ (Plain t ∧ Before Plain Filled l) := by
  constructor
  · rintro ⟨pre, a, post, split, plain, filled⟩
    cases pre with
    | nil =>
        cases split
        exact .inl filled
    | cons b pre =>
        cases split
        exact .inr ⟨plain _ List.mem_cons_self, pre, a, post, rfl,
          fun c member => plain c (List.mem_cons_of_mem _ member), filled⟩
  · rintro (filled | ⟨first, pre, a, post, rfl, plain, filled⟩)
    · exact ⟨[], t, l, rfl, by simp, filled⟩
    · exact ⟨t :: pre, a, post, rfl, List.forall_mem_cons.mpr ⟨first, plain⟩, filled⟩

theorem not_before_nil : ¬Before Plain Filled [] := by
  rintro ⟨pre, a, post, split, -⟩
  cases pre <;> cases split

namespace Level

theorem list_plain (level : Level At Plain Filled read) (here : At s) (all : ∀ t ∈ l, Plain t) :
    Clean s (childEvents l) ∧ onEvents s (childEvents l) = .ok (l.foldl read s) ∧
      At (l.foldl read s) := by
  induction l generalizing s with
  | nil => exact ⟨trivial, rfl, here⟩
  | cons t l ih =>
      obtain ⟨first, rest⟩ := List.forall_mem_cons.mp all
      obtain ⟨clean, run, next⟩ := level.plain s t here first
      obtain ⟨cleans, runs, last⟩ := ih next rest
      rw [childEvents, clean_append, onEvents_append, run]
      refine ⟨⟨clean, fun s' same => ?_⟩, runs, last⟩
      cases same
      exact cleans

theorem list_filled (level : Level At Plain Filled read) (here : At s)
    (before : Before Plain Filled l) : ¬Clean s (childEvents l) := by
  induction l generalizing s with
  | nil => exact absurd before not_before_nil
  | cons t l ih =>
      rw [childEvents, clean_append]
      rintro ⟨first, rest⟩
      rcases before_cons.mp before with filled | ⟨plain, before⟩
      · exact level.filled s t here filled first
      · obtain ⟨-, run, next⟩ := level.plain s t here plain
        exact ih next before (rest _ run)

theorem list_other (level : Level At Plain Filled read) (here : At s)
    (never : ¬Before Plain Filled l) (some : ¬∀ t ∈ l, Plain t) :
    Clean s (childEvents l) ∧ ∀ s', onEvents s (childEvents l) ≠ .ok s' := by
  induction l generalizing s with
  | nil => exact absurd (fun t member => (List.not_mem_nil member).elim) some
  | cons t l ih =>
      rw [before_cons, not_or] at never
      rw [childEvents, clean_append, onEvents_append]
      by_cases plain : Plain t
      · obtain ⟨clean, run, next⟩ := level.plain s t here plain
        obtain ⟨cleans, fails⟩ := ih next (fun before => never.2 ⟨plain, before⟩)
          (fun all => some (List.forall_mem_cons.mpr ⟨plain, all⟩))
        rw [run]
        refine ⟨⟨clean, fun s' same => ?_⟩, fails⟩
        cases same
        exact cleans
      · obtain ⟨clean, fails⟩ := level.other s t here plain never.1
        refine ⟨⟨clean, fun s' run => absurd run (fails s')⟩, fun s' run => ?_⟩
        obtain ⟨s₁, first, -⟩ := bind_eq_ok.mp run
        exact fails s₁ first

end Level

end Levels

section Documents

variable {s : Parser} {attrs : Attrs}

def Parser.assignAll (s : Parser) (pairs : List (String × String)) : Parser :=
  { s with tags := pairs.foldl assign s.tags }

private theorem assignAll_append (pairs pairs' : List (String × String)) :
    (s.assignAll pairs).assignAll pairs' = s.assignAll (pairs ++ pairs') := by
  rw [Parser.assignAll, Parser.assignAll, Parser.assignAll, List.foldl_append]

private theorem addTagAttrs_valid (s : Parser) (valid : ValidTag attrs) :
    ∃ tag, tagOfAttrs attrs = some tag ∧ addTagAttrs s attrs = .ok (s.assignAll [tag]) := by
  obtain ⟨k, v, key, value, nonempty, short, short'⟩ := valid
  refine ⟨(k, v), by simp [tagOfAttrs, key, value], ?_⟩
  unfold addTagAttrs addTag
  rw [key, value]
  dsimp only
  rw [if_neg nonempty, if_neg (by omega), if_neg (by omega)]
  rfl

private theorem addTagAttrs_invalid (invalid : ¬ValidTag attrs) (s' : Parser) :
    addTagAttrs s attrs ≠ .ok s' := by
  unfold addTagAttrs
  split
  · nofun
  · rename_i k key
    split
    · nofun
    · rename_i v value
      unfold addTag
      split
      · nofun
      · rename_i nonempty
        split
        · nofun
        · rename_i short
          split
          · nofun
          · rename_i short'
            exact absurd ⟨k, v, key, value, nonempty, not_lt.mp short, not_lt.mp short'⟩ invalid

private theorem clean_element {name : String} {s₁ : Parser} (opened closed : Location)
    (children : List Tree) (outside : s.context ≠ .inTag) (start : onStartElement s name attrs = .ok s₁) :
    (Clean s (Tree.element name attrs opened closed children).events ↔
      Clean s₁ (childEvents children)) ∧
    onEvents s (Tree.element name attrs opened closed children).events =
      (onEvents s₁ (childEvents children) >>= fun s₂ => onEvent s₂ (.endElement name closed)) := by
  have step : onEvent s (.startElement name attrs opened) = .ok s₁ := by
    rw [onEvent, start]
    rfl
  rw [Tree.events]
  constructor
  · simp only [Clean, clean_append, step, Except.ok.injEq]
    constructor
    · exact fun all => (all.2 s₁ rfl).1
    · refine fun clean => ⟨fun _ => outside, ?_⟩
      rintro s' rfl
      exact ⟨clean, fun s₂ _ => ⟨nofun, fun _ _ => trivial⟩⟩
  · rw [onEvents_cons, step, show (Except.ok s₁ >>= fun s' => onEvents s' _) = onEvents s₁ _ from rfl,
      onEvents_append]
    refine bind_congr fun s₂ => ?_
    rw [onEvents_cons]
    cases onEvent s₂ (.endElement name closed) <;> rfl

private theorem refused_element {name : String} {opened closed : Location} {children : List Tree}
    (outside : s.context ≠ .inTag) (start : ∀ s₁, onStartElement s name attrs ≠ .ok s₁) :
    Clean s (Tree.element name attrs opened closed children).events ∧
      ∀ s', onEvents s (Tree.element name attrs opened closed children).events ≠ .ok s' := by
  have step : ∀ s₁, onEvent s (.startElement name attrs opened) ≠ .ok s₁ := by
    intro s₁ done
    exact start s₁ (mapError_eq_ok.mp done)
  rw [Tree.events]
  refine ⟨⟨fun _ => outside, fun s₁ done => absurd done (step s₁)⟩, fun s' done => ?_⟩
  rw [onEvents_cons] at done
  obtain ⟨s₁, first, -⟩ := bind_eq_ok.mp done
  exact step s₁ first

private theorem tagsOf_cons (t : Tree) (l : List Tree) : tagsOf (t :: l) = tagsOf [t] ++ tagsOf l := by
  unfold tagsOf
  rw [← List.filterMap_append, ← List.filter_append]
  rfl

private theorem foldl_tags (l : List Tree) (s : Parser) :
    l.foldl (fun s t => s.assignAll (tagsOf [t])) s = s.assignAll (tagsOf l) := by
  induction l generalizing s with
  | nil => rfl
  | cons t l ih => rw [List.foldl_cons, ih, assignAll_append, ← tagsOf_cons]

theorem tagLevel : Level (fun s => s.context = .inChangeset) PlainTag FilledTag
    (fun s t => s.assignAll (tagsOf [t])) := by
  refine ⟨fun s t here plain => ?_, fun s t here filled => ?_, fun s t here unread unfilled => ?_⟩
  · obtain ⟨name, attrs, opened, closed, children⟩ := t
    obtain ⟨rfl, valid, rfl⟩ : name = "tag" ∧ ValidTag attrs ∧ children = [] :=
      ⟨plain.name, plain.attrs, plain.empty⟩
    obtain ⟨tag, found, added⟩ := addTagAttrs_valid { s with context := .inTag } valid
    have start : onStartElement s "tag" attrs =
        .ok (({ s with context := .inTag } : Parser).assignAll [tag]) := by
      rw [onStartElement, here]
      exact added
    have shown : tagsOf [Tree.element "tag" attrs opened closed []] = [tag] := by
      simp [tagsOf, Tree.name, Tree.attrs, found]
    obtain ⟨clean, run⟩ := clean_element opened closed [] (by rw [here]; decide) start
    rw [shown]
    refine ⟨clean.mpr trivial, ?_, here⟩
    rw [run]
    obtain ⟨context, tags, found⟩ := s
    cases here
    rfl
  · obtain ⟨name, attrs, opened, closed, children⟩ := t
    obtain ⟨rfl, valid, filled⟩ : name = "tag" ∧ ValidTag attrs ∧ children ≠ [] :=
      ⟨filled.name, filled.attrs, filled.filled⟩
    obtain ⟨tag, -, added⟩ := addTagAttrs_valid { s with context := .inTag } valid
    have start : onStartElement s "tag" attrs =
        .ok (({ s with context := .inTag } : Parser).assignAll [tag]) := by
      rw [onStartElement, here]
      exact added
    obtain ⟨clean, -⟩ := clean_element opened closed children (by rw [here]; decide) start
    rw [clean]
    cases children with
    | nil => exact absurd rfl filled
    | cons child rest =>
        obtain ⟨name, attrs, opened, closed, children⟩ := child
        rw [childEvents, Tree.events, List.cons_append]
        exact fun clean => clean.1 rfl rfl
  · obtain ⟨name, attrs, opened, closed, children⟩ := t
    apply refused_element (by rw [here]; decide)
    intro s₁ done
    rw [onStartElement, here] at done
    dsimp only at done
    split at done
    · rename_i named
      by_cases valid : ValidTag attrs
      · by_cases empty : children = []
        · exact unread ⟨named, valid, empty⟩
        · exact unfilled ⟨named, valid, empty⟩
      · exact addTagAttrs_invalid valid s₁ done
    · cases done

def readChangeset (s : Parser) (c : Tree) : Parser :=
  { s.assignAll (tagsOf c.children) with changesetElementFound := true }

private theorem changeset_start {s : Parser} (here : s.context = .top) (attrs : Attrs) :
    onStartElement s "changeset" attrs =
      .ok { s with context := .inChangeset, changesetElementFound := true } := by
  rw [onStartElement, here]
  rfl

theorem changesetLevel :
    Level (fun s => s.context = .top) PlainChangeset FilledChangeset readChangeset := by
  refine ⟨fun s c here plain => ?_, fun s c here filled => ?_, fun s c here unread unfilled => ?_⟩
  all_goals
    obtain ⟨name, attrs, opened, closed, children⟩ := c
    have outside : s.context ≠ .inTag := by
      rw [here]
      decide
  · obtain rfl : name = "changeset" := plain.name
    obtain ⟨clean, run⟩ := clean_element opened closed children outside (changeset_start here attrs)
    have all : ∀ t ∈ children, PlainTag t := plain.children
    obtain ⟨cleans, runs, -⟩ := tagLevel.list_plain
      (s := { s with context := .inChangeset, changesetElementFound := true }) rfl all
    refine ⟨clean.mpr cleans, ?_, here⟩
    rw [run, runs, foldl_tags]
    obtain ⟨context, tags, found⟩ := s
    cases here
    rfl
  · obtain rfl : name = "changeset" := filled.name
    rw [(clean_element opened closed children outside (changeset_start here attrs)).1]
    exact tagLevel.list_filled rfl filled.children
  · by_cases named : name = "changeset"
    · subst named
      obtain ⟨clean, run⟩ := clean_element opened closed children outside (changeset_start here attrs)
      obtain ⟨cleans, fails⟩ := tagLevel.list_other
        (s := { s with context := .inChangeset, changesetElementFound := true }) rfl
        (fun before => unfilled ⟨rfl, before⟩) (fun all => unread ⟨rfl, all⟩)
      refine ⟨clean.mpr cleans, fun s' done => ?_⟩
      rw [run] at done
      obtain ⟨s₂, children, -⟩ := bind_eq_ok.mp done
      exact fails s₂ children
    · apply refused_element outside
      intro s₁ done
      rw [onStartElement, here] at done
      dsimp only at done
      rw [if_neg named] at done
      cases done

private theorem foldl_changesets (l : List Tree) (s : Parser) :
    l.foldl readChangeset s =
      { s.assignAll (l.flatMap (fun c => tagsOf c.children)) with
        changesetElementFound := s.changesetElementFound || !l.isEmpty } := by
  induction l generalizing s with
  | nil =>
      obtain ⟨context, tags, found⟩ := s
      simp [Parser.assignAll]
  | cons c l ih =>
      rw [List.foldl_cons, ih, List.flatMap_cons]
      simp [readChangeset, Parser.assignAll]

def readOsm (s : Parser) (o : Tree) : Parser :=
  { s.assignAll (o.children.flatMap (fun c => tagsOf c.children)) with
    changesetElementFound := true }

private theorem osm_start (s : Parser) (attrs : Attrs) (here : s.context = .root) :
    onStartElement s "osm" attrs = .ok { s with context := .top } := by
  rw [onStartElement, here]
  rfl

private theorem osm_plain {o : Tree} (here : s.context = .root) (plain : PlainOsm o)
    (found : s.changesetElementFound = true ∨ o.children ≠ []) :
    Clean s o.events ∧ onEvents s o.events = .ok (readOsm s o) ∧ (readOsm s o).context = .root := by
  obtain ⟨name, attrs, opened, closed, children⟩ := o
  obtain rfl : name = "osm" := plain.name
  obtain ⟨clean, run⟩ := clean_element opened closed children (by rw [here]; decide)
    (osm_start s attrs here)
  have all : ∀ c ∈ children, PlainChangeset c := plain.children
  obtain ⟨cleans, runs, -⟩ := changesetLevel.list_plain (s := { s with context := .top }) rfl all
  refine ⟨clean.mpr cleans, ?_, here⟩
  have marked : (s.changesetElementFound || !children.isEmpty) = true := by
    rcases found with found | found
    · rw [found, Bool.true_or]
    · cases children with
      | nil => exact absurd rfl found
      | cons c rest => simp
  rw [run, runs, foldl_changesets]
  obtain ⟨context, tags, found⟩ := s
  cases here
  simp only [Tree.children, readOsm] at marked ⊢
  rw [marked]
  rfl

private theorem osm_filled {o : Tree} (here : s.context = .root) (filled : FilledOsm o) :
    ¬Clean s o.events := by
  obtain ⟨name, attrs, opened, closed, children⟩ := o
  obtain rfl : name = "osm" := filled.name
  rw [(clean_element opened closed children (by rw [here]; decide) (osm_start s attrs here)).1]
  exact changesetLevel.list_filled rfl filled.children

private theorem osm_other {o : Tree} (here : s.context = .root) (unfilled : ¬FilledOsm o)
    (unread : ¬(PlainOsm o ∧ (s.changesetElementFound = true ∨ o.children ≠ []))) :
    Clean s o.events ∧ ∀ s', onEvents s o.events ≠ .ok s' := by
  obtain ⟨name, attrs, opened, closed, children⟩ := o
  by_cases named : name = "osm"
  · subst named
    obtain ⟨clean, run⟩ := clean_element opened closed children (by rw [here]; decide)
      (osm_start s attrs here)
    by_cases all : ∀ c ∈ children, PlainChangeset c
    · obtain ⟨cleans, runs, -⟩ := changesetLevel.list_plain (s := { s with context := .top }) rfl all
      refine ⟨clean.mpr cleans, fun s' done => ?_⟩
      have missing : ¬(s.changesetElementFound = true ∨ children ≠ []) :=
        fun found => unread ⟨⟨rfl, all⟩, found⟩
      obtain ⟨absent, rfl⟩ := not_or.mp missing |>.imp_right not_not.mp
      rw [run, runs] at done
      obtain ⟨context, tags, found⟩ := s
      cases here
      have none : found = false := by simpa using absent
      subst none
      cases done
    · obtain ⟨cleans, fails⟩ := changesetLevel.list_other (s := { s with context := .top }) rfl
        (fun before => unfilled ⟨rfl, before⟩) all
      refine ⟨clean.mpr cleans, fun s' done => ?_⟩
      rw [run] at done
      obtain ⟨s₂, children, -⟩ := bind_eq_ok.mp done
      exact fails s₂ children
  · apply refused_element (by rw [here]; decide)
    intro s₁ done
    rw [onStartElement, here] at done
    dsimp only at done
    rw [if_neg named] at done
    cases done

theorem osmLevel : Level (fun s => s.context = .root ∧ s.changesetElementFound = true) PlainOsm
    FilledOsm readOsm := by
  refine ⟨fun s o here plain => ?_, fun s o here filled => osm_filled here.1 filled,
    fun s o here unread unfilled => osm_other here.1 unfilled (fun read => unread read.1)⟩
  obtain ⟨clean, run, next⟩ := osm_plain here.1 plain (.inl here.2)
  exact ⟨clean, run, next, rfl⟩

theorem nestedInTag_cons {o : Tree} {roots : List Tree} : NestedInTag (o :: roots) ↔
    FilledOsm o ∨ (PlainOsm o ∧ o.children ≠ [] ∧ Before PlainOsm FilledOsm roots) := by
  constructor
  · rintro ⟨pre, r, post, split, plain, found, filled⟩
    cases pre with
    | nil =>
        cases split
        exact .inl filled
    | cons first pre =>
        cases split
        exact .inr ⟨plain _ List.mem_cons_self, found _ rfl, pre, r, post, rfl,
          fun r member => plain r (List.mem_cons_of_mem _ member), filled⟩
  · rintro (filled | ⟨first, found, pre, r, post, rfl, plain, filled⟩)
    · exact ⟨[], o, roots, rfl, by simp, by simp, filled⟩
    · refine ⟨o :: pre, r, post, rfl, List.forall_mem_cons.mpr ⟨first, plain⟩, ?_, filled⟩
      intro r same
      cases same
      exact found

private theorem directTags_plain {roots : List Tree} (all : ∀ o ∈ roots, PlainOsm o) :
    directTags roots = roots.flatMap (fun o => o.children.flatMap (fun c => tagsOf c.children)) := by
  have every : roots.filter (fun o => o.name = "osm") = roots :=
    List.filter_eq_self.mpr fun o member => decide_eq_true (all o member).name
  rw [directTags, every]
  refine List.flatMap_congr fun o member => ?_
  have changesets : o.children.filter (fun c => c.name = "changeset") = o.children :=
    List.filter_eq_self.mpr fun c inside => decide_eq_true ((all o member).children c inside).name
  rw [changesets]

private theorem foldl_osm (l : List Tree) (s : Parser) : (l.foldl readOsm s).tags =
    (l.flatMap (fun o => o.children.flatMap (fun c => tagsOf c.children))).foldl assign s.tags := by
  induction l generalizing s with
  | nil => rfl
  | cons o l ih =>
      rw [List.foldl_cons, ih, List.flatMap_cons, List.foldl_append]
      rfl

theorem onEvents_roots (roots : List Tree) :
    (Clean Parser.initial (childEvents roots) ↔ ¬NestedInTag roots) ∧
      (¬NestedInTag roots → ∀ s, onEvents Parser.initial (childEvents roots) = .ok s →
        s.tags = (directTags roots).foldl assign []) := by
  cases roots with
  | nil =>
      have never : ¬NestedInTag [] := by
        rintro ⟨pre, o, post, split, -⟩
        cases pre <;> cases split
      refine ⟨iff_of_true trivial never, fun _ s done => ?_⟩
      cases done
      rfl
  | cons o roots =>
      rw [nestedInTag_cons, childEvents, clean_append, onEvents_append, not_or]
      by_cases filled : FilledOsm o
      · have dirty := osm_filled (s := Parser.initial) rfl filled
        exact ⟨iff_of_false (fun clean => dirty clean.1) (fun absent => absent.1 filled),
          fun absent => absurd filled absent.1⟩
      by_cases plain : PlainOsm o ∧ o.children ≠ []
      · obtain ⟨clean, run, root⟩ := osm_plain (s := Parser.initial) rfl plain.1 (.inr plain.2)
        have here : (readOsm Parser.initial o).context = .root ∧
            (readOsm Parser.initial o).changesetElementFound = true := ⟨root, rfl⟩
        rw [run]
        by_cases before : Before PlainOsm FilledOsm roots
        · have dirty := osmLevel.list_filled here before
          exact ⟨iff_of_false (fun clean => dirty (clean.2 _ rfl))
            (fun absent => absent.2 ⟨plain.1, plain.2, before⟩),
            fun absent => absurd ⟨plain.1, plain.2, before⟩ absent.2⟩
        · have cleans : Clean (readOsm Parser.initial o) (childEvents roots) := by
            by_cases all : ∀ r ∈ roots, PlainOsm r
            · exact (osmLevel.list_plain here all).1
            · exact (osmLevel.list_other here before all).1
          refine ⟨iff_of_true ⟨clean, fun s' same => ?_⟩ ⟨filled, fun nested => before nested.2.2⟩,
            fun _ s done => ?_⟩
          · cases same
            exact cleans
          · by_cases all : ∀ r ∈ roots, PlainOsm r
            · obtain ⟨-, runs, -⟩ := osmLevel.list_plain here all
              have result : onEvents (readOsm Parser.initial o) (childEvents roots) = .ok s := done
              rw [runs] at result
              cases result
              have every : ∀ r ∈ o :: roots, PlainOsm r := List.forall_mem_cons.mpr ⟨plain.1, all⟩
              rw [foldl_osm, directTags_plain every, List.flatMap_cons, List.foldl_append]
              rfl
            · exact absurd done ((osmLevel.list_other here before all).2 s)
      · obtain ⟨clean, fails⟩ := osm_other (s := Parser.initial) rfl filled (by
          rintro ⟨read, found | found⟩
          · cases found
          · exact plain ⟨read, found⟩)
        refine ⟨iff_of_true ⟨clean, fun s' run => absurd run (fails s')⟩
          ⟨filled, fun nested => plain ⟨nested.1, nested.2.1⟩⟩, fun _ s done => ?_⟩
        obtain ⟨s₁, first, -⟩ := bind_eq_ok.mp done
        exact absurd first (fails s₁)

end Documents

section Conformance

variable {roots : List Tree} {s : Parser} {events : List Event}

private theorem exists_start_of_not_clean (dirty : ¬Clean s events) :
    ∃ pre name attrs location post s', events = pre ++ .startElement name attrs location :: post ∧
      onEvents s pre = .ok s' ∧ s'.context = .inTag := by
  induction events generalizing s with
  | nil => exact absurd trivial dirty
  | cons event events ih =>
      unfold Clean at dirty
      rw [not_and_or] at dirty
      rcases dirty with here | later
      · push Not at here
        obtain ⟨start, inside⟩ := here
        cases event with
        | startElement name attrs location => exact ⟨[], name, attrs, location, events, s, rfl, rfl, inside⟩
        | endElement name location => cases start
      · push Not at later
        obtain ⟨s₁, step, dirty⟩ := later
        obtain ⟨pre, name, attrs, location, post, s', rfl, run, inside⟩ := ih dirty
        refine ⟨event :: pre, name, attrs, location, post, s', rfl, ?_, inside⟩
        rw [onEvents_cons, step]
        exact run

private theorem exists_leaf :
    ∀ (events : List Event) (name : String) (attrs : Attrs) (location : Location) (stack : List String),
      stackAfter (.startElement name attrs location :: events) stack = some [] →
      ∃ starts name' attrs' opened closed post,
        Event.startElement name attrs location :: events =
          starts ++ (.startElement name' attrs' opened :: .endElement name' closed :: post) ∧
        ∀ event ∈ starts, Event.isStart event = true := by
  intro events
  induction events with
  | nil =>
      intro name attrs location stack balance
      cases balance
  | cons event events ih =>
      intro name attrs location stack balance
      cases event with
      | startElement name₁ attrs₁ location₁ =>
          obtain ⟨starts, name', attrs', opened, closed, post, split, only⟩ :=
            ih name₁ attrs₁ location₁ (name :: stack) balance
          refine ⟨.startElement name attrs location :: starts, name', attrs', opened, closed, post,
            congrArg (List.cons _) split, List.forall_mem_cons.mpr ⟨rfl, only⟩⟩
      | endElement name₁ location₁ =>
          simp only [stackAfter] at balance
          split at balance
          · rename_i same
            subst same
            exact ⟨[], name, attrs, location, location₁, events, rfl, by simp⟩
          · cases balance

private theorem onEvents_starts (inside : s.context = .inTag)
    (only : ∀ event ∈ events, Event.isStart event = true) : onEvents s events = .ok s := by
  induction events with
  | nil => rfl
  | cons event events ih =>
      obtain ⟨first, rest⟩ := List.forall_mem_cons.mp only
      cases event with
      | startElement name attrs location =>
          have step : onEvent s (.startElement name attrs location) = .ok s := by
            rw [onEvent, onStartElement, inside]
            rfl
          rw [onEvents_cons, step]
          exact ih rest
      | endElement name location => cases first

private theorem not_conforms_of_dirty (dirty : ¬Clean Parser.initial (childEvents roots)) :
    ¬Conforms roots := by
  intro conforms
  obtain ⟨pre, name, attrs, location, post, s, split, run, inside⟩ := exists_start_of_not_clean dirty
  have balance := stackAfter_childEvents roots []
  rw [split, stackAfter_append] at balance
  obtain ⟨stack, -, rest⟩ := Option.bind_eq_some_iff.mp balance
  obtain ⟨starts, name', attrs', opened, closed, post', leaf, only⟩ :=
    exists_leaf post name attrs location stack rest
  have still := onEvents_starts inside only
  have reached : onEvents Parser.initial (pre ++ starts) = .ok s := by
    rw [onEvents_append, run]
    exact still
  have start : onEvent s (.startElement name' attrs' opened) = .ok s := by
    rw [onEvent, onStartElement, inside]
    rfl
  have whole : childEvents roots = (pre ++ starts) ++
      ((Tree.element name' attrs' opened closed []).events ++ post') := by
    rw [split, leaf, Tree.events, List.append_assoc]
    rfl
  by_cases named : name' = "tag"
  · have ends : onEvents s (Tree.element name' attrs' opened closed []).events =
        .ok { s with context := .inChangeset } := by
      rw [Tree.events, onEvents_cons, start]
      change onEvents s [.endElement name' closed] = _
      rw [onEvents_cons, onEvent, onEndElement, inside]
      dsimp only
      rw [if_pos named]
      rfl
    have same := conforms.contexts _ _ _ _ _ whole reached ends
    rw [inside] at same
    cases same
  · apply conforms.asserts
    rw [whole, onEvents_append, reached]
    change onEvents s _ = _
    rw [Tree.events, List.cons_append, onEvents_cons, start]
    change onEvents s (.endElement name' closed :: post') = _
    rw [onEvents_cons, onEvent, onEndElement, inside]
    dsimp only
    rw [if_neg named]
    rfl

/-- The parser does what is expected of it exactly for the documents in which no element stands
in a tag, up to the first error. -/
theorem conforms_iff (roots : List Tree) : Conforms roots ↔ ¬NestedInTag roots := by
  obtain ⟨clean, tags⟩ := onEvents_roots roots
  constructor
  · intro conforms nested
    exact not_conforms_of_dirty (fun cleans => clean.mp cleans nested) conforms
  · intro absent
    have cleans := clean.mpr absent
    have balance : stackAfter (childEvents roots) (openNames Parser.initial.context) = some [] :=
      stackAfter_childEvents roots []
    refine ⟨(opens_run cleans balance).1, fun pre t post s s' split before here => ?_,
      fun all done => ?_⟩
    · rw [split] at cleans balance
      rw [clean_append] at cleans
      rw [stackAfter_append] at balance
      obtain ⟨stack, reached, -⟩ := Option.bind_eq_some_iff.mp balance
      have first := (opens_run cleans.1 reached).2 s before
      have inner := (clean_append.mp (cleans.2 s before)).1
      have last := (opens_run inner (stackAfter_events t _)).2 s' here
      exact openNames_injective last
    · unfold processMessage at done
      cases run : onEvents Parser.initial (childEvents roots) with
      | error failure =>
          rw [run] at done
          cases done
      | ok s =>
          rw [run] at done
          cases done
          rw [tags absent s run]
          exact lastWins_foldl _

def sampleFilledTag : Tree :=
  .element "osm" [] none none [.element "changeset" [] none none
    [.element "tag" [("k", "a"), ("v", "b")] none none [.element "x" [] none none []]]]

theorem not_conforms_sampleFilledTag : ¬Conforms [sampleFilledTag] := by
  intro conforms
  exact conforms.asserts rfl

end Conformance

end Cgimap.Changeset.InputFormat
