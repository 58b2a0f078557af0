/- path: Cgimap/Changeset/PayloadSizes
   generality: I
   source: include/cgimap/api06/changeset_upload/osmchange_xml_input_format.hpp,
     contrib/libxml++/parsers/parser.cpp
   digest: A payload of so many bytes hands over so many elements at most. -/

import Mathlib.Data.List.Sort
import Cgimap.Changeset.Responders
import Cgimap.Library.ExceptLists
import Cgimap.Osmchange.XmlParser

/-!
libxml2 reads the bytes of a document and is a parameter here. Entities are replaced by their
text, which is then read as well, so more tags may be reported than are written.
-/

set_option autoImplicit false
set_option relaxedAutoImplicit false

namespace Cgimap.Changeset.PayloadSizes

open Cgimap.Changeset.Responders
open Cgimap.Library.ExceptLists
open Cgimap.Model.Types
open Cgimap.Osmchange.Attributes
open Cgimap.Osmchange.UploadRecords
open Cgimap.Osmchange.XmlParser

/-- `xmlParseDocument` with the callbacks of the parser: what it reports of a text. -/
abbrev Sax := List UInt8 → List Event

/-- The least number of characters that the attributes of a start tag take. -/
def attrsMarkup (attrs : Attrs) : Nat := (attrs.map fun attr => attr.1.length + 4).sum

/-- The least number of characters that a tag takes. -/
def markup : Event → Nat
  | .startElement name attrs _ => name.length + 2 + attrsMarkup attrs
  | .endElement _ _ => 0

def totalMarkup (events : List Event) : Nat := (events.map markup).sum

/-- `XML_PARSE_HUGE` is not set, so what is read along with the text of the entities is at most a
small multiple of the document. The factor is 5 by default, from a million bytes on. -/
def LimitsExpansion (sax : Sax) : Prop :=
  ∀ text, totalMarkup (sax text) ≤ 20 * text.length + 2 ^ 20

/-- Coordinates that a deleted node lacks are not looked at. -/
def bodyRead : (t : ObjectType) → PartialBody t → Body t
  | .node, c =>
      let coordinates : Coordinates := c
      (⟨coordinates.lat.getD 0, coordinates.lon.getD 0⟩ : Position)
  | .way, nodes => nodes
  | .relation, members => members

/-- The element of a call of `process_node`, `process_way` or `process_relation`. A `std::map`
has its entries in the order of the keys. -/
def elementOf : Callback → Option Element
  | .process t o (some op) ifUnused =>
      match o.header.changeset, o.header.id, o.header.version with
      | some changeset, some id, some version =>
          let tags := o.tags.insertionSort (fun a b => a.1 ≤ b.1)
          if nodup : (tags.map Prod.fst).Nodup then
            some ⟨op, t, ⟨changeset, id, version, tags, bodyRead t o.body, nodup⟩, ifUnused⟩
          else none
      | _, _, _ => none
  | _ => none

section Parsing

variable (cfg : Settings) (fromCharsDouble : String → FromCharsDouble)

/-- The parser hands over the elements of the payload, and reads all events unless it fails. -/
def HandsOver (sax : Sax) (payload : Payload) : Prop :=
  ∃ read rest s, sax payload.text = read ++ rest ∧
    onEvents cfg fromCharsDouble .initial read = .ok s ∧
    s.callbacks.filterMap elementOf = payload.elements ∧ (payload.failure = none → rest = [])

end Parsing

section Counting

variable {cfg : Settings} {fromCharsDouble : String → FromCharsDouble} {s s' : Parser}

def isProcess : Callback → Bool
  | .process _ _ _ _ => true
  | _ => false

def isObject : Context → Bool
  | .object _ => true
  | _ => false

/-- The objects handed over and the ones that are open. -/
def objectsBegun (s : Parser) : Nat := s.callbacks.countP isProcess + s.context.countP isObject

/-- The characters that the fields of a header were read from. -/
def headerMarkup (h : Header) : Nat :=
  (if h.id.isSome then 6 else 0) + (if h.changeset.isSome then 13 else 0)

private theorem headerMarkup_readAttribute {h h' : Header} {attr : String × String}
    (read : readAttribute h attr = .ok h') :
    headerMarkup h' ≤ headerMarkup h + (attr.1.length + 4) := by
  unfold readAttribute at read
  split at read
  · rename_i name
    obtain ⟨id, -, same⟩ := bind_eq_ok.mp read
    cases same
    have length : attr.1.length = 2 := by rw [name]; rfl
    simp only [headerMarkup, Option.isSome_some, if_true]
    omega
  split at read
  · rename_i name
    obtain ⟨changeset, -, same⟩ := bind_eq_ok.mp read
    cases same
    have length : attr.1.length = 9 := by rw [name]; rfl
    simp only [headerMarkup, Option.isSome_some, if_true]
    omega
  split at read
  · obtain ⟨version, -, same⟩ := bind_eq_ok.mp read
    cases same
    exact Nat.le_add_right _ _
  · cases read
    exact Nat.le_add_right _ _

private theorem headerMarkup_le {attrs : Attrs} {h : Header}
    (read : attrs.foldlM readAttribute ⟨none, none, none⟩ = .ok h) :
    headerMarkup h ≤ attrsMarkup attrs := by
  have start : headerMarkup ⟨none, none, none⟩ ≤ attrsMarkup [] := Nat.le_refl 0
  refine foldlM_invariant (fun done h => headerMarkup h ≤ attrsMarkup done) ?_ start read
  intro done attr h h' before next
  have step := headerMarkup_readAttribute next
  simp only [attrsMarkup, List.map_append, List.sum_append, List.map_cons, List.map_nil,
    List.sum_cons, List.sum_nil] at before ⊢
  omega

private theorem attrsMarkup_of_initHeader {t : ObjectType} {op : Option Operation} {attrs : Attrs}
    {h : Header} (read : initHeader t op attrs = .ok h) : 19 ≤ attrsMarkup attrs := by
  have both : ∃ h : Header, attrs.foldlM readAttribute ⟨none, none, none⟩ = .ok h ∧
      h.id.isSome ∧ h.changeset.isSome := by
    unfold initHeader at read
    cases op with
    | none =>
        obtain ⟨h', fields, checked⟩ := bind_eq_ok.mp read
        refine ⟨h', fields, ?_⟩
        split at checked
        · cases checked
        split at checked
        · cases checked
        rename_i id hasId _ changeset hasChangeset
        exact ⟨by rw [hasId]; rfl, by rw [hasChangeset]; rfl⟩
    | some op =>
        obtain ⟨_, object, -⟩ := bind_eq_ok.mp read
        obtain ⟨h', fields, checked⟩ := bind_eq_ok.mp object
        refine ⟨h', fields, ?_⟩
        split at checked
        · cases checked
        split at checked
        · cases checked
        rename_i id hasId _ changeset hasChangeset
        exact ⟨by rw [hasId]; rfl, by rw [hasChangeset]; rfl⟩
  obtain ⟨h', fields, hasId, hasChangeset⟩ := both
  have least := headerMarkup_le fields
  simp only [headerMarkup, hasId, hasChangeset, if_true] at least
  exact least

private theorem objectsBegun_startObject {t : ObjectType} {name : String} {attrs : Attrs}
    {location : Location} (long : 3 ≤ name.length)
    (started : startObject fromCharsDouble s t attrs = .ok s') :
    24 * objectsBegun s' ≤ 24 * objectsBegun s + markup (.startElement name attrs location) := by
  obtain ⟨header, read, started⟩ := bind_eq_ok.mp started
  obtain ⟨body, -, same⟩ := bind_eq_ok.mp started
  cases same
  have fields : initHeader t s.operation attrs = .ok header := by
    cases found : initHeader t s.operation attrs with
    | error e =>
        rw [found] at read
        cases read
    | ok h =>
        rw [found] at read
        cases read
        rfl
  have least := attrsMarkup_of_initHeader fields
  have begun : objectsBegun ((s.setObject (⟨header, [], body⟩ : PartialObject t)).push (.object t)) =
      objectsBegun s + 1 := by
    have counts : (Context.object t :: s.context).countP isObject = s.context.countP isObject + 1 :=
      List.countP_cons_of_pos rfl
    exact congrArg (s.callbacks.countP isProcess + ·) counts
  rw [begun, markup]
  omega

private theorem objectsBegun_push {c : Context} (other : isObject c = false) :
    objectsBegun (s.push c) = objectsBegun s :=
  congrArg (s.callbacks.countP isProcess + ·) (List.countP_cons_of_neg (by simp [other]))

private theorem objectsBegun_call {c : Callback} (other : isProcess c = false) :
    objectsBegun (s.call c) = objectsBegun s := by
  have counts : (s.callbacks ++ [c]).countP isProcess = s.callbacks.countP isProcess := by
    rw [List.countP_append, List.countP_cons_of_neg (by simp [other]), List.countP_nil, Nat.add_zero]
  exact congrArg (· + s.context.countP isObject) counts

private theorem objectsBegun_startChild {t : ObjectType} {name : String} {attrs : Attrs}
    (started : startChild s t name attrs = .ok s') : objectsBegun s' = objectsBegun s := by
  unfold startChild at started
  split at started
  · cases started
    exact objectsBegun_push rfl
  split at started
  · cases started
  · obtain ⟨o, -, same⟩ := bind_eq_ok.mp started
    cases same
    exact objectsBegun_push rfl

private theorem objectsBegun_onStartElement {name : String} {attrs : Attrs} {location : Location}
    (started : onStartElement fromCharsDouble s name attrs = .ok s') :
    24 * objectsBegun s' ≤ 24 * objectsBegun s + markup (.startElement name attrs location) := by
  unfold onStartElement at started
  split at started
  · cases started
  · split at started
    · cases started
      rw [objectsBegun_push rfl, objectsBegun_call rfl]
      exact Nat.le_add_right _ _
    · cases started
  · have opened : ∀ op, objectsBegun { s with context := Context.action op :: s.context } =
        objectsBegun s := fun op => objectsBegun_push rfl
    split at started
    · cases started
      exact (Nat.mul_le_mul_left 24 (opened .create).le).trans (Nat.le_add_right _ _)
    split at started
    · cases started
      exact (Nat.mul_le_mul_left 24 (opened .modify).le).trans (Nat.le_add_right _ _)
    split at started
    · cases started
      exact (Nat.mul_le_mul_left 24 (opened .delete).le).trans (Nat.le_add_right _ _)
    · cases started
  · split at started
    · rename_i named
      exact objectsBegun_startObject (by rw [named]; decide) started
    split at started
    · rename_i named
      exact objectsBegun_startObject (by rw [named]; decide) started
    split at started
    · rename_i named
      exact objectsBegun_startObject (by rw [named]; decide) started
    · cases started
  · rw [objectsBegun_startChild started]
    exact Nat.le_add_right _ _
  · cases started

private theorem objectsBegun_onEndElement {name : String} (ended : onEndElement cfg s name = .ok s') :
    objectsBegun s' ≤ objectsBegun s := by
  unfold onEndElement at ended
  split at ended
  · cases ended
  · cases ended
  · rename_i rest opened
    split at ended
    · cases ended
      refine le_of_eq ?_
      have same := objectsBegun_call (s := s) (c := .endDocument) rfl
      rw [← same]
      simp only [objectsBegun, Parser.call, opened, List.countP_cons, isObject]
      rfl
    · cases ended
  · rename_i op rest opened
    split at ended
    · cases ended
      simp only [objectsBegun, opened, List.countP_cons]
      omega
    · cases ended
  · rename_i t rest opened
    split at ended
    · unfold endObject at ended
      split at ended
      · cases ended
      obtain ⟨valid, -, called⟩ := bind_eq_ok.mp ended
      split at called
      · cases called
        simp only [objectsBegun, Parser.call, Parser.setObject, opened, List.countP_append,
          List.countP_cons, List.countP_nil, isProcess, isObject]
        omega
      · cases called
    · cases ended
  · rename_i rest opened
    cases ended
    simp only [objectsBegun, opened, List.countP_cons]
    omega

private theorem eq_ok_of_mapError {ε ε' α : Type} {f : ε → ε'} {x : Except ε α} {a : α}
    (done : x.mapError f = .ok a) : x = .ok a := by
  cases x with
  | error e => cases done
  | ok b =>
      cases done
      rfl

theorem objectsBegun_onEvent {event : Event} (next : onEvent cfg fromCharsDouble s event = .ok s') :
    24 * objectsBegun s' ≤ 24 * objectsBegun s + markup event := by
  cases event with
  | startElement name attrs location =>
      exact objectsBegun_onStartElement (eq_ok_of_mapError next)
  | endElement name location =>
      exact Nat.mul_le_mul_left 24 (objectsBegun_onEndElement (eq_ok_of_mapError next))

theorem objectsBegun_onEvents {events : List Event}
    (done : onEvents cfg fromCharsDouble s events = .ok s') :
    24 * objectsBegun s' ≤ 24 * objectsBegun s + totalMarkup events := by
  have start : 24 * objectsBegun s ≤ 24 * objectsBegun s + totalMarkup [] := Nat.le_add_right _ _
  refine foldlM_invariant (fun read s' => 24 * objectsBegun s' ≤ 24 * objectsBegun s + totalMarkup read)
    ?_ start done
  intro read event s₁ s₂ before next
  have step := objectsBegun_onEvent next
  simp only [totalMarkup, List.map_append, List.sum_append, List.map_cons, List.map_nil,
    List.sum_cons, List.sum_nil] at before ⊢
  omega

private theorem length_elements_le (callbacks : List Callback) :
    (callbacks.filterMap elementOf).length ≤ callbacks.countP isProcess := by
  rw [List.length_filterMap_eq_countP]
  refine List.countP_mono_left fun c _ element => ?_
  cases c with
  | process t o op ifUnused => rfl
  | startDocument => cases element
  | endDocument => cases element

/-- A payload of so many bytes hands over so many elements at most. -/
theorem elements_le {sax : Sax} (limits : LimitsExpansion sax) {payload : Payload}
    (hands : HandsOver cfg fromCharsDouble sax payload) :
    24 * payload.elements.length ≤ 20 * payload.text.length + 2 ^ 20 := by
  obtain ⟨read, rest, s, events, done, handed, -⟩ := hands
  have begun : 24 * objectsBegun s ≤ totalMarkup read := by
    have counts := objectsBegun_onEvents done
    have start : objectsBegun Parser.initial = 0 := rfl
    omega
  have all : totalMarkup (sax payload.text) = totalMarkup read + totalMarkup rest := by
    rw [events, totalMarkup, List.map_append, List.sum_append]
    rfl
  have counted := length_elements_le s.callbacks
  have bound := limits payload.text
  rw [handed] at counted
  unfold objectsBegun at begun
  omega

end Counting

section Samples

def sampleDouble (s : String) : FromCharsDouble :=
  match fromChars s with
  | .value v => .finite v
  | .invalidArgument => .invalidArgument
  | .resultOutOfRange => .resultOutOfRange

def sampleTag (name : String) (attrs : Attrs) (children : List Event) : List Event :=
  .startElement name attrs none :: (children ++ [.endElement name none])

def sampleBody : (t : ObjectType) → Body t → Attrs × List Event
  | .node, p =>
      let position : Position := p
      ([("lat", toString position.lat.num), ("lon", toString position.lon.num)], [])
  | .way, nodes =>
      let nodes : List Int := nodes
      ([], nodes.flatMap fun node => sampleTag "nd" [("ref", toString node)] [])
  | .relation, members =>
      let members : List RelationMember := members
      ([], members.flatMap fun m => sampleTag "member"
        [("type", m.memberType.name), ("ref", toString m.ref), ("role", m.role)] [])

def sampleObject (el : Element) : List Event :=
  let (attrs, children) := sampleBody el.objType el.object.body
  sampleTag el.objType.lowerName
    ([("id", toString el.object.id), ("changeset", toString el.object.changeset),
      ("version", toString el.object.version)] ++ attrs) children

def sampleEvents (doc : List Element) : List Event :=
  sampleTag "osmChange" [] (doc.flatMap fun el =>
    sampleTag (actionName el.op) (if el.ifUnused then [("if-unused", "true")] else [])
      (sampleObject el))

def tagText : Event → String
  | .startElement name attrs _ =>
      "<" ++ name ++ String.join (attrs.map fun attr => " " ++ attr.1 ++ "=\"" ++ attr.2 ++ "\"") ++ ">"
  | .endElement name _ => "</" ++ name ++ ">"

def sampleText (doc : List Element) : List UInt8 :=
  (String.join ((sampleEvents doc).map tagText)).toUTF8.data.toList

def samplePayload (elements : List Element) : Payload := ⟨sampleText elements, elements, none⟩

def sampleSax (docs : List (List Element)) : Sax := fun text =>
  ((docs.find? fun doc => decide (sampleText doc = text)).map sampleEvents).getD []

theorem limits_sampleSax {docs : List (List Element)}
    (small : ∀ doc ∈ docs, totalMarkup (sampleEvents doc) ≤ 2 ^ 20) : LimitsExpansion (sampleSax docs) := by
  intro text
  unfold sampleSax
  cases found : docs.find? fun doc => decide (sampleText doc = text) with
  | none => exact Nat.zero_le _
  | some doc => exact (small doc (List.mem_of_find?_eq_some found)).trans (Nat.le_add_left _ _)

theorem sampleSax_self (doc : List Element) (docs : List (List Element)) :
    sampleSax (doc :: docs) (sampleText doc) = sampleEvents doc := by
  simp only [sampleSax, decide_true, List.find?_cons_of_pos, Option.map_some, Option.getD_some]

theorem sampleSax_other {doc : List Element} {text : List UInt8} (ne : sampleText doc ≠ text)
    (docs : List (List Element)) : sampleSax (doc :: docs) text = sampleSax docs text := by
  simp only [sampleSax, ne, decide_false, Bool.false_eq_true, not_false_eq_true,
    List.find?_cons_of_neg]

instance : (t : ObjectType) → DecidableEq (Body t)
  | .node => inferInstanceAs (DecidableEq Position)
  | .way => inferInstanceAs (DecidableEq (List Int))
  | .relation => inferInstanceAs (DecidableEq (List RelationMember))

deriving instance DecidableEq for OsmObject, Element

def sampleHanded (events : List Event) : Option (List Element) :=
  (onEvents Settings.default sampleDouble .initial events).toOption.map fun s =>
    s.callbacks.filterMap elementOf

theorem handsOver_sample {sax : Sax} {doc : List Element}
    (reads : sax (sampleText doc) = sampleEvents doc)
    (handed : sampleHanded (sampleEvents doc) = some doc) :
    HandsOver .default sampleDouble sax (samplePayload doc) := by
  unfold sampleHanded at handed
  cases done : onEvents Settings.default sampleDouble .initial (sampleEvents doc) with
  | error e =>
      rw [done] at handed
      cases handed
  | ok s =>
      rw [done] at handed
      exact ⟨sampleEvents doc, [], s, reads.trans (List.append_nil _).symm, done,
        Option.some.inj handed, fun _ => rfl⟩

end Samples

end Cgimap.Changeset.PayloadSizes
