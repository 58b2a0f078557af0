/- path: Cgimap/Library/MarkupTree
   generality: G
   source: none
   digest: Trees of elements, and writers that are told to open and to close them. -/

import Mathlib.Data.List.Basic

/-!
`Writer` says which calls make a tree. It keeps the elements that are still open, innermost
first. An element has text or elements, and attributes only in its start tag; a document has
one root. A `TextWriter` is what a library offers, and writes the tree as a text.
-/

set_option autoImplicit false
set_option relaxedAutoImplicit false

namespace Cgimap.Library.MarkupTree

/-- An element with its attributes and its content, or text. -/
inductive Markup where
  | element (name : String) (attrs : List (String × String)) (content : List Markup)
  | text (s : String)

inductive WriterCall where
  | start (name : String)
  | attr (name value : String)
  | text (s : String)
  | close
  deriving DecidableEq

/-- Where the next call finds an element: in its start tag, among elements, or behind text. -/
inductive Place where
  | tag
  | elements
  | text
  deriving DecidableEq

/-- An element that is still open. -/
structure Frame where
  name : String
  attrs : List (String × String)
  content : List Markup
  place : Place

/-- Some of the names that an element or an attribute may have. -/
def isName (name : String) : Bool :=
  decide (name ≠ "") && name.toList.all (fun c => c.isAlpha || c = '_')

/-- A start tag may have this name and attributes of these names. -/
def isHead (name : String) (keys : List String) : Bool :=
  isName name && keys.all isName && decide keys.Nodup

/-- Text as the content of an element; there is none where it is empty. -/
def textContent (s : String) : List Markup := if s = "" then [] else [.text s]

def elementCalls (name : String) (attrs : List (String × String)) (inner : List WriterCall) :
    List WriterCall :=
  .start name :: (attrs.map (fun a => .attr a.1 a.2) ++ (inner ++ [.close]))

/-- What is still open, innermost first, and what is complete. -/
structure Writer where
  frames : List Frame
  complete : List Markup

def Writer.empty : Writer := ⟨[], []⟩

section Steps

def Frame.add (f : Frame) (items : List Markup) : Frame :=
  if items.isEmpty then f else { f with content := f.content ++ items, place := .elements }

/-- Adds to the content of the innermost open element. -/
def Writer.add (w : Writer) (items : List Markup) : Writer :=
  match w.frames with
  | [] => { w with complete := w.complete ++ items }
  | f :: rest => { w with frames := f.add items :: rest }

def Writer.takes (w : Writer) : Bool :=
  match w.frames with
  | [] => w.complete.isEmpty
  | f :: _ => decide (f.place ≠ .text)

/-- One call; there is no result where it does not fit. -/
def Writer.step (w : Writer) : WriterCall → Option Writer
  | .start name =>
      if isName name ∧ w.takes then some { w with frames := ⟨name, [], [], .tag⟩ :: w.frames }
      else none
  | .attr name value =>
      match w.frames with
      | [] => none
      | f :: rest =>
          if f.place = .tag ∧ isName name ∧ name ∉ f.attrs.map Prod.fst then
            some { w with frames := { f with attrs := f.attrs ++ [(name, value)] } :: rest }
          else none
  | .text s =>
      match w.frames with
      | [] => none
      | f :: rest =>
          if f.place = .tag then
            some { w with frames := { f with content := textContent s, place := .text } :: rest }
          else none
  | .close =>
      match w.frames with
      | [] => none
      | f :: rest => some ({ w with frames := rest }.add [.element f.name f.attrs f.content])

def Writer.run (w : Writer) (calls : List WriterCall) : Option Writer := calls.foldlM Writer.step w

/-- Closes what is still open, from the inside to the outside. -/
def Writer.finish (complete : List Markup) : List Frame → List Markup → List Markup
  | [], inner => complete ++ inner
  | f :: rest, inner => finish complete rest [.element f.name f.attrs (f.content ++ inner)]

def Writer.document (w : Writer) : List Markup := Writer.finish w.complete w.frames []

end Steps

section Runs

variable {w : Writer} {f : Frame} {items items' : List Markup}

@[simp] theorem Frame.add_nil : f.add [] = f := rfl

@[simp] theorem Frame.name_add : (f.add items).name = f.name := by
  unfold Frame.add
  split <;> rfl

@[simp] theorem Frame.attrs_add : (f.add items).attrs = f.attrs := by
  unfold Frame.add
  split <;> rfl

@[simp] theorem Frame.content_add : (f.add items).content = f.content ++ items := by
  cases items with
  | nil => rw [Frame.add_nil, List.append_nil]
  | cons item items => rfl

theorem Frame.add_add : (f.add items).add items' = f.add (items ++ items') := by
  cases items' with
  | nil => rw [Frame.add_nil, List.append_nil]
  | cons item' items' =>
      cases items with
      | nil => rfl
      | cons item items => simp [Frame.add]

theorem Frame.place_add (open' : f.place ≠ .text) : (f.add items).place ≠ .text := by
  unfold Frame.add
  split
  · exact open'
  · exact Place.noConfusion

@[simp] theorem add_nil : w.add [] = w := by
  obtain ⟨frames, complete⟩ := w
  cases frames with
  | nil => simp [Writer.add]
  | cons f rest => simp [Writer.add]

theorem add_add (items items' : List Markup) : (w.add items).add items' = w.add (items ++ items') := by
  obtain ⟨frames, complete⟩ := w
  cases frames with
  | nil => simp [Writer.add]
  | cons f rest => simp [Writer.add, Frame.add_add]

theorem run_append (calls calls' : List WriterCall) :
    w.run (calls ++ calls') = (w.run calls).bind (fun w => w.run calls') :=
  List.foldlM_append

theorem run_cons (call : WriterCall) (calls : List WriterCall) :
    w.run (call :: calls) = (w.step call).bind (fun w => w.run calls) := rfl

theorem run_attributes (attrs : List (String × String)) {rest : List Frame} {complete : List Markup}
    (tag : f.place = .tag) (names : ∀ a ∈ attrs, isName a.1 = true)
    (distinct : ((f.attrs ++ attrs).map Prod.fst).Nodup) :
    Writer.run ⟨f :: rest, complete⟩ (attrs.map (fun a => .attr a.1 a.2)) =
      some ⟨{ f with attrs := f.attrs ++ attrs } :: rest, complete⟩ := by
  induction attrs generalizing f with
  | nil => simp [Writer.run]
  | cons a attrs ih =>
      have fresh : a.1 ∉ f.attrs.map Prod.fst := by
        intro member
        rw [List.map_append, List.nodup_append] at distinct
        exact distinct.2.2 a.1 member a.1 List.mem_cons_self rfl
      have step : Writer.step ⟨f :: rest, complete⟩ (.attr a.1 a.2) =
          some ⟨{ f with attrs := f.attrs ++ [(a.1, a.2)] } :: rest, complete⟩ :=
        if_pos ⟨tag, names a List.mem_cons_self, fresh⟩
      have behind : f.attrs ++ [(a.1, a.2)] ++ attrs = f.attrs ++ a :: attrs := by simp
      rw [List.map_cons, run_cons, step, Option.bind_some,
        ih (f := { f with attrs := f.attrs ++ [(a.1, a.2)] }) tag
          (fun b member => names b (List.mem_cons_of_mem a member)) (by rw [behind]; exact distinct)]
      simp

variable {name : String} {attrs : List (String × String)}

theorem run_start (takes : w.takes = true) (head : isHead name (attrs.map Prod.fst) = true) :
    w.run (.start name :: attrs.map (fun a => .attr a.1 a.2)) =
      some ⟨⟨name, attrs, [], .tag⟩ :: w.frames, w.complete⟩ := by
  unfold isHead at head
  simp only [Bool.and_eq_true, List.all_map, List.all_eq_true, decide_eq_true_eq] at head
  obtain ⟨⟨isName, names⟩, distinct⟩ := head
  have opened : w.step (.start name) = some ⟨⟨name, [], [], .tag⟩ :: w.frames, w.complete⟩ :=
    if_pos ⟨isName, takes⟩
  rw [run_cons, opened, Option.bind_some, run_attributes attrs (f := ⟨name, [], [], .tag⟩) rfl
    names distinct]
  rfl

theorem isHead_of_sublist (keys : List String) (fewer : (attrs.map Prod.fst).Sublist keys)
    (head : isHead name keys = true) : isHead name (attrs.map Prod.fst) = true := by
  unfold isHead at head ⊢
  simp only [Bool.and_eq_true, List.all_eq_true, decide_eq_true_eq] at head ⊢
  exact ⟨⟨head.1.1, fun key member => head.1.2 key (fewer.subset member)⟩, fewer.nodup head.2⟩

/-- Calls that add finished elements to what is open, wherever elements may stand. -/
def Writes (calls : List WriterCall) (items : List Markup) : Prop :=
  ∀ w : Writer, w.frames ≠ [] → w.takes = true → w.run calls = some (w.add items)

theorem frames_add (open' : w.frames ≠ []) : (w.add items).frames ≠ [] := by
  obtain ⟨frames, complete⟩ := w
  cases frames with
  | nil => exact absurd rfl open'
  | cons f rest => exact List.cons_ne_nil _ _

theorem takes_add (open' : w.frames ≠ []) (takes : w.takes = true) : (w.add items).takes = true := by
  obtain ⟨frames, complete⟩ := w
  cases frames with
  | nil => exact absurd rfl open'
  | cons f rest => exact decide_eq_true (Frame.place_add (of_decide_eq_true takes))

theorem Writes.nil : Writes [] [] := fun w _ _ => by rw [add_nil]; rfl

theorem Writes.append {calls calls' : List WriterCall} (first : Writes calls items)
    (next : Writes calls' items') : Writes (calls ++ calls') (items ++ items') := by
  intro w open' takes
  rw [run_append, first w open' takes, Option.bind_some,
    next (w.add items) (frames_add open') (takes_add open' takes), add_add]

/-- An element: its start, its attributes, what writes its content, its end. -/
theorem run_element {calls : List WriterCall} {content : List Markup} (takes : w.takes = true)
    (head : isHead name (attrs.map Prod.fst) = true) (inner : Writes calls content) :
    w.run (elementCalls name attrs calls) = some (w.add [.element name attrs content]) := by
  have split : elementCalls name attrs calls =
      (.start name :: attrs.map (fun a => .attr a.1 a.2)) ++ (calls ++ [.close]) := rfl
  rw [split, run_append, run_start takes head, Option.bind_some, run_append,
    inner _ (List.cons_ne_nil _ _) rfl, Option.bind_some]
  simp [Writer.run, Writer.step, Writer.add]

theorem Writes.element {calls : List WriterCall} {content : List Markup}
    (head : isHead name (attrs.map Prod.fst) = true) (inner : Writes calls content) :
    Writes (elementCalls name attrs calls) [.element name attrs content] :=
  fun _ _ takes => run_element takes head inner

theorem Writes.text (s : String) (head : isHead name (attrs.map Prod.fst) = true) :
    Writes (elementCalls name attrs [.text s]) [.element name attrs (textContent s)] := by
  intro w _ takes
  have split : elementCalls name attrs [.text s] =
      (.start name :: attrs.map (fun a => .attr a.1 a.2)) ++ [.text s, .close] := rfl
  rw [split, run_append, run_start takes head]
  rfl

theorem Writes.map {α : Type} {calls : α → List WriterCall} {item : α → Markup}
    (each : ∀ a, Writes (calls a) [item a]) (l : List α) :
    Writes (l.flatMap calls) (l.map item) := by
  induction l with
  | nil => exact .nil
  | cons a l ih => exact (each a).append ih

end Runs

section TextWriters

variable {β : Type}

/-- A library that writes documents: what it writes first, what for each call, unless it
refuses it, and what in the end. -/
structure TextWriter (β : Type) where
  State : Type
  opening : State × List β
  call : State → WriterCall → Option (State × List β)
  finish : State → List β

def WriterCall.strings : WriterCall → List String
  | .attr _ value => [value]
  | .text s => [s]
  | .start _ | .close => []

namespace TextWriter

variable (writer : TextWriter β)

def run (s : writer.State) : List WriterCall → Option (writer.State × List β)
  | [] => some (s, [])
  | call :: calls =>
      (writer.call s call).bind fun r => (run r.1 calls).map fun r' => (r'.1, r.2 ++ r'.2)

def document (calls : List WriterCall) : Option (List β) :=
  (writer.run writer.opening.1 calls).map (fun r => writer.opening.2 ++ r.2 ++ writer.finish r.1)

/-- Calls that make one element, with texts that it can carry, are not refused, and the element
is read back. Elements that are open in the end are closed. -/
def Faithful (read : List β → Option Markup) (valid : String → Prop) : Prop :=
  ∀ calls w root, Writer.empty.run calls = some w → w.document = [root] →
    (∀ call ∈ calls, ∀ s ∈ call.strings, valid s) →
    ∃ out, writer.document calls = some out ∧ read out = some root

end TextWriter

def treeWriter : TextWriter Markup where
  State := Writer
  opening := (.empty, [])
  call w c := (w.step c).map (fun w => (w, []))
  finish := Writer.document

def readTree : List Markup → Option Markup
  | [root] => some root
  | _ => none

private theorem run_treeWriter (calls : List WriterCall) (w : Writer) :
    treeWriter.run w calls = (w.run calls).map (fun w => (w, [])) := by
  induction calls generalizing w with
  | nil => rfl
  | cons call calls ih =>
      have first : treeWriter.call w call = (w.step call).map (fun w => (w, [])) := rfl
      have rest : treeWriter.run w (call :: calls) = (treeWriter.call w call).bind fun r =>
          (treeWriter.run r.1 calls).map fun r' => (r'.1, r.2 ++ r'.2) := rfl
      rw [run_cons, rest, first]
      cases w.step call with
      | none => rfl
      | some next =>
          have last : (treeWriter.run next calls).map (fun r => (r.1, [] ++ r.2)) =
              ((next.run calls).map (fun w => (w, []))).map (fun r => (r.1, [] ++ r.2)) :=
            congrArg (Option.map _) (ih next)
          exact last.trans (Option.map_map ..)

theorem faithful_treeWriter (valid : String → Prop) : treeWriter.Faithful readTree valid := by
  intro calls w root run one _
  have whole : treeWriter.run Writer.empty calls = some (w, []) := by
    rw [run_treeWriter, run]
    rfl
  refine ⟨[root], ?_, rfl⟩
  rw [← one]
  exact congrArg (Option.map _) whole

end TextWriters

section Reading

def valueOf (name : String) (attrs : List (String × String)) : Option String := attrs.lookup name

/-- The attributes and the content of the elements with a name. -/
def named (name : String) (content : List Markup) : List (List (String × String) × List Markup) :=
  content.filterMap (fun m =>
    match m with
    | .element other attrs inner => if other = name then some (attrs, inner) else none
    | .text _ => none)

theorem named_append (name : String) (content content' : List Markup) :
    named name (content ++ content') = named name content ++ named name content' :=
  List.filterMap_append

/-- Elements of one name, each given by its attributes and its content. -/
theorem named_map {α : Type} (name other : String) (attrs : α → List (String × String))
    (inner : α → List Markup) (l : List α) :
    named name (l.map (fun a => .element other (attrs a) (inner a))) =
      if other = name then l.map (fun a => (attrs a, inner a)) else [] := by
  induction l with
  | nil => simp [named]
  | cons a l ih =>
      rw [List.map_cons, ← List.singleton_append, named_append, ih]
      by_cases same : other = name
      · simp [named, same]
      · simp [named, same]

end Reading

end Cgimap.Library.MarkupTree
