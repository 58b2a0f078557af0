/- path: Cgimap/Osmchange/Batching
   generality: I
   source: src/api06/changeset_upload/osmchange_handler.cpp
   digest: Every element reaches one process function, in order and in its state. -/

import Cgimap.Osmchange.DocumentRuns

/-! The handler with a log of its calls. Dropping the log gives the handler back, so
    what the log shows is what the handler does. -/

set_option autoImplicit false
set_option relaxedAutoImplicit false

namespace Cgimap.Osmchange.Batching

open Cgimap.Library.ExceptLists
open Cgimap.Library.StatementProgram
open Cgimap.Library.StatementProgram.Prog
open Cgimap.Model.Types
open Cgimap.Model.Database
open Cgimap.Osmchange.UploadRecords
open Cgimap.Osmchange.UpdaterProcess
open Cgimap.Osmchange.Handler
open Cgimap.Osmchange.ModifyEffects
open Cgimap.Osmchange.DocumentRuns

variable (env : Env)

/-- One call of a process function, with the elements that it finds in its buffer. -/
structure Call where
  op : Operation
  objType : ObjectType
  elems : List (Elem objType)

abbrev Logged := Upload × List Call

/-- A call of a process function and its entry in the log. -/
def logged (op : Operation) (t : ObjectType) (call : Upload → DbProg Upload) (x : Logged) :
    DbProg Logged := do
  let st ← call x.1
  return (st, x.2 ++ [⟨op, t, buffer x.1 op t⟩])

def loggedFlush (x : Logged) : DbProg Logged :=
  match x.1.state with
  | .initial => return x
  | .create t => logged .create t (processNew env t) x
  | .modify => do
      let x ← logged .modify .node (processModify env .node) x
      let x ← logged .modify .way (processModify env .way) x
      logged .modify .relation (processModify env .relation) x
  | .delete t => logged .delete t (processDelete env t) x
  | .finished => return x

def loggedHandleNewState (new : HandlerState) (x : Logged) : DbProg Logged :=
  if new = x.1.state then return x
  else do
    let x ← loggedFlush env x
    return ({ x.1 with state := new }, x.2)

def loggedElement (x : Logged) (el : Element) : DbProg Logged := do
  liftExcept (checkOsmObject env el)
  let x ← loggedHandleNewState env (Element.state el) x
  let st ← liftExcept (push env el x.1)
  return (st, x.2)

def loggedDocument (doc : List Element) : DbProg Logged := do
  let x ← doc.foldlM (loggedElement env) (Upload.empty env, [])
  loggedHandleNewState env .finished x

section Erasure

private theorem fst_logged (op : Operation) (t : ObjectType) (call : Upload → DbProg Upload)
    (x : Logged) : Prod.fst <$> logged op t call x = call x.1 := by
  unfold logged
  rw [map_bind]
  simp

private theorem fst_bind {p : DbProg Logged} {q : DbProg Upload} {f : Logged → DbProg Logged}
    {g : Upload → DbProg Upload} (first : Prod.fst <$> p = q)
    (rest : ∀ x, Prod.fst <$> f x = g x.1) : Prod.fst <$> (p >>= f) = q >>= g := by
  rw [map_bind, ← first, bind_map_left]
  exact bind_congr rest

private theorem fst_flush (x : Logged) : Prod.fst <$> loggedFlush env x = flush env x.1 := by
  unfold loggedFlush flush
  cases x.1.state with
  | initial => exact map_pure ..
  | create t => exact fst_logged ..
  | modify =>
      apply fst_bind (fst_logged ..)
      intro x₁
      apply fst_bind (fst_logged ..)
      intro x₂
      exact fst_logged ..
  | delete t => exact fst_logged ..
  | finished => exact map_pure ..

private theorem fst_handleNewState (new : HandlerState) (x : Logged) :
    Prod.fst <$> loggedHandleNewState env new x = handleNewState env new x.1 := by
  unfold loggedHandleNewState handleNewState
  split
  · exact map_pure ..
  · apply fst_bind (fst_flush env x)
    intro x₁
    exact map_pure ..

private theorem fst_element (x : Logged) (el : Element) :
    Prod.fst <$> loggedElement env x el = processElement env x.1 el := by
  unfold loggedElement processElement
  rw [map_bind]
  apply bind_congr
  intro _
  apply fst_bind (fst_handleNewState env _ x)
  intro x₁
  rw [map_bind]
  simp

private theorem fst_elements (els : List Element) (x : Logged) :
    Prod.fst <$> els.foldlM (loggedElement env) x = els.foldlM (processElement env) x.1 := by
  induction els generalizing x with
  | nil => exact map_pure ..
  | cons el els ih =>
      rw [List.foldlM_cons, List.foldlM_cons]
      exact fst_bind (fst_element env x el) ih

theorem fst_loggedDocument (doc : List Element) :
    Prod.fst <$> loggedDocument env doc = processDocument env doc := by
  unfold loggedDocument processDocument
  exact fst_bind (fst_elements env doc _) (fst_handleNewState env .finished)

end Erasure

/-- The buffers that belong to a state. -/
def Owns : HandlerState → Operation → ObjectType → Prop
  | .create t, op, t' => op = .create ∧ t' = t
  | .modify, op, _ => op = .modify
  | .delete t, op, t' => op = .delete ∧ t' = t
  | .initial, _, _ => False
  | .finished, _, _ => False

/-- Only the buffers of the current state are in use. -/
def OnlyOwn (st : Upload) : Prop := ∀ op t, buffer st op t ≠ [] → Owns st.state op t

def Call.elemsFor (c : Call) (op : Operation) (t : ObjectType) : List (Elem t) :=
  if h : c.op = op ∧ c.objType = t then h.2 ▸ c.elems else []

/-- What the process functions of one operation and type have been handed, call after call. -/
def handed (log : List Call) (op : Operation) (t : ObjectType) : List (Elem t) :=
  log.flatMap (fun c => c.elemsFor op t)

def recordsOf (els : List Element) (op : Operation) (t : ObjectType) : List (Elem t) :=
  elemsIn env t (els.filter (fun el => decide (el.op = op)))

/-- Each element of the list, once and in order, in the calls of its operation and type. -/
def Hands (log : List Call) (els : List Element) : Prop :=
  ∀ op t, handed log op t = recordsOf env els op t

section Logs

variable {env} {op : Operation} {t : ObjectType}

@[simp] private theorem elemsFor_self (elems : List (Elem t)) :
    (⟨op, t, elems⟩ : Call).elemsFor op t = elems := by
  simp [Call.elemsFor]

private theorem elemsFor_other {c : Call} (other : ¬(c.op = op ∧ c.objType = t)) :
    c.elemsFor op t = [] := by
  simp [Call.elemsFor, other]

private theorem handed_append (log log' : List Call) :
    handed (log ++ log') op t = handed log op t ++ handed log' op t :=
  List.flatMap_append

private theorem recordsOf_append (els els' : List Element) :
    recordsOf env (els ++ els') op t = recordsOf env els op t ++ recordsOf env els' op t := by
  rw [recordsOf, List.filter_append, elemsIn, List.filterMap_append]
  rfl

private theorem hands_nil : Hands env [] [] := fun _ _ => rfl

private theorem Hands.append {log log' : List Call} {els els' : List Element}
    (first : Hands env log els) (rest : Hands env log' els') :
    Hands env (log ++ log') (els ++ els') := by
  intro op t
  rw [handed_append, recordsOf_append, first op t, rest op t]

private theorem handed_single {st : Upload} {op' : Operation} {t' : ObjectType}
    (only : ∀ op t, buffer st op t ≠ [] → op = op' ∧ t = t') :
    handed [⟨op', t', buffer st op' t'⟩] op t = buffer st op t := by
  rw [handed, List.flatMap_singleton]
  by_cases same : op' = op ∧ t' = t
  · obtain ⟨rfl, rfl⟩ := same
    exact elemsFor_self _
  · rw [elemsFor_other same]
    by_contra used
    obtain ⟨rfl, rfl⟩ := only op t fun none => used none.symm
    exact same ⟨rfl, rfl⟩

end Logs

section Flushing

variable {env} {x y : Logged} {db db' : Db}

private theorem run_fst {p : DbProg Logged} (run : p.run db = .ok (y, db')) :
    (Prod.fst <$> p).run db = .ok (y.1, db') := by
  rw [map_eq_pure_bind, run_bind, run]
  rfl

private theorem run_logged {op : Operation} {t : ObjectType} {call : Upload → DbProg Upload}
    (run : (logged op t call x).run db = .ok (y, db')) :
    (call x.1).run db = .ok (y.1, db') ∧ y.2 = x.2 ++ [⟨op, t, buffer x.1 op t⟩] := by
  rw [logged, run_bind_eq_ok] at run
  obtain ⟨st, db₁, called, rest⟩ := run
  cases rest
  exact ⟨called, rfl⟩

private theorem buffer_processModify {st st' : Upload} {t t' : ObjectType}
    (run : (processModify env t st).run db = .ok (st', db')) (ne : t' ≠ t) :
    buffer st' .modify t' = buffer st .modify t' := by
  obtain ⟨es, box, modified, -, -, -, rfl⟩ := processModify_ok run
  show (Updater.modifyBuf _) = _
  rw [Upload.setUpdater_other _ _ ne]
  rfl

private theorem calls_modify (state : x.1.state = .modify) (own : OnlyOwn x.1)
    (run : (loggedFlush env x).run db = .ok (y, db')) :
    ∃ calls, y.2 = x.2 ++ calls ∧ ∀ op t, handed calls op t = buffer x.1 op t := by
  rw [loggedFlush, state] at run
  simp only [run_bind_eq_ok] at run
  obtain ⟨x₁, db₁, nodes, x₂, db₂, ways, relations⟩ := run
  obtain ⟨ran₁, log₁⟩ := run_logged nodes
  obtain ⟨ran₂, log₂⟩ := run_logged ways
  obtain ⟨-, log₃⟩ := run_logged relations
  have ways₁ : buffer x₁.1 .modify .way = buffer x.1 .modify .way :=
    buffer_processModify ran₁ (by decide)
  have relations₁ : buffer x₂.1 .modify .relation = buffer x.1 .modify .relation := by
    rw [buffer_processModify ran₂ (by decide), buffer_processModify ran₁ (by decide)]
  refine ⟨[⟨.modify, .node, buffer x.1 .modify .node⟩, ⟨.modify, .way, buffer x.1 .modify .way⟩,
    ⟨.modify, .relation, buffer x.1 .modify .relation⟩], ?_, ?_⟩
  · rw [log₃, log₂, log₁, ways₁, relations₁]
    simp
  · intro op t
    by_cases same : op = .modify
    · subst same
      cases t <;> simp [handed, Call.elemsFor]
    · have none : buffer x.1 op t = [] := by
        by_contra used
        have owned := own op t used
        rw [state] at owned
        exact same owned
      rw [none]
      simp [handed, Call.elemsFor, Ne.symm same]

private theorem calls_of_flush (own : OnlyOwn x.1)
    (run : (loggedFlush env x).run db = .ok (y, db')) :
    ∃ calls, y.2 = x.2 ++ calls ∧ ∀ op t, handed calls op t = buffer x.1 op t := by
  have nothing (free : ∀ op t, ¬Owns x.1.state op t) (same : y = x) :
      ∃ calls, y.2 = x.2 ++ calls ∧ ∀ op t, handed calls op t = buffer x.1 op t := by
    refine ⟨[], by rw [same, List.append_nil], fun op t => ?_⟩
    by_contra used
    exact free op t (own op t fun none => used none.symm)
  cases state : x.1.state with
  | initial =>
      rw [loggedFlush, state] at run
      cases run
      exact nothing (fun op t => by rw [state]; exact id) rfl
  | create t =>
      rw [loggedFlush, state] at run
      refine ⟨_, (run_logged run).2, fun op t' => handed_single fun op' t'' used => ?_⟩
      have owned := own op' t'' used
      rw [state] at owned
      exact owned
  | modify => exact calls_modify state own run
  | delete t =>
      rw [loggedFlush, state] at run
      refine ⟨_, (run_logged run).2, fun op t' => handed_single fun op' t'' used => ?_⟩
      have owned := own op' t'' used
      rw [state] at owned
      exact owned
  | finished =>
      rw [loggedFlush, state] at run
      cases run
      exact nothing (fun op t => by rw [state]; exact id) rfl

end Flushing

/-- Elements of one state and the calls of their flush. -/
private structure Group where
  els : List Element
  calls : List Call

private structure Group.Sound (g : Group) : Prop where
  uniform : ∀ a ∈ g.els, ∀ b ∈ g.els, Element.state a = Element.state b
  hands : Hands env g.calls g.els

/-- The flushed groups cover the elements of the list, and the log is their calls. -/
private structure Flushed (groups : List Group) (els : List Element) (log : List Call) : Prop where
  sound : ∀ g ∈ groups, g.Sound env
  elements : groups.flatMap Group.els = els
  calls : groups.flatMap Group.calls = log

/-- The elements so far: flushed groups, and elements that wait in the buffers. -/
private structure Waiting (els : List Element) (x : Logged) (groups : List Group)
    (done pending : List Element) (st₁ : Upload) : Prop where
  split : els = done ++ pending
  flushed : Flushed env groups done x.2
  idle : Idle st₁
  pushes : pushAll env pending { st₁ with state := x.1.state } = .ok x.1
  uniform : ∀ el ∈ pending, Element.state el = x.1.state
  changeset : ∀ el ∈ pending, el.object.changeset = env.changeset
  resting : pending = [] → x.1.state = .initial

section Groups

variable {env}

private theorem Flushed.hands {groups : List Group} {els : List Element} {log : List Call}
    (flushed : Flushed env groups els log) : Hands env log els := by
  obtain ⟨sound, rfl, rfl⟩ := flushed
  induction groups with
  | nil => exact hands_nil
  | cons g groups ih =>
      have rest := ih fun h member => sound h (List.mem_cons_of_mem g member)
      exact (sound g List.mem_cons_self).hands.append rest

private theorem Flushed.snoc {groups : List Group} {els : List Element} {log : List Call}
    {g : Group} (flushed : Flushed env groups els log) (sound : g.Sound env) :
    Flushed env (groups ++ [g]) (els ++ g.els) (log ++ g.calls) := by
  obtain ⟨before, rfl, rfl⟩ := flushed
  refine ⟨fun h member => ?_, by simp, by simp⟩
  rcases List.mem_append.mp member with earlier | last
  · exact before h earlier
  · rw [List.mem_singleton.mp last]
    exact sound

/-- Two elements of different states lie in different groups, so a cut between groups
separates them. -/
private theorem cut_between {groups : List Group} {pre mid post : List Element} {a b : Element}
    (sound : ∀ g ∈ groups, g.Sound env)
    (elements : groups.flatMap Group.els = pre ++ a :: (mid ++ b :: post))
    (differ : Element.state a ≠ Element.state b) :
    ∃ left right m₁ m₂, groups = left ++ right ∧ mid = m₁ ++ m₂ ∧
      left.flatMap Group.els = pre ++ a :: m₁ ∧ right.flatMap Group.els = m₂ ++ b :: post := by
  induction groups generalizing pre with
  | nil => simp at elements
  | cons g groups ih =>
      rw [List.flatMap_cons, List.append_eq_append_iff] at elements
      -- where the first group ends: before `a`, or after it and then before `b`
      have later {pre' : List Element} (same : pre = g.els ++ pre')
          (rest : groups.flatMap Group.els = pre' ++ a :: (mid ++ b :: post)) :
          ∃ left right m₁ m₂, g :: groups = left ++ right ∧ mid = m₁ ++ m₂ ∧
            left.flatMap Group.els = pre ++ a :: m₁ ∧
              right.flatMap Group.els = m₂ ++ b :: post := by
        obtain ⟨left, right, m₁, m₂, cut, split, before, after⟩ :=
          ih (fun h member => sound h (List.mem_cons_of_mem g member)) rest
        refine ⟨g :: left, right, m₁, m₂, by rw [cut, List.cons_append], split, ?_, after⟩
        rw [List.flatMap_cons, before, same, List.append_assoc]
      rcases elements with ⟨pre', same, rest⟩ | ⟨tail, same, rest⟩
      · exact later same rest
      · cases tail with
        | nil =>
            rw [List.append_nil] at same
            exact later (show pre = g.els ++ [] by rw [same, List.append_nil]) rest.symm
        | cons a' tail =>
            rw [List.cons_append] at rest
            obtain ⟨rfl, inner⟩ := List.cons.inj rest
            rcases List.append_eq_append_iff.mp inner with ⟨tail', split, after⟩ | ⟨m₂, split, after⟩
            · -- `b` would lie in the group of `a`
              cases tail' with
              | nil =>
                  rw [List.append_nil] at split
                  refine ⟨[g], groups, mid, [], rfl, by simp, ?_, by simpa using after.symm⟩
                  rw [List.flatMap_singleton, same, split]
              | cons b' tail' =>
                  obtain ⟨rfl, -⟩ := List.cons.inj after
                  refine absurd ?_ differ
                  apply (sound g List.mem_cons_self).uniform
                  · rw [same]
                    simp
                  · rw [same, split]
                    simp
            · refine ⟨[g], groups, tail, m₂, rfl, split, ?_, after⟩
              rw [List.flatMap_singleton, same]

end Groups

section Steps

variable {env} {els done pending : List Element} {x y : Logged} {groups : List Group}
  {st₁ : Upload} {db db' : Db} {el : Element}

private theorem owns_state (el : Element) : Owns (Element.state el) el.op el.objType := by
  obtain ⟨op, t, object, ifUnused⟩ := el
  cases op <;> simp [Element.state, Owns]

private theorem Waiting.buffer_eq (waiting : Waiting env els x groups done pending st₁)
    (op : Operation) (t : ObjectType) : buffer x.1 op t = recordsOf env pending op t := by
  rw [(pushAll_pushed waiting.pushes).buffers]
  have none : buffer { st₁ with state := x.1.state } op t = [] := waiting.idle op t
  rw [none, List.nil_append]
  rfl

private theorem Waiting.own (waiting : Waiting env els x groups done pending st₁) :
    OnlyOwn x.1 := by
  intro op t used
  rw [waiting.buffer_eq] at used
  obtain ⟨e, member⟩ := List.exists_mem_of_ne_nil _ used
  obtain ⟨el, inside, record⟩ := List.mem_filterMap.mp member
  obtain ⟨here, same⟩ := List.mem_filter.mp inside
  have typed : el.objType = t := by
    by_contra other
    rw [elemOf?_other (Ne.symm other)] at record
    cases record
  have owned := owns_state el
  rw [waiting.uniform el here, of_decide_eq_true same, typed] at owned
  exact owned

private theorem Waiting.covers (waiting : Waiting env els x groups done pending st₁)
    (op : Operation) (t : ObjectType) :
    handed x.2 op t ++ buffer x.1 op t = recordsOf env els op t := by
  rw [waiting.split, recordsOf_append, waiting.flushed.hands op t, waiting.buffer_eq]

private theorem Waiting.flush (waiting : Waiting env els x groups done pending st₁)
    (run : (loggedFlush env x).run db = .ok (y, db')) :
    ∃ groups', Flushed env groups' els y.2 ∧ Idle y.1 := by
  obtain ⟨calls, log, hands⟩ := calls_of_flush waiting.own run
  have ran := run_fst run
  rw [fst_flush] at ran
  have sound : Group.Sound env ⟨pending, calls⟩ := by
    refine ⟨fun a first b second => ?_, fun op t => ?_⟩
    · rw [waiting.uniform a first, waiting.uniform b second]
    · rw [hands, waiting.buffer_eq]
  refine ⟨groups ++ [⟨pending, calls⟩], ?_, ?_⟩
  · rw [waiting.split, log]
    exact waiting.flushed.snoc sound
  · by_cases empty : pending = []
    · have initial := waiting.resting empty
      subst empty
      rw [Handler.flush, initial] at ran
      have same : y.1 = x.1 := (Prod.mk.inj (Except.ok.inj ran)).1.symm
      intro op t
      rw [same]
      exact waiting.buffer_eq op t
    · have executes : Batch.Executes env st₁ ⟨pending, x.1, y.1, db, db'⟩ :=
        ⟨empty, waiting.uniform, waiting.changeset, waiting.pushes, ran⟩
      exact (executes.settled waiting.idle).2.1

private theorem Waiting.step (waiting : Waiting env els x groups done pending st₁)
    (run : (loggedElement env x el).run db = .ok (y, db')) :
    ∃ groups' done' pending' st₂, Waiting env (els ++ [el]) y groups' done' pending' st₂ := by
  rw [loggedElement, run_bind_eq_ok] at run
  obtain ⟨_, db₁, check, run⟩ := run
  obtain ⟨checked, rfl⟩ := run_liftExcept_eq_ok.mp check
  have own := checkOsmObject_ok checked
  rw [run_bind_eq_ok] at run
  obtain ⟨x₁, db₂, handled, rest⟩ := run
  rw [run_bind_eq_ok] at rest
  obtain ⟨st, db₃, last, ends⟩ := rest
  obtain ⟨pushed, rfl⟩ := run_liftExcept_eq_ok.mp last
  cases ends
  have keeps := push_state pushed
  unfold loggedHandleNewState at handled
  split at handled
  · -- the state stays, so one more element waits
    rename_i same
    cases handled
    refine ⟨groups, done, pending ++ [el], st₁, ?_, waiting.flushed, waiting.idle, ?_, ?_, ?_, ?_⟩
    · rw [waiting.split, List.append_assoc]
    · rw [keeps]
      exact pushAll_snoc waiting.pushes pushed
    · intro d member
      rw [keeps]
      rcases List.mem_append.mp member with before | here
      · exact waiting.uniform d before
      · rw [List.mem_singleton.mp here]
        exact same
    · intro d member
      rcases List.mem_append.mp member with before | here
      · exact waiting.changeset d before
      · rw [List.mem_singleton.mp here]
        exact own
    · intro empty
      simp at empty
  · -- the state changes, so the element waits alone
    rw [run_bind_eq_ok] at handled
    obtain ⟨x₂, db₄, flushed, rest⟩ := handled
    cases rest
    obtain ⟨groups', flushed', idle⟩ := waiting.flush flushed
    refine ⟨groups', els, [el], x₂.1, rfl, flushed', idle, ?_, ?_, ?_, ?_⟩
    · rw [keeps]
      exact pushAll_snoc (show pushAll env [] _ = .ok _ from rfl) pushed
    · intro d member
      rw [List.mem_singleton.mp member, keeps]
    · intro d member
      rw [List.mem_singleton.mp member]
      exact own
    · intro empty
      cases empty

private theorem waiting_of_elements
    (run : (els.foldlM (loggedElement env) (Upload.empty env, [])).run db = .ok (x, db')) :
    ∃ groups done pending st₁, Waiting env els x groups done pending st₁ := by
  have start : ∃ groups done pending st₁,
      Waiting env [] (Upload.empty env, []) groups done pending st₁ :=
    ⟨[], [], [], Upload.empty env, rfl, ⟨by simp, rfl, rfl⟩, idle_empty env, rfl, by simp,
      by simp, fun _ => rfl⟩
  have all := run_foldlM_invariant
    (fun els x (_ : Db) => ∃ groups done pending st₁, Waiting env els x groups done pending st₁)
    els ?_ start run
  · simpa using all
  · rintro done el - x₁ db₁ x₂ db₂ ⟨groups, before, pending, st₁, waiting⟩ step
    exact waiting.step step

end Steps

/-- The elements that have been handed over and those that wait are the elements so far. -/
structure Accounted (els : List Element) (x : Logged) : Prop where
  own : OnlyOwn x.1
  covers : ∀ op t, handed x.2 op t ++ buffer x.1 op t = recordsOf env els op t

/-- A finished document: nothing waits, each element is handed over once, in its calls and in
order, and of two elements in different states the later one only after the earlier one. -/
structure Completed (doc : List Element) (x : Logged) : Prop where
  idle : Idle x.1
  hands : Hands env x.2 doc
  order : ∀ pre a mid b post, doc = pre ++ a :: (mid ++ b :: post) →
    Element.state a ≠ Element.state b → ∃ log₁ log₂ m₁ m₂, x.2 = log₁ ++ log₂ ∧ mid = m₁ ++ m₂ ∧
      Hands env log₁ (pre ++ a :: m₁) ∧ Hands env log₂ (m₂ ++ b :: post)

private theorem completed_of_document {doc : List Element} {x : Logged} {db db' : Db}
    (run : (loggedDocument env doc).run db = .ok (x, db')) : Completed env doc x := by
  rw [loggedDocument, run_bind_eq_ok] at run
  obtain ⟨x₁, db₁, elements, finish⟩ := run
  obtain ⟨groups, done, pending, st₁, waiting⟩ := waiting_of_elements elements
  unfold loggedHandleNewState at finish
  have unfinished : HandlerState.finished ≠ x₁.1.state := by
    by_cases empty : pending = []
    · rw [waiting.resting empty]
      decide
    · obtain ⟨el, member⟩ := List.exists_mem_of_ne_nil _ empty
      rw [← waiting.uniform el member, Element.state]
      split <;> exact HandlerState.noConfusion
  rw [if_neg unfinished, run_bind_eq_ok] at finish
  obtain ⟨x₂, db₂, flushed, rest⟩ := finish
  cases rest
  obtain ⟨groups', covered, idle⟩ := waiting.flush flushed
  refine ⟨idle, covered.hands, fun pre a mid b post split differ => ?_⟩
  obtain ⟨left, right, m₁, m₂, cut, mids, before, after⟩ :=
    cut_between covered.sound (covered.elements.trans split) differ
  have sound := covered.sound
  rw [cut] at sound
  refine ⟨left.flatMap Group.calls, right.flatMap Group.calls, m₁, m₂, ?_, mids, ?_, ?_⟩
  · rw [← List.flatMap_append, ← cut]
    exact covered.calls.symm
  · exact Flushed.hands ⟨fun g member => sound g (List.mem_append_left _ member), before, rfl⟩
  · exact Flushed.hands ⟨fun g member => sound g (List.mem_append_right _ member), after, rfl⟩

/-- In every reachable state only the buffers of the current state are in use, and at the end
every element has been handed over once, in order and after the elements of earlier states. -/
theorem handler_batches :
    (∀ (els : List Element) (x : Logged),
      Prod.fst <$> els.foldlM (loggedElement env) x = els.foldlM (processElement env) x.1) ∧
    (∀ doc, Prod.fst <$> loggedDocument env doc = processDocument env doc) ∧
    (∀ (els : List Element) (db : Db) (x : Logged) (db' : Db),
      (els.foldlM (loggedElement env) (Upload.empty env, [])).run db = .ok (x, db') →
      Accounted env els x) ∧
    ∀ doc db x db', (loggedDocument env doc).run db = .ok (x, db') → Completed env doc x := by
  refine ⟨fst_elements env, fst_loggedDocument env, fun els db x db' run => ?_,
    fun doc db x db' run => completed_of_document env run⟩
  obtain ⟨groups, done, pending, st₁, waiting⟩ := waiting_of_elements run
  exact ⟨waiting.own, waiting.covers⟩

/-- The nodes of a document with five states are handed over and deleted in its order. -/
theorem handler_batches_sampleUse : ∃ x db',
    (loggedDocument sampleEnv (sampleUse false)).run Db.empty = .ok (x, db') ∧
      x.2.map (fun c => (c.op, c.objType)) = [(.create, .node), (.create, .way), (.delete, .node),
        (.modify, .node), (.modify, .way), (.modify, .relation), (.delete, .node)] ∧
      Completed sampleEnv (sampleUse false) x := by
  obtain ⟨x, db', run, calls⟩ := of_check (loggedDocument sampleEnv (sampleUse false)) Db.empty
    (fun x _ => decide (x.2.map (fun c => (c.op, c.objType)) = [(.create, .node), (.create, .way),
      (.delete, .node), (.modify, .node), (.modify, .way), (.modify, .relation), (.delete, .node)]))
    (by decide +kernel)
  exact ⟨x, db', run, of_decide_eq_true calls,
    (handler_batches sampleEnv).2.2.2 (sampleUse false) Db.empty x db' run⟩

end Cgimap.Osmchange.Batching
