/- path: Cgimap/Http/Workflow
   generality: I
   source: src/request.cpp, include/cgimap/request.hpp, include/cgimap/output_buffer.hpp
   digest: The workflow of a response: status and headers, then the body, then the end. -/

import Cgimap.Http.ProcessRequest

set_option autoImplicit false
set_option relaxedAutoImplicit false

namespace Cgimap.Http.Workflow

open Cgimap.Model.Types (Exception)
open Cgimap.Http.Requests
open Cgimap.Http.ProcessRequest (Response defaultHeaders)

inductive WorkflowStatus where
  | none
  | headers
  | body
  | finished
  deriving DecidableEq, Repr

namespace WorkflowStatus

def value : WorkflowStatus → Nat
  | .none => 0
  | .headers => 1
  | .body => 2
  | .finished => 3

theorem value_injective : Function.Injective value := by
  intro a b same
  cases a <;> cases b <;> simp only [value, reduceCtorEq] at same ⊢ <;> omega

instance linearOrder : LinearOrder WorkflowStatus := LinearOrder.lift' value value_injective

theorem lt_headers {s : WorkflowStatus} : s < .headers ↔ s = .none := by
  cases s <;> decide

theorem lt_body {s : WorkflowStatus} : s < .body ↔ s ≤ .headers := by
  cases s <;> decide

theorem headers_le_of_lt {s t : WorkflowStatus} (less : s < t) : .headers ≤ t := by
  cases t with
  | none => exact absurd less (by cases s <;> decide)
  | headers => decide
  | body => decide
  | finished => decide

theorem eq_headers_of_le {s : WorkflowStatus} (above : .headers ≤ s) (below : s < .body) :
    s = .headers := le_antisymm (lt_body.mp below) above

end WorkflowStatus

open WorkflowStatus (lt_headers lt_body headers_le_of_lt eq_headers_of_le)

section Functions

/-- The calls that a request makes: of its virtual functions and of its buffer. -/
inductive Event where
  | writeHeaderInfo (status : Int) (headers : List (String × String))
  | getBufferInternal
  | write (bytes : Text)
  | flush
  | finishInternal
  deriving DecidableEq, Repr

/-- A `request`, with the calls that it has made since its last `reset`. -/
structure Request where
  workflowStatus : WorkflowStatus
  status : Int
  headers : List (String × String)
  successHeaders : List (String × String)
  methods : List Method
  events : List Event
  deriving DecidableEq, Repr

/-- What implements the virtual functions and the buffer. Each answer may depend on all
calls so far; the functions of the buffer are `noexcept`. -/
structure OutputSystem where
  throws : List Event → Option Exception
  returns : List Event → Int

/-- A member function of `request`. What it did before a `throw` stays done. -/
abbrev Member := EStateM Exception Request

def note (e : Event) : Member Unit := modify fun r => { r with events := r.events ++ [e] }

def setWorkflowStatus (stage : WorkflowStatus) : Member Unit :=
  modify fun r => { r with workflowStatus := stage }

variable (req : HttpRequest) (output : OutputSystem)

def callVirtual (e : Event) : Member Unit := do
  note e
  match output.throws (← get).events with
  | some exception => throw exception
  | none => pure ()

def callBuffer (e : Event) : Member Int := do
  note e
  return output.returns (← get).events

/-- `add_header`, by way of the check that it makes. -/
def addHeaderAfter (check : WorkflowStatus → Member Unit) (key value : String) : Member Unit := do
  check .headers
  modify fun r => { r with headers := r.headers ++ [(key, value)] }

def setDefaultHeaders (addHeader : String → String → Member Unit) : Member Unit := do
  match req.param "HTTP_ORIGIN" with
  | some origin =>
      addHeader "Access-Control-Allow-Credentials" "true"
      addHeader "Access-Control-Allow-Methods" (listMethods (← get).methods)
      addHeader "Access-Control-Allow-Origin" origin
      addHeader "Access-Control-Max-Age" "1728000"
  | none => pure ()

/-- The headers that go to `write_header_info`. -/
def outgoingHeaders (r : Request) : List (String × String) :=
  r.headers ++ (if r.status = 200 then r.successHeaders else [])

def backwards (now thisStage : WorkflowStatus) : Exception :=
  .std s!"Can't move backwards in the request workflow from {now.value} to {thisStage.value}."

/-- `check_workflow`. The default headers are added by calls that check the workflow
again; `depth` bounds how deep these checks are nested. -/
def checkWorkflow : Nat → WorkflowStatus → Member Unit
  | 0, _ => throw .outOfFuel
  | depth + 1, thisStage => do
      if (← get).workflowStatus < thisStage then
        if (← get).workflowStatus < .headers ∧ .headers ≤ thisStage then
          setWorkflowStatus .headers
          setDefaultHeaders req (addHeaderAfter (checkWorkflow depth))
        if (← get).workflowStatus < .body ∧ .body ≤ thisStage then
          setWorkflowStatus .body
          let r ← get
          callVirtual output (.writeHeaderInfo r.status (outgoingHeaders r))
        setWorkflowStatus thisStage
      else if thisStage < (← get).workflowStatus then
        throw (backwards (← get).workflowStatus thisStage)

variable (depth : Nat)

def setDefaultMethods (methods : List Method) : Member Unit :=
  modify fun r => { r with methods := methods }

def status (code : Int) : Member Unit := do
  checkWorkflow req output depth .headers
  modify fun r => { r with status := code }

def addHeader (key value : String) : Member Unit :=
  addHeaderAfter (checkWorkflow req output depth) key value

def addSuccessHeader (key value : String) : Member Unit := do
  checkWorkflow req output depth .headers
  modify fun r => { r with successHeaders := r.successHeaders ++ [(key, value)] }

def getBuffer : Member Unit := do
  checkWorkflow req output depth .body
  callVirtual output .getBufferInternal

def put (bytes : Text) : Member Int := do
  getBuffer req output depth
  callBuffer output (.write bytes)

def flush : Member Int := do
  getBuffer req output depth
  callBuffer output .flush

def finish : Member Unit := do
  checkWorkflow req output depth .finished
  callVirtual output .finishInternal

def reset (r : Request) : Request :=
  { r with
    workflowStatus := .none, status := 500, headers := [], successHeaders := []
    methods := [.get, .head, .options], events := [] }

end Functions

section Runs

/-- The calls that can be made on a request between two resets. -/
inductive Call where
  | setDefaultMethods (methods : List Method)
  | status (code : Int)
  | addHeader (key value : String)
  | addSuccessHeader (key value : String)
  | getBuffer
  | put (bytes : Text)
  | flush
  | finish
  deriving DecidableEq, Repr

variable (req : HttpRequest) (output : OutputSystem) (depth : Nat)

def perform : Call → Member Unit
  | .setDefaultMethods methods => setDefaultMethods methods
  | .status code => status req output depth code
  | .addHeader key value => addHeader req output depth key value
  | .addSuccessHeader key value => addSuccessHeader req output depth key value
  | .getBuffer => getBuffer req output depth
  | .put bytes => discard (put req output depth bytes)
  | .flush => discard (flush req output depth)
  | .finish => finish req output depth

/-- The request that a call leaves, be it by `return` or by `throw`. -/
def leaves {α : Type} : EStateM.Result Exception Request α → Request
  | .ok _ r => r
  | .error _ r => r

def step (r : Request) (c : Call) : Request := leaves ((perform req output depth c).run r)

/-- Calls one after the other, also behind one that threw. -/
def run (r : Request) (calls : List Call) : Request := calls.foldl (step req output depth) r

end Runs

section Check

variable (req : HttpRequest) (output : OutputSystem)

/-- The stage of the headers begins with the default headers. -/
def enterHeaders (r : Request) : Request :=
  { r with workflowStatus := .headers, headers := r.headers ++ defaultHeaders req r.methods }

def prepare (r : Request) : Request :=
  if r.workflowStatus = .none then enterHeaders req r else r

/-- The stage of the body begins with `write_header_info`. -/
def enterBody (r : Request) : Request :=
  { r with
    workflowStatus := .body
    events := r.events ++ [.writeHeaderInfo r.status (outgoingHeaders r)] }

/-- All that `check_workflow` can do. -/
inductive Checked (thisStage : WorkflowStatus) (r : Request) :
    EStateM.Result Exception Request Unit → Prop where
  | refused (behind : thisStage < r.workflowStatus) :
      Checked thisStage r (.error (backwards r.workflowStatus thisStage) r)
  | prepared (early : r.workflowStatus ≤ .headers) (here : thisStage = .headers) :
      Checked thisStage r (.ok () (prepare req r))
  | failed (early : r.workflowStatus < .body) (later : .body ≤ thisStage) (e : Exception)
      (throws : output.throws (enterBody (prepare req r)).events = some e) :
      Checked thisStage r (.error e (enterBody (prepare req r)))
  | announced (early : r.workflowStatus < .body) (later : .body ≤ thisStage) :
      Checked thisStage r (.ok () { enterBody (prepare req r) with workflowStatus := thisStage })
  | moved (started : .body ≤ r.workflowStatus) (onwards : r.workflowStatus ≤ thisStage) :
      Checked thisStage r (.ok () { r with workflowStatus := thisStage })

variable {req output} {depth : Nat} {r : Request} {thisStage : WorkflowStatus}

private theorem checkWorkflow_here (here : r.workflowStatus = thisStage) :
    (checkWorkflow req output (depth + 1) thisStage).run r = .ok () r := by
  rw [checkWorkflow]
  simp only [EStateM.run_bind, EStateM.run_get, here, lt_irrefl, if_false, EStateM.run_pure]

private theorem checkWorkflow_back (behind : thisStage < r.workflowStatus) :
    (checkWorkflow req output (depth + 1) thisStage).run r =
      .error (backwards r.workflowStatus thisStage) r := by
  rw [checkWorkflow]
  simp only [EStateM.run_bind, EStateM.run_get, if_neg (lt_asymm behind), if_pos behind]
  rfl

private theorem addHeaderAfter_run (stage : r.workflowStatus = .headers) (key value : String) :
    (addHeaderAfter (checkWorkflow req output (depth + 1)) key value).run r =
      .ok () { r with headers := r.headers ++ [(key, value)] } := by
  rw [addHeaderAfter, EStateM.run_bind, checkWorkflow_here stage]
  rfl

private theorem setDefaultHeaders_run (req : HttpRequest) (output : OutputSystem) (depth : Nat)
    (stage : r.workflowStatus = .headers) :
    (setDefaultHeaders req (addHeaderAfter (checkWorkflow req output (depth + 1)))).run r =
      .ok () { r with headers := r.headers ++ defaultHeaders req r.methods } := by
  unfold setDefaultHeaders defaultHeaders
  cases req.param "HTTP_ORIGIN" with
  | none => simp only [List.append_nil, EStateM.run_pure]
  | some origin =>
      simp only [EStateM.run_bind, EStateM.run_get, addHeaderAfter_run, stage, List.append_assoc,
        List.cons_append, List.nil_append]

private theorem callVirtual_throws {e : Event} {exception : Exception}
    (throws : output.throws (r.events ++ [e]) = some exception) :
    (callVirtual output e).run r = .error exception { r with events := r.events ++ [e] } := by
  simp only [callVirtual, note, EStateM.run_bind, EStateM.run_modify, EStateM.run_get, throws]
  rfl

private theorem callVirtual_returns {e : Event} (returns : output.throws (r.events ++ [e]) = none) :
    (callVirtual output e).run r = .ok () { r with events := r.events ++ [e] } := by
  simp only [callVirtual, note, EStateM.run_bind, EStateM.run_modify, EStateM.run_get, returns]
  rfl

/-- The second half of `check_workflow`. -/
private def enterStage (output : OutputSystem) (thisStage : WorkflowStatus) : Member Unit := do
  if (← get).workflowStatus < .body ∧ .body ≤ thisStage then
    setWorkflowStatus .body
    let r ← get
    callVirtual output (.writeHeaderInfo r.status (outgoingHeaders r))
  setWorkflowStatus thisStage

private theorem checkWorkflow_ahead (ahead : r.workflowStatus < thisStage) :
    (checkWorkflow req output (depth + 2) thisStage).run r =
      (enterStage output thisStage).run (prepare req r) := by
  rw [checkWorkflow, enterStage]
  simp only [EStateM.run_bind, EStateM.run_get, if_pos ahead]
  by_cases fresh : r.workflowStatus = .none
  · have enters : r.workflowStatus < .headers ∧ .headers ≤ thisStage :=
      ⟨lt_headers.mpr fresh, headers_le_of_lt ahead⟩
    have defaults := setDefaultHeaders_run req output depth
      (r := { r with workflowStatus := .headers }) rfl
    rw [if_pos enters, prepare, if_pos fresh]
    simp only [EStateM.run_bind, EStateM.run_get, setWorkflowStatus, EStateM.run_modify, defaults]
    rfl
  · have entered : ¬ (r.workflowStatus < .headers ∧ .headers ≤ thisStage) :=
      fun enters => fresh (lt_headers.mp enters.1)
    rw [if_neg entered, prepare, if_neg fresh]
    simp only [EStateM.run_bind, EStateM.run_get]

private theorem prepare_entered (entered : .headers ≤ r.workflowStatus) : prepare req r = r :=
  if_neg fun fresh => absurd entered (not_le_of_gt (lt_headers.mpr fresh))

private theorem prepare_lt_body :
    (prepare req r).workflowStatus < .body ↔ r.workflowStatus < .body := by
  rw [prepare]
  split
  · rename_i fresh
    rw [fresh]
    exact iff_of_true (show WorkflowStatus.headers < .body by decide) (by decide)
  · rfl

private theorem enterStage_crosses (early : r.workflowStatus < .body) (later : .body ≤ thisStage) :
    (enterStage output thisStage).run r =
      (callVirtual output (.writeHeaderInfo r.status (outgoingHeaders r)) >>= fun _ =>
        setWorkflowStatus thisStage).run { r with workflowStatus := .body } := by
  rw [enterStage]
  simp only [EStateM.run_bind, EStateM.run_get, if_pos (And.intro early later), setWorkflowStatus,
    EStateM.run_modify]
  rfl

private theorem enterStage_stays (stays : ¬ (r.workflowStatus < .body ∧ .body ≤ thisStage)) :
    (enterStage output thisStage).run r = .ok () { r with workflowStatus := thisStage } := by
  rw [enterStage]
  simp only [EStateM.run_bind, EStateM.run_get, if_neg stays, setWorkflowStatus,
    EStateM.run_modify]

theorem checkWorkflow_checked (req : HttpRequest) (output : OutputSystem) (r : Request)
    (enough : 2 ≤ depth) (named : .headers ≤ thisStage) :
    Checked req output thisStage r ((checkWorkflow req output depth thisStage).run r) := by
  obtain ⟨depth, rfl⟩ := Nat.exists_eq_add_of_le' enough
  rcases lt_trichotomy r.workflowStatus thisStage with ahead | here | behind
  · rw [checkWorkflow_ahead ahead]
    rcases lt_or_ge r.workflowStatus .body with early | started
    · rcases lt_or_ge thisStage .body with sooner | later
      · have stage : thisStage = .headers := eq_headers_of_le named sooner
        have fresh : r.workflowStatus = .none := lt_headers.mp (stage ▸ ahead)
        have same : { prepare req r with workflowStatus := thisStage } = prepare req r := by
          rw [prepare, if_pos fresh, stage]
          rfl
        rw [enterStage_stays fun crosses => not_le_of_gt sooner crosses.2, same]
        exact .prepared (lt_body.mp early) stage
      · rw [enterStage_crosses (prepare_lt_body.mpr early) later, EStateM.run_bind]
        cases answer : output.throws (enterBody (prepare req r)).events with
        | none =>
            rw [callVirtual_returns (r := { prepare req r with workflowStatus := .body }) answer]
            exact .announced early later
        | some e =>
            rw [callVirtual_throws (r := { prepare req r with workflowStatus := .body }) answer]
            exact .failed early later e answer
    · have entered : .headers ≤ r.workflowStatus := le_trans (by decide) started
      rw [prepare_entered entered, enterStage_stays fun crosses => not_le_of_gt crosses.1 started]
      exact .moved started (le_of_lt ahead)
  · rw [checkWorkflow_here here]
    rcases lt_or_ge r.workflowStatus .body with early | started
    · have same : prepare req r = r := prepare_entered (here ▸ named)
      have done : Checked req output thisStage r _ :=
        .prepared (lt_body.mp early) (eq_headers_of_le named (here ▸ early))
      rwa [same] at done
    · rw [← here]
      exact .moved started (le_refl _)
  · rw [checkWorkflow_back behind]
    exact .refused behind

end Check

section Steps

namespace Call

/-- The stage that a call asks `check_workflow` for. -/
def stage : Call → Option WorkflowStatus
  | .setDefaultMethods _ => none
  | .status _ => some .headers
  | .addHeader _ _ => some .headers
  | .addSuccessHeader _ _ => some .headers
  | .getBuffer => some .body
  | .put _ => some .body
  | .flush => some .body
  | .finish => some .finished

def isOutput (c : Call) : Bool := c.stage.any (fun s => decide (.body ≤ s))

/-- What a call that does not write sets. -/
@[simp] def settle : Call → Request → Request
  | .setDefaultMethods methods, r => { r with methods := methods }
  | .status code, r => { r with status := code }
  | .addHeader key value, r => { r with headers := r.headers ++ [(key, value)] }
  | .addSuccessHeader key value, r =>
      { r with successHeaders := r.successHeaders ++ [(key, value)] }
  | _, r => r

/-- What a call does behind its check. -/
def act (output : OutputSystem) (c : Call) : Member Unit :=
  match c with
  | .getBuffer => callVirtual output .getBufferInternal
  | .put bytes => do
      callVirtual output .getBufferInternal
      discard (callBuffer output (.write bytes))
  | .flush => do
      callVirtual output .getBufferInternal
      discard (callBuffer output .flush)
  | .finish => callVirtual output .finishInternal
  | c => modify c.settle

end Call

def Event.isHeader : Event → Bool
  | .writeHeaderInfo _ _ => true
  | _ => false

/-- Calls without `write_header_info`. -/
def Quiet (events : List Event) : Prop := ∀ e ∈ events, e.isHeader = false

inductive Stepped (req : HttpRequest) (r : Request) (c : Call) : Request → Prop where
  | free (outside : c.stage = none) : Stepped req r c (c.settle r)
  | refused (s : WorkflowStatus) (named : c.stage = some s) (behind : s < r.workflowStatus) :
      Stepped req r c r
  | prepared (named : c.stage = some .headers) (early : r.workflowStatus ≤ .headers) :
      Stepped req r c (c.settle (prepare req r))
  | announced (writes : c.isOutput = true) (early : r.workflowStatus < .body) (s : WorkflowStatus)
      (later : .body ≤ s) (more : List Event) (quiet : Quiet more) :
      Stepped req r c { enterBody (prepare req r) with
        workflowStatus := s, events := (enterBody (prepare req r)).events ++ more }
  | moved (writes : c.isOutput = true) (started : .body ≤ r.workflowStatus) (s : WorkflowStatus)
      (onwards : r.workflowStatus ≤ s) (more : List Event) (quiet : Quiet more) :
      Stepped req r c { r with workflowStatus := s, events := r.events ++ more }

variable {req : HttpRequest} {output : OutputSystem} {depth : Nat} {r : Request} {c : Call}

private theorem perform_run {s : WorkflowStatus} (named : c.stage = some s) :
    (perform req output depth c).run r =
      (checkWorkflow req output depth s >>= fun _ => c.act output).run r := by
  cases c with
  | setDefaultMethods methods => cases named
  | status code => cases named; rfl
  | addHeader key value => cases named; rfl
  | addSuccessHeader key value => cases named; rfl
  | getBuffer => cases named; rfl
  | put bytes =>
      cases named
      simp only [perform, put, getBuffer, Call.act, Functor.discard, map_const, Function.comp,
        bind_assoc, map_bind]
  | flush =>
      cases named
      simp only [perform, flush, getBuffer, Call.act, Functor.discard, map_const, Function.comp,
        bind_assoc, map_bind]
  | finish => cases named; rfl

private theorem headers_le_stage {s : WorkflowStatus} (named : c.stage = some s) :
    .headers ≤ s := by
  cases c <;> cases named <;> decide

private theorem writes {s : WorkflowStatus} (named : c.stage = some s) (later : .body ≤ s) :
    c.isOutput = true := by
  rw [Call.isOutput, named]
  exact decide_eq_true later

private theorem isNone_stage (writes : c.isOutput = true) : c.stage.isNone = false := by
  cases c <;> first | rfl | cases writes

private theorem act_setup (reads : c.isOutput = false) :
    (c.act output).run r = .ok () (c.settle r) := by
  cases c with
  | setDefaultMethods methods => rfl
  | status code => rfl
  | addHeader key value => rfl
  | addSuccessHeader key value => rfl
  | getBuffer => cases reads
  | put bytes => cases reads
  | flush => cases reads
  | finish => cases reads

private theorem callVirtual_leaves (output : OutputSystem) (r : Request) (e : Event) :
    leaves ((callVirtual output e).run r) = { r with events := r.events ++ [e] } := by
  cases answer : output.throws (r.events ++ [e]) with
  | none => rw [callVirtual_returns answer]; rfl
  | some exception => rw [callVirtual_throws answer]; rfl

private theorem buffer_leaves (output : OutputSystem) (r : Request) (e e' : Event)
    (first : e.isHeader = false) (second : e'.isHeader = false) :
    ∃ more, Quiet more ∧ leaves ((callVirtual output e >>= fun _ =>
      discard (callBuffer output e')).run r) = { r with events := r.events ++ more } := by
  rw [EStateM.run_bind]
  cases answer : output.throws (r.events ++ [e]) with
  | none =>
      rw [callVirtual_returns answer]
      refine ⟨[e, e'], ?_, ?_⟩
      · intro f member
        rcases List.mem_cons.mp member with rfl | later
        · exact first
        · rw [List.mem_singleton.mp later]
          exact second
      · change ({ r with events := r.events ++ [e] ++ [e'] } : Request) = _
        rw [List.append_assoc]
        rfl
  | some exception =>
      rw [callVirtual_throws answer]
      exact ⟨[e], List.forall_mem_singleton.mpr first, rfl⟩

private theorem act_output (output : OutputSystem) (r : Request) (writes : c.isOutput = true) :
    ∃ more, Quiet more ∧
      leaves ((c.act output).run r) = { r with events := r.events ++ more } := by
  cases c with
  | setDefaultMethods methods => cases writes
  | status code => cases writes
  | addHeader key value => cases writes
  | addSuccessHeader key value => cases writes
  | getBuffer =>
      exact ⟨_, List.forall_mem_singleton.mpr rfl, callVirtual_leaves output r .getBufferInternal⟩
  | put bytes => exact buffer_leaves output r .getBufferInternal (.write bytes) rfl rfl
  | flush => exact buffer_leaves output r .getBufferInternal .flush rfl rfl
  | finish =>
      exact ⟨_, List.forall_mem_singleton.mpr rfl, callVirtual_leaves output r .finishInternal⟩

theorem step_stepped (enough : 2 ≤ depth) : Stepped req r c (step req output depth r c) := by
  cases named : c.stage with
  | none =>
      cases c with
      | setDefaultMethods methods => exact .free rfl
      | _ => cases named
  | some s =>
      have checked := checkWorkflow_checked req output r enough (headers_le_stage named)
      rw [step, perform_run named, EStateM.run_bind]
      generalize (checkWorkflow req output depth s).run r = result at checked
      cases checked with
      | refused behind => exact .refused s named behind
      | prepared early here =>
          rw [here] at named
          have reads : c.isOutput = false := by rw [Call.isOutput, named]; rfl
          change Stepped req r c (leaves ((c.act output).run (prepare req r)))
          rw [act_setup reads]
          exact .prepared named early
      | failed early later e throws =>
          have announced : Stepped req r c _ := .announced (writes named later) early .body
            (le_refl _) [] (List.forall_mem_nil _)
          rwa [List.append_nil] at announced
      | announced early later =>
          obtain ⟨more, quiet, left⟩ := act_output output
            { enterBody (prepare req r) with workflowStatus := s } (writes named later)
          change Stepped req r c (leaves ((c.act output).run _))
          rw [left]
          exact .announced (writes named later) early s later more quiet
      | moved started onwards =>
          have later := le_trans started onwards
          obtain ⟨more, quiet, left⟩ := act_output output { r with workflowStatus := s }
            (writes named later)
          change Stepped req r c (leaves ((c.act output).run _))
          rw [left]
          exact .moved (writes named later) started s onwards more quiet

end Steps

section Drafts

namespace Call

@[simp] def statusCode : Call → Option Int
  | .status code => some code
  | _ => none

@[simp] def header : Call → Option (String × String)
  | .addHeader key value => some (key, value)
  | _ => none

@[simp] def successHeader : Call → Option (String × String)
  | .addSuccessHeader key value => some (key, value)
  | _ => none

@[simp] def defaultMethods : Call → Option (List Method)
  | .setDefaultMethods methods => some methods
  | _ => none

end Call

/-- The status that the calls set last. -/
def lastStatus (calls : List Call) : Int := (calls.filterMap Call.statusCode).getLastD 500

def lastMethods (calls : List Call) : List Method :=
  (calls.filterMap Call.defaultMethods).getLastD [.get, .head, .options]

def outsideWorkflow (calls : List Call) : Bool := calls.all (fun c => c.stage.isNone)

def beforeWorkflow (calls : List Call) : List Call := calls.takeWhile (fun c => c.stage.isNone)

def beforeOutput (calls : List Call) : List Call := calls.takeWhile (fun c => !c.isOutput)

variable (req : HttpRequest)

/-- The call of `write_header_info` that the calls ask for. -/
def headerInfo (calls : List Call) : Event :=
  .writeHeaderInfo (lastStatus (beforeOutput calls))
    (defaultHeaders req (lastMethods (beforeWorkflow calls)) ++
      (beforeOutput calls).filterMap Call.header ++
      (if lastStatus (beforeOutput calls) = 200 then
        (beforeOutput calls).filterMap Call.successHeader else []))

/-- The request after a `reset` and calls none of which writes. -/
def drafted (calls : List Call) : Request where
  workflowStatus := if outsideWorkflow calls then .none else .headers
  status := lastStatus calls
  headers :=
    (if outsideWorkflow calls then []
      else defaultHeaders req (lastMethods (beforeWorkflow calls))) ++ calls.filterMap Call.header
  successHeaders := calls.filterMap Call.successHeader
  methods := lastMethods calls
  events := []

theorem drafted_nil (before : Request) : reset before = drafted req [] := rfl

variable {req} {calls : List Call} {c : Call}

private theorem takeWhile_concat_eq {p : Call → Bool} (stops : p c = false) :
    (calls ++ [c]).takeWhile p = calls.takeWhile p := by
  rw [List.takeWhile_append]
  split
  · rename_i whole
    rw [List.takeWhile_cons_of_neg (by rw [stops]; decide), List.append_nil]
    exact ((List.takeWhile_prefix p).eq_of_length whole).symm
  · rfl

private theorem takeWhile_append_eq {p : Call → Bool} (stops : ∃ d ∈ calls, p d = false)
    (more : List Call) : (calls ++ more).takeWhile p = calls.takeWhile p := by
  obtain ⟨d, member, refuses⟩ := stops
  rw [List.takeWhile_append, if_neg]
  intro whole
  have all := List.takeWhile_eq_self_iff.mp ((List.takeWhile_prefix p).eq_of_length whole)
  exact absurd (all d member) (by rw [refuses]; decide)

private theorem getLastD_filterMap_concat {β : Type} (f : Call → Option β) (calls : List Call)
    (c : Call) (default : β) :
    ((calls ++ [c]).filterMap f).getLastD default =
      (f c).getD ((calls.filterMap f).getLastD default) := by
  rw [List.filterMap_append]
  cases found : f c with
  | none => simp [found]
  | some b => simp [found]

private theorem lastStatus_concat (calls : List Call) (c : Call) :
    lastStatus (calls ++ [c]) = c.statusCode.getD (lastStatus calls) :=
  getLastD_filterMap_concat Call.statusCode calls c 500

private theorem lastMethods_concat (calls : List Call) (c : Call) :
    lastMethods (calls ++ [c]) = c.defaultMethods.getD (lastMethods calls) :=
  getLastD_filterMap_concat Call.defaultMethods calls c _

private theorem prepare_drafted (req : HttpRequest) (calls : List Call) :
    prepare req (drafted req calls) =
      { drafted req calls with
        workflowStatus := .headers
        headers := defaultHeaders req (lastMethods (beforeWorkflow calls)) ++
          calls.filterMap Call.header } := by
  by_cases fresh : outsideWorkflow calls = true
  · have stage : (drafted req calls).workflowStatus = .none := if_pos fresh
    have none : calls.filterMap Call.header = [] := by
      refine List.filterMap_eq_nil_iff.mpr fun c member => ?_
      have outside := List.all_eq_true.mp fresh c member
      cases c <;> first | rfl | cases outside
    have whole : beforeWorkflow calls = calls :=
      List.takeWhile_eq_self_iff.mpr (List.all_eq_true.mp fresh)
    rw [prepare, if_pos stage, enterHeaders]
    simp only [drafted, if_pos fresh, none, whole, List.nil_append, List.append_nil]
  · have stage : (drafted req calls).workflowStatus = .headers := if_neg fresh
    rw [prepare, if_neg (by rw [stage]; decide)]
    simp only [drafted, if_neg fresh]

private theorem drafted_free (req : HttpRequest) (calls : List Call) (outside : c.stage = none) :
    drafted req (calls ++ [c]) = c.settle (drafted req calls) := by
  cases c with
  | setDefaultMethods methods =>
      have free : outsideWorkflow (calls ++ [.setDefaultMethods methods]) =
          outsideWorkflow calls := by
        rw [outsideWorkflow, List.all_append]
        exact Bool.and_true _
      by_cases fresh : outsideWorkflow calls = true
      · simp [drafted, free, fresh, lastStatus_concat, lastMethods_concat]
      · have entered : ∃ d ∈ calls, d.stage.isNone = false := by
          rw [outsideWorkflow, List.all_eq_true] at fresh
          push Not at fresh
          exact fresh.imp fun d found => ⟨found.1, Bool.eq_false_of_not_eq_true found.2⟩
        have unchanged : beforeWorkflow (calls ++ [.setDefaultMethods methods]) =
            beforeWorkflow calls := takeWhile_append_eq entered _
        simp [drafted, free, unchanged, lastStatus_concat, lastMethods_concat]
  | _ => cases outside

private theorem drafted_headers (req : HttpRequest) (calls : List Call)
    (named : c.stage = some .headers) :
    drafted req (calls ++ [c]) = c.settle (prepare req (drafted req calls)) := by
  have entered : outsideWorkflow (calls ++ [c]) = false := by
    rw [outsideWorkflow, List.all_append, List.all_cons, named]
    exact Bool.and_false _
  have unchanged : beforeWorkflow (calls ++ [c]) = beforeWorkflow calls :=
    takeWhile_concat_eq (by rw [named]; rfl)
  rw [prepare_drafted]
  simp only [drafted, entered, unchanged, lastStatus_concat, lastMethods_concat,
    List.filterMap_append]
  cases c with
  | status code => simp
  | addHeader key value => simp
  | addSuccessHeader key value => simp
  | _ => cases named

private theorem enterBody_drafted (req : HttpRequest) (silent : ∀ d ∈ calls, d.isOutput = false)
    (writes : c.isOutput = true) :
    (enterBody (prepare req (drafted req calls))).events = [headerInfo req (calls ++ [c])] := by
  have whole : beforeOutput (calls ++ [c]) = calls := by
    rw [beforeOutput, takeWhile_concat_eq (by rw [writes]; rfl)]
    exact List.takeWhile_eq_self_iff.mpr fun d member => by rw [silent d member]; rfl
  have unchanged : beforeWorkflow (calls ++ [c]) = beforeWorkflow calls :=
    takeWhile_concat_eq (isNone_stage writes)
  rw [prepare_drafted, headerInfo, whole, unchanged]
  rfl

end Drafts

section Workflow

/-- What calls after a `reset` lead to, from these calls alone. -/
inductive Reached (req : HttpRequest) (calls : List Call) (r : Request) : Prop where
  | drafting (silent : ∀ d ∈ calls, d.isOutput = false) (same : r = drafted req calls)
  | written (writes : ∃ d ∈ calls, d.isOutput = true) (started : .body ≤ r.workflowStatus)
      (rest : List Event) (quiet : Quiet rest) (same : r.events = headerInfo req calls :: rest)

variable {req : HttpRequest} {calls : List Call} {c : Call} {r r' : Request}

private theorem headerInfo_append (req : HttpRequest)
    (writes : ∃ d ∈ calls, d.isOutput = true) (more : List Call) :
    headerInfo req (calls ++ more) = headerInfo req calls := by
  obtain ⟨d, member, output⟩ := writes
  have set : beforeOutput (calls ++ more) = beforeOutput calls :=
    takeWhile_append_eq ⟨d, member, by rw [output]; rfl⟩ more
  have outside : beforeWorkflow (calls ++ more) = beforeWorkflow calls :=
    takeWhile_append_eq ⟨d, member, isNone_stage output⟩ more
  rw [headerInfo, headerInfo, set, outside]

private theorem settle_workflowStatus (c : Call) (r : Request) :
    (c.settle r).workflowStatus = r.workflowStatus := by
  cases c <;> rfl

private theorem settle_events (c : Call) (r : Request) : (c.settle r).events = r.events := by
  cases c <;> rfl

private theorem drafted_le (req : HttpRequest) (calls : List Call) :
    (drafted req calls).workflowStatus ≤ .headers := by
  by_cases fresh : outsideWorkflow calls = true
  · have stage : (drafted req calls).workflowStatus = .none := if_pos fresh
    rw [stage]
    decide
  · have stage : (drafted req calls).workflowStatus = .headers := if_neg fresh
    rw [stage]

private theorem silent_concat (silent : ∀ d ∈ calls, d.isOutput = false)
    (reads : c.isOutput = false) : ∀ d ∈ calls ++ [c], d.isOutput = false := by
  intro d member
  rcases List.mem_append.mp member with earlier | last
  · exact silent d earlier
  · rw [List.mem_singleton.mp last]
    exact reads

theorem Reached.step (reached : Reached req calls r) (stepped : Stepped req r c r') :
    Reached req (calls ++ [c]) r' := by
  cases reached with
  | drafting silent same =>
      subst same
      have early := drafted_le req calls
      cases stepped with
      | free outside =>
          have reads : c.isOutput = false := by rw [Call.isOutput, outside]; rfl
          exact .drafting (silent_concat silent reads) (drafted_free req calls outside).symm
      | refused s named behind =>
          exact absurd (lt_of_lt_of_le behind early) (not_lt_of_ge (headers_le_stage named))
      | prepared named early =>
          have reads : c.isOutput = false := by rw [Call.isOutput, named]; rfl
          exact .drafting (silent_concat silent reads) (drafted_headers req calls named).symm
      | announced writes early s later more quiet =>
          refine .written ⟨c, by simp, writes⟩ later more quiet ?_
          change (enterBody (prepare req (drafted req calls))).events ++ more = _
          rw [enterBody_drafted req silent writes]
          rfl
      | moved writes started s onwards more quiet =>
          exact absurd (le_trans started early) (by decide)
  | written writes started rest quiet same =>
      have kept : ∃ d ∈ calls ++ [c], d.isOutput = true :=
        writes.imp fun d found => ⟨List.mem_append_left [c] found.1, found.2⟩
      have unchanged := headerInfo_append req writes [c]
      cases stepped with
      | free outside =>
          refine .written kept ?_ rest quiet ?_
          · rwa [settle_workflowStatus]
          · rw [settle_events, same, unchanged]
      | refused s named behind => exact .written kept started rest quiet (by rw [same, unchanged])
      | prepared named early => exact absurd (le_trans started early) (by decide)
      | announced writes early s later more quiet' => exact absurd early (not_lt_of_ge started)
      | moved writes started' s onwards more quiet' =>
          refine .written kept (le_trans started onwards) (rest ++ more) ?_ ?_
          · exact fun e member => (List.mem_append.mp member).elim (quiet e) (quiet' e)
          · change r.events ++ more = _
            rw [same, unchanged]
            rfl

theorem Stepped.le (stepped : Stepped req r c r') : r.workflowStatus ≤ r'.workflowStatus := by
  cases stepped with
  | free outside => rw [settle_workflowStatus]
  | refused s named behind => exact le_refl _
  | prepared named early =>
      rw [settle_workflowStatus, prepare]
      split
      · exact early
      · exact le_refl _
  | announced writes early s later more quiet => exact le_trans (le_of_lt early) later
  | moved writes started s onwards more quiet => exact onwards

variable {output : OutputSystem} {depth : Nat}

theorem run_reached (req : HttpRequest) (output : OutputSystem) (enough : 2 ≤ depth)
    (before : Request) (calls : List Call) :
    Reached req calls (run req output depth (reset before) calls) := by
  induction calls using List.reverseRecOn with
  | nil => exact .drafting (List.forall_mem_nil _) (drafted_nil req before)
  | append_singleton calls c ih =>
      rw [run, List.foldl_concat]
      exact ih.step (step_stepped enough)

theorem run_le (req : HttpRequest) (output : OutputSystem) (enough : 2 ≤ depth) (r : Request)
    (calls : List Call) :
    r.workflowStatus ≤ (run req output depth r calls).workflowStatus := by
  induction calls generalizing r with
  | nil => exact le_refl _
  | cons c calls ih =>
      have first : Stepped req r c (step req output depth r c) := step_stepped enough
      exact le_trans first.le (ih (step req output depth r c))

theorem perform_back {s : WorkflowStatus} (enough : 0 < depth) (named : c.stage = some s)
    (behind : s < r.workflowStatus) :
    (perform req output depth c).run r = .error (backwards r.workflowStatus s) r := by
  obtain ⟨depth, rfl⟩ := Nat.exists_eq_add_of_le' enough
  rw [perform_run named, EStateM.run_bind, checkWorkflow_back behind]

/-- For all calls between two resets: `write_header_info` is called by the first call that
writes and by no other, with what the calls before it set; the stage never decreases; and
a call that would decrease it throws and changes nothing. -/
theorem workflow_exact (req : HttpRequest) (output : OutputSystem) (enough : 2 ≤ depth)
    (before : Request) (calls : List Call) :
    ((∀ c ∈ calls, c.isOutput = false) →
      (run req output depth (reset before) calls).events = []) ∧
    ((∃ c ∈ calls, c.isOutput = true) → ∃ rest, Quiet rest ∧
      (run req output depth (reset before) calls).events = headerInfo req calls :: rest) ∧
    (∀ more, (run req output depth (reset before) calls).workflowStatus ≤
      (run req output depth (reset before) (calls ++ more)).workflowStatus) ∧
    ∀ c s, c.stage = some s → s < (run req output depth (reset before) calls).workflowStatus →
      (perform req output depth c).run (run req output depth (reset before) calls) =
        .error (backwards (run req output depth (reset before) calls).workflowStatus s)
          (run req output depth (reset before) calls) := by
  have reached := run_reached req output enough before calls
  refine ⟨fun silent => ?_, fun writes => ?_, fun more => ?_, fun c s named behind => ?_⟩
  · cases reached with
    | drafting _ same => rw [same]; rfl
    | written writes =>
        obtain ⟨d, member, output⟩ := writes
        exact absurd (silent d member) (by rw [output]; decide)
  · cases reached with
    | drafting silent =>
        obtain ⟨d, member, output⟩ := writes
        exact absurd (silent d member) (by rw [output]; decide)
    | written _ _ rest quiet same => exact ⟨rest, quiet, same⟩
  · have later := run_le req output enough
      (run req output depth (reset before) calls) more
    rwa [run, run, ← List.foldl_append] at later
  · exact perform_back (Nat.lt_of_lt_of_le Nat.zero_lt_two enough) named behind

/-- A request from another site, with an output system that never fails. -/
def sampleOrigin : HttpRequest where
  param name := if name = "HTTP_ORIGIN" then some "https://localhost" else none
  now := 0
  payload := .error (.badRequest "")

def sampleOutput : OutputSystem := ⟨fun _ => none, fun _ => 0⟩

def sampleLeft : Request := ⟨.finished, 404, [("Error", "")], [], [.put, .options], [.flush]⟩

def sampleCalls : List Call :=
  [.addSuccessHeader "Content-Disposition" "attachment", .status 200,
    .addHeader "Content-Type" "text/plain", .put ['o', 'k'], .status 404, .finish]

theorem workflow_exact_sampleCalls :
    (∃ rest, Quiet rest ∧
      (run sampleOrigin sampleOutput 2 (reset sampleLeft) sampleCalls).events =
        .writeHeaderInfo 200 [("Access-Control-Allow-Credentials", "true"),
          ("Access-Control-Allow-Methods", listMethods [.get, .head, .options]),
          ("Access-Control-Allow-Origin", "https://localhost"),
          ("Access-Control-Max-Age", "1728000"), ("Content-Type", "text/plain"),
          ("Content-Disposition", "attachment")] :: rest) ∧
    (perform sampleOrigin sampleOutput 2 (.status 404)).run
        (run sampleOrigin sampleOutput 2 (reset sampleLeft) sampleCalls) =
      .error (.std "Can't move backwards in the request workflow from 3 to 1.")
        (run sampleOrigin sampleOutput 2 (reset sampleLeft) sampleCalls) := by
  obtain ⟨-, header, -, back⟩ := workflow_exact sampleOrigin sampleOutput (le_refl 2)
    sampleLeft sampleCalls
  exact ⟨header ⟨.put ['o', 'k'], by decide, rfl⟩, back (.status 404) .headers rfl (by decide)⟩

end Workflow

section Responses

/-- The calls by which a response is sent, up to its body. -/
def responseCalls (methods : List Method) (success : List (String × String)) (r : Response) :
    List Call :=
  .setDefaultMethods methods :: (success.map (fun h => .addSuccessHeader h.1 h.2) ++
    .status r.status :: r.headers.map (fun h => .addHeader h.1 h.2))

variable (methods : List Method) (success : List (String × String)) (r : Response)

private theorem statusCode_responseCalls :
    (responseCalls methods success r).filterMap Call.statusCode = [(r.status : Int)] := by
  simp [responseCalls, List.filterMap_cons, List.filterMap_map, Function.comp_def]

private theorem header_responseCalls :
    (responseCalls methods success r).filterMap Call.header = r.headers := by
  simp [responseCalls, List.filterMap_cons, List.filterMap_map, Function.comp_def]

private theorem successHeader_responseCalls :
    (responseCalls methods success r).filterMap Call.successHeader = success := by
  simp [responseCalls, List.filterMap_cons, List.filterMap_map, Function.comp_def]

private theorem isOutput_responseCalls {d : Call} (member : d ∈ responseCalls methods success r) :
    d.isOutput = false := by
  simp only [responseCalls, List.mem_cons, List.mem_append, List.mem_map] at member
  rcases member with rfl | ⟨h, -, rfl⟩ | rfl | ⟨h, -, rfl⟩
  · rfl
  · rfl
  · rfl
  · rfl

/-- The headers that a response is sent with are those of `finish`. -/
theorem headerInfo_response (req : HttpRequest) {c : Call} (writes : c.isOutput = true)
    (more : List Call) :
    headerInfo req (responseCalls methods success r ++ c :: more) =
      .writeHeaderInfo r.status (ProcessRequest.finish req methods success r).headers := by
  have settings : beforeOutput (responseCalls methods success r ++ c :: more) =
      responseCalls methods success r := by
    rw [beforeOutput, List.takeWhile_append_of_pos, List.takeWhile_cons_of_neg, List.append_nil]
    · rw [writes]
      decide
    · exact fun d member => by rw [isOutput_responseCalls methods success r member]; rfl
  have outside : beforeWorkflow (responseCalls methods success r ++ c :: more) =
      [.setDefaultMethods methods] := by
    cases success with
    | nil => rfl
    | cons h success => rfl
  have code : lastStatus (responseCalls methods success r) = r.status := by
    rw [lastStatus, statusCode_responseCalls]
    rfl
  have success : (r.status : Int) = 200 ↔ r.status = 200 := by omega
  rw [headerInfo, settings, outside, code, header_responseCalls, successHeader_responseCalls,
    ProcessRequest.finish]
  simp only [success]
  rfl

end Responses

end Cgimap.Http.Workflow
