import Legalise.AuditReconstruction.Basic
import Legalise.Lib.Transition
import Legalise.Postgres.Value
import Legalise.Python.JsonLine

/-!
This module contains the streamed variant of a turn on the side of the server: the task that runs the turn and puts
its events on a queue, and the response that takes them off as frames.
-/

namespace AssistantStream

open JsonText (dumpsLine)

section Events

/--
The milestones that a turn emits on its way.
-/
inductive Milestone where
  | turnStart
  | turnAccepted
  | turnRefused
  | turnDeterministic
  | turnEnd
  | contextLoaded
  | modelStart
  | modelDelta
  | toolStart
  | toolEnd
  | toolError
  deriving DecidableEq

def Milestone.name : Milestone → PyStr
  | .turnStart => py "turn.start"
  | .turnAccepted => py "turn.accepted"
  | .turnRefused => py "turn.refused"
  | .turnDeterministic => py "turn.deterministic"
  | .turnEnd => py "turn.end"
  | .contextLoaded => py "context.loaded"
  | .modelStart => py "model.start"
  | .modelDelta => py "model.delta"
  | .toolStart => py "tool.start"
  | .toolEnd => py "tool.end"
  | .toolError => py "tool.error"

inductive EventName where
  | milestone (m : Milestone)
  | result
  | error
  deriving DecidableEq

def EventName.str : EventName → PyStr
  | .milestone m => m.name
  | .result => py "result"
  | .error => py "error"

structure Event where
  name : EventName
  data : Dict

/--
The events that a turn is over with.
-/
def Event.isTerminal (e : Event) : Bool :=
  e.name = .result || e.name = .error

/--
`_sse_format`, where `none` stands for a `UnicodeEncodeError`.
-/
def sseText (R : PyRepr) (e : Event) : PyStr :=
  py "event: " ++ e.name.str ++ py "\ndata: " ++ dumpsLine R (.dict e.data) ++ py "\n\n"

def sseFormat (R : PyRepr) (e : Event) : Option Bytes :=
  Utf8.encode (sseText R e)

end Events

section Turn

/--
An exception: its text, which may be blank, and the name of its type.
-/
structure Exn where
  text : PyStr
  typeName : PyStr

/--
What a paused matter is refused with.
-/
inductive PausedReason where
  | callsPaused
  | toolsPaused
  | matterNotFound (matterId : Uuid)
  | toolNeedsMatter (tool : PyStr)

def PausedReason.text (R : PyRepr) : PausedReason → PyStr
  | .callsPaused => py "AI is paused on this matter. Resume AI from the matter's Overview to continue."
  | .toolsPaused => py "AI is paused on this matter, so tools cannot run. "
      ++ py "Resume AI from the matter's Overview to continue."
  | .matterNotFound matterId => py "matter not found for matter_id=" ++ matterId.str
  | .toolNeedsMatter tool => py "tool " ++ R.str tool ++ py " is posture-gated; matter_id is required"

/--
The exceptions of `PROVIDER_HTTP_EXCEPTIONS`.
-/
inductive ProviderError where
  | privilegePaused (reason : PausedReason)
  | providerKeyMissing (provider : PyStr)
  | providerUpstream (provider code : PyStr) (upstreamStatus : Option Int) (message : PyStr)

/--
The status and the detail of `provider_error_http_exception`.
-/
def ProviderError.http (R : PyRepr) : ProviderError → Int × Json
  | .privilegePaused reason => (409, .str (reason.text R))
  | .providerKeyMissing provider =>
    (422, .dict [(py "error", .str (py "provider_key_missing")), (py "provider", .str provider),
      (py "message", .str (py "Add a " ++ provider
        ++ py " API key in Settings → API Keys to run this call."))])
  | .providerUpstream provider code upstreamStatus message =>
    (502, .dict [(py "error", .str code), (py "provider", .str provider),
      (py "upstream_status", (upstreamStatus.map Json.int).getD .null), (py "message", .str message)])

/--
The event of a provider error.
-/
def ProviderError.event (R : PyRepr) (e : ProviderError) : Event :=
  match e.http R with
  | (status, .dict detail) =>
    let message := Dict.get detail (py "message")
    let shown := if message.truthy then message.toStr R else (Json.dict detail).toStr R
    ⟨.error, Dict.set (Dict.set detail (py "message") (.str shown)) (py "code") (.int status)⟩
  | (status, detail) => ⟨.error, [(py "message", .str (detail.toStr R)), (py "code", .int status)]⟩

/--
The event of any other exception, which is never blank.
-/
def Exn.event (e : Exn) : Event :=
  let message := PyStr.strip e.text
  let shown := if message = [] then
      py "The model call failed (" ++ e.typeName ++ py "). Check your provider key in Settings."
    else message
  ⟨.error, [(py "message", .str shown)]⟩

inductive ThreadError where
  | notFound
  | raised (e : Exn)

inductive TurnError where
  | provider (e : ProviderError)
  | other (e : Exn)

/--
How the task of a request goes: what raises before the thread is resolved, the thread, its commit, the milestones
that the turn emits, its answer or what it raises, and whether closing the session raises.
-/
structure Turn where
  slug : PyStr
  opening : Option Exn
  thread : Except ThreadError Uuid
  commit : Option Exn
  milestones : List (Milestone × Dict)
  answer : Except TurnError Dict
  close : Option Exn

variable (R : PyRepr)

def threadNotFound : Event :=
  ⟨.error, [(py "message", .str (py "Thread not found")), (py "code", .int 404)]⟩

/--
The events that are put on the queue inside of the `async with` block, and the exception that leaves the block.
-/
def Turn.block (t : Turn) : List Event × Option Exn :=
  match t.opening with
  | some e => ([], some e)
  | none =>
    match t.thread with
    | .error .notFound => ([threadNotFound], none)
    | .error (.raised e) => ([], some e)
    | .ok threadId =>
      match t.commit with
      | some e => ([], some e)
      | none =>
        let started : Event :=
          ⟨.milestone .turnStart, [(py "slug", .str t.slug), (py "thread_id", .str threadId.str)]⟩
        let emitted := started :: t.milestones.map fun (m, data) => ⟨.milestone m, data⟩
        match t.answer with
        | .ok response => (emitted ++ [⟨.result, response⟩], none)
        | .error (.provider e) => (emitted ++ [e.event R], none)
        | .error (.other e) => (emitted, some e)

/--
What `run_turn` puts on the queue before the sentinel.
-/
def Turn.run (t : Turn) : List Event :=
  let (events, raised) := t.block R
  match t.close.or raised with
  | some e => events ++ [e.event]
  | none => events

end Turn

section Queue

inductive Item where
  | event (e : Event)
  | sentinel

/--
The task and the response in the middle of their work: what the task is still going to put, what is on the queue, the
frames that are sent, and whether the response is over.
-/
structure Pipe where
  script : List Item
  queue : List Item
  sent : List Bytes
  closed : Bool

def Pipe.start (events : List Event) : Pipe :=
  ⟨events.map .event ++ [.sentinel], [], [], false⟩

/--
A step of either side, in any order.
-/
inductive Step (R : PyRepr) : Pipe → Pipe → Prop where
  | put {item script queue sent closed}
    : Step R ⟨item :: script, queue, sent, closed⟩ ⟨script, queue ++ [item], sent, closed⟩
  | send {script e queue sent frame} (h : sseFormat R e = some frame)
    : Step R ⟨script, .event e :: queue, sent, false⟩ ⟨script, queue, sent ++ [frame], false⟩
  | stop {script queue sent}
    : Step R ⟨script, .sentinel :: queue, sent, false⟩ ⟨script, queue, sent, true⟩

/--
What the response of a request sends, when it is over.
-/
def Sends (R : PyRepr) (events : List Event) (frames : List Bytes) : Prop :=
  ∃ p, Relation.ReflTransGen (Step R) (Pipe.start events) p ∧ p.closed = true ∧ p.sent = frames

variable {R : PyRepr} {events : List Event} {frames : List Bytes}

/--
In the middle of their work: some of the events are sent as frames, and the others come in order from the queue and
from the task. When the response is over, all of them are sent.
-/
structure Pipe.Ordered (R : PyRepr) (events : List Event) (p : Pipe) : Prop where
  sent : ∃ done rest, events = done ++ rest ∧ done.mapM (sseFormat R) = some p.sent
    ∧ (p.closed = false → p.queue ++ p.script = rest.map .event ++ [.sentinel])
    ∧ (p.closed = true → rest = [])

theorem Pipe.ordered_start (R : PyRepr) (events : List Event) : (Pipe.start events).Ordered R events :=
  ⟨[], events, rfl, rfl, fun _ => rfl, fun h => by contradiction⟩

theorem Pipe.Ordered.step {p q : Pipe} (h : p.Ordered R events) (hstep : Step R p q) : q.Ordered R events := by
  have ⟨done, rest, hevents, hsent, hopen, hclosed⟩ := h
  cases hstep with
  | put =>
    refine ⟨done, rest, hevents, hsent, fun hq => ?_, hclosed⟩
    rw [← hopen hq]
    simp
  | send hframe =>
    have hopen := hopen rfl
    cases rest with
    | nil => simp at hopen
    | cons e rest =>
      rw [List.cons_append, List.map_cons, List.cons_append, List.cons.injEq, Item.event.injEq] at hopen
      refine ⟨done ++ [e], rest, by simp [hevents], ?_, fun _ => hopen.right, fun h => by contradiction⟩
      rw [← hopen.left, List.mapM_append, hsent]
      simp [hframe]
  | stop =>
    have hopen := hopen rfl
    cases rest with
    | nil => exact ⟨done, [], hevents, hsent, fun h => (by contradiction), fun _ => rfl⟩
    | cons e rest => simp at hopen

theorem Pipe.ordered_of_reaches {p : Pipe} (h : Relation.ReflTransGen (Step R) (Pipe.start events) p)
    : p.Ordered R events := by
  induction h with
  | refl => exact Pipe.ordered_start R events
  | tail _ hstep ih => exact ih.step hstep

/--
In whatever order the two sides take their steps, the frames of the events are sent in order.
-/
theorem Sends.mapM_eq (h : Sends R events frames) : events.mapM (sseFormat R) = some frames := by
  have ⟨p, hreaches, hclosed, hsent⟩ := h
  have ⟨done, rest, hevents, hdone, _, hrest⟩ := Pipe.ordered_of_reaches hreaches
  rw [hevents, hrest hclosed, List.append_nil, hdone, hsent]

/--
The steps that are left.
-/
def Pipe.left (p : Pipe) : Nat :=
  2 * p.script.length + p.queue.length

theorem Pipe.left_lt {p q : Pipe} (h : Step R p q) : q.left < p.left := by
  cases h with
  | put =>
    simp [Pipe.left]
    omega
  | send => simp [Pipe.left]
  | stop => simp [Pipe.left]

theorem Pipe.Ordered.exists_step {p : Pipe} (h : p.Ordered R events) (hopen : p.closed = false)
    (hformat : ∀ e ∈ events, ∃ frame, sseFormat R e = some frame) : ∃ q, Step R p q := by
  have ⟨done, rest, hevents, _, hitems, _⟩ := h
  have hitems := hitems hopen
  have ⟨script, queue, sent, closed⟩ := p
  dsimp only at hopen
  subst hopen
  cases queue with
  | nil =>
    cases script with
    | nil => simp at hitems
    | cons item script => exact ⟨_, .put⟩
  | cons item queue =>
    cases item with
    | sentinel => exact ⟨_, .stop⟩
    | event e =>
      have he : e ∈ events := by
        cases rest with
        | nil => simp at hitems
        | cons other rest =>
          simp only [List.cons_append, List.map_cons, List.cons.injEq, Item.event.injEq] at hitems
          rw [hevents, hitems.left]
          simp
      have ⟨frame, hframe⟩ := hformat e he
      exact ⟨_, .send hframe⟩

/--
Wherever the two sides have got to, the response gets to its end.
-/
theorem Pipe.Ordered.exists_closed {p : Pipe} (h : p.Ordered R events)
    (hformat : ∀ e ∈ events, ∃ frame, sseFormat R e = some frame)
    : ∃ q, Relation.ReflTransGen (Step R) p q ∧ q.closed = true := by
  induction hleft : p.left using Nat.strong_induction_on generalizing p with
  | _ n ih =>
    cases hclosed : p.closed with
    | true => exact ⟨p, .refl, hclosed⟩
    | false =>
      have ⟨q, hstep⟩ := h.exists_step hclosed hformat
      have ⟨last, hreaches, hlast⟩ := ih q.left (hleft ▸ Pipe.left_lt hstep) (h.step hstep) rfl
      exact ⟨last, .head hstep hreaches, hlast⟩

end Queue

end AssistantStream
