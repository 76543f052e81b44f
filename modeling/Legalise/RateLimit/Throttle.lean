import Legalise.Audit.Log
import Legalise.Lib.Runs

/-!
This module contains the throttle of the routes for signing in: the attempts, their statements and commits
in any order, and what is let through.
-/

namespace RateLimit

/--
The keys of `RATE_LIMITED_ROUTES`.
-/
inductive Route where
  | register
  | requestVerifyToken
  | forgotPassword
  | login
  | magicLinkRequest
  deriving DecidableEq

namespace Route

def key : Route → PyStr
  | .register => py "auth.register"
  | .requestVerifyToken => py "auth.request_verify_token"
  | .forgotPassword => py "auth.forgot_password"
  | .login => py "auth.login"
  | .magicLinkRequest => py "auth.magic_link_request"

def default : Route → Int
  | .register => 5
  | .requestVerifyToken => 10
  | .forgotPassword => 10
  | .login => 10
  | .magicLinkRequest => 5

end Route

def windowSeconds : Int := 3600

/--
The window in microseconds.
-/
def window : Int := windowSeconds * 1000000

/--
What an attempt asks for, with the address that `client_ip` finds.
-/
structure Attempt where
  route : Route
  ip : PyStr
  path : PyStr
  deriving DecidableEq

/--
A row of `auth_throttle_events`, with the attempt that it records.
-/
structure ThrottleEvent where
  attempt : Nat
  ip : PyStr
  route : Route
  createdAt : Int
  deriving DecidableEq

/--
Where an attempt is: it has read the clock, has marked rows for deletion, has counted, or has ended.
-/
inductive Phase where
  | idle
  | started (now : Int)
  | deleted (now : Int) (expired : List ThrottleEvent)
  | counted (now : Int) (expired : List ThrottleEvent) (current : Nat)
  | letThrough (now : Int)
  | refused (now : Int) (detail : Dict)
  | ended

def Phase.letThroughAt? : Phase → Option Int
  | .letThrough now => some now
  | _ => none

theorem Phase.letThroughAt?_eq_some_iff {phase : Phase} {now : Int}
    : phase.letThroughAt? = some now ↔ phase = .letThrough now := by
  cases phase <;> simp [letThroughAt?]

/--
The committed rows and the attempts.
-/
structure State where
  rows : List ThrottleEvent
  audit : List AuditLog
  phases : Nat → Phase

/--
The statements and the commit of an attempt. It may end without a commit at any time.
-/
inductive Event where
  | start (attempt : Nat) (now : Int)
  | delete (attempt : Nat)
  | count (attempt : Nat)
  | commit (attempt : Nat)
  | abort (attempt : Nat)

def Event.attempt : Event → Nat
  | .start attempt _ | .delete attempt | .count attempt | .commit attempt | .abort attempt => attempt

section Exec

variable (overrides : Route → Option Int) (attempts : Nat → Attempt)

/--
`route_limit`, with the values of the environment variables that are set.
-/
def routeLimit (route : Route) : Int :=
  (overrides route).getD route.default

/--
The detail of the response 429.
-/
def rateLimited (route : Route) (limit : Int) : Dict :=
  [
    (py "error", .str (py "rate_limited")), (py "route", .str route.key), (py "limit_per_hour", .int limit),
    (py "message", .str (py "Too many requests from this address. Try again in an hour."))
  ]

/--
The audit row of the first rejection.
-/
def rateLimitedAudit (attempt : Attempt) (limit : Int) : AuditLog where
  action := py "auth.rate_limited"
  resourceType := some (py "auth")
  resourceId := some attempt.route.key
  payload := [
    (py "ip", .str attempt.ip), (py "route", .str attempt.route.key), (py "limit_per_hour", .int limit),
    (py "window_seconds", .int windowSeconds), (py "path", .str attempt.path)
  ]

def State.setPhase (s : State) (attempt : Nat) (phase : Phase) : State :=
  { s with phases := Function.update s.phases attempt phase }

/--
The rows that the cleanup of an attempt deletes.
-/
def isExpired (route : Route) (now : Int) (row : ThrottleEvent) : Bool :=
  row.route = route && row.createdAt < now - window

/--
The rows that an attempt counts.
-/
def isCounted (attempt : Attempt) (now : Int) (row : ThrottleEvent) : Bool :=
  row.route = attempt.route && row.ip = attempt.ip && now - window ≤ row.createdAt

@[simp]
theorem isExpired_iff (route : Route) (now : Int) (row : ThrottleEvent)
    : isExpired route now row = true ↔ row.route = route ∧ row.createdAt < now - window := by
  simp [isExpired]

@[simp]
theorem isCounted_iff (attempt : Attempt) (now : Int) (row : ThrottleEvent)
    : isCounted attempt now row = true
        ↔ row.route = attempt.route ∧ row.ip = attempt.ip ∧ now - window ≤ row.createdAt := by
  simp [isCounted, and_assoc]

/--
The row that records an attempt.
-/
def rowOf (attempt : Nat) (now : Int) : ThrottleEvent where
  attempt := attempt
  ip := (attempts attempt).ip
  route := (attempts attempt).route
  createdAt := now

@[simp]
theorem route_rowOf (attempt : Nat) (now : Int) : (rowOf attempts attempt now).route = (attempts attempt).route :=
  rfl

@[simp]
theorem ip_rowOf (attempt : Nat) (now : Int) : (rowOf attempts attempt now).ip = (attempts attempt).ip :=
  rfl

@[simp]
theorem createdAt_rowOf (attempt : Nat) (now : Int) : (rowOf attempts attempt now).createdAt = now :=
  rfl

/--
`enforce_ip_rate_limit`, one statement after the other. A commit makes the deletion and the new row visible.
-/
def exec (s : State) : Event → State
  | .start a now =>
    match s.phases a with
    | .idle =>
      if routeLimit overrides (attempts a).route ≤ 0 then s.setPhase a .ended
      else s.setPhase a (.started now)
    | _ => s
  | .delete a =>
    match s.phases a with
    | .started now => s.setPhase a (.deleted now (s.rows.filter (isExpired (attempts a).route now)))
    | _ => s
  | .count a =>
    match s.phases a with
    | .deleted now expired =>
      let visible := s.rows.filter (· ∉ expired)
      s.setPhase a (.counted now expired (visible.filter (isCounted (attempts a) now)).length)
    | _ => s
  | .commit a =>
    match s.phases a with
    | .counted now expired current =>
      let limit := routeLimit overrides (attempts a).route
      let rows := s.rows.filter (· ∉ expired) ++ [rowOf attempts a now]
      if current ≥ limit then
        {
          rows := rows
          audit := s.audit ++ if current = limit then [rateLimitedAudit (attempts a) limit] else []
          phases := Function.update s.phases a (.refused now (rateLimited (attempts a).route limit))
        }
      else { s with rows := rows, phases := Function.update s.phases a (.letThrough now) }
    | _ => s
  | .abort a =>
    match s.phases a with
    | .started _ | .deleted _ _ | .counted _ _ _ => s.setPhase a .ended
    | _ => s

def State.initial : State where
  rows := []
  audit := []
  phases _ := .idle

/--
At most as many attempts of an address on a route as the limit says are let through in any window.
-/
def Bounded (s : State) : Prop :=
  ∀ route ip (t : Int) (as : List Nat), 0 < routeLimit overrides route → as.Nodup
    → (∀ a ∈ as, (attempts a).route = route ∧ (attempts a).ip = ip
      ∧ ∃ now, s.phases a = .letThrough now ∧ t ≤ now ∧ now ≤ t + window)
    → (as.length : Int) ≤ routeLimit overrides route

/--
The bound holds in all states of a run, and what is refused is refused without the attempts of other
addresses and routes as well.
-/
structure Throttles (events : List Event) : Prop where
  bounded : ∀ earlier, earlier <+: events →
    Bounded overrides attempts (earlier.foldl (exec overrides attempts) .initial)
  isolated : ∀ a now detail, (events.foldl (exec overrides attempts) .initial).phases a = .refused now detail
    → ((events.filter fun event => (attempts event.attempt).route = (attempts a).route
        && (attempts event.attempt).ip = (attempts a).ip).foldl (exec overrides attempts) .initial).phases a
      = .refused now detail

/--
When an attempt counts, no other attempt of its address on its route has counted without having ended, and
the attempts on its route that are recorded have not read a later time than it has.
-/
def CountsAlone (s : State) : Event → Prop
  | .count a => ∀ now expired, s.phases a = .deleted now expired →
    (∀ b, (attempts b).route = (attempts a).route → (attempts b).ip = (attempts a).ip →
      ∀ now' expired' current, s.phases b ≠ .counted now' expired' current)
    ∧ ∀ c now', (attempts c).route = (attempts a).route →
      (s.phases c = .letThrough now' ∨ ∃ detail, s.phases c = .refused now' detail) → now' ≤ now
  | _ => True

/--
All attempts of a run count alone.
-/
def AllCountAlone (s : State) : List Event → Prop
  | [] => True
  | event :: events =>
    CountsAlone attempts s event ∧ AllCountAlone (exec overrides attempts s event) events

end Exec

end RateLimit
