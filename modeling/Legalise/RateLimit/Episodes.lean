import Legalise.RateLimit.Isolation

/-!
This module contains when the throttle writes its audit row, for attempts that come one after the other.
-/

namespace RateLimit

section Windows

variable {α : Type} {time : α → Int}

/--
At most one element of a list in order lies in any window if and only if any two are further apart.
-/
theorem once_iff_apart {xs : List α} (hsorted : xs.Pairwise fun x y => time x ≤ time y)
    : (∀ t, (xs.filter fun x => t ≤ time x && time x ≤ t + window).length ≤ 1)
        ↔
      xs.Pairwise fun x y => time x + window < time y := by
  rw [List.pairwise_iff_forall_sublist] at hsorted ⊢
  constructor
  . intro h x y hxy
    by_contra hnear
    have hle := hsorted hxy
    have hkept : [x, y].Sublist (xs.filter fun z => time x ≤ time z && time z ≤ time x + window) := by
      have hsublist := hxy.filter fun z => decide (time x ≤ time z) && decide (time z ≤ time x + window)
      rwa [List.filter_eq_self.mpr] at hsublist
      intro z hz
      have hwindow : 0 ≤ window := by decide
      rw [Bool.and_eq_true, decide_eq_true_eq, decide_eq_true_eq]
      rcases List.mem_pair.mp hz with rfl | rfl <;> omega
    have := (hkept.length_le).trans (h (time x))
    contradiction
  . intro h t
    by_contra hmany
    obtain ⟨x, y, rest, heq⟩ : ∃ x y rest,
        (xs.filter fun x => t ≤ time x && time x ≤ t + window) = x :: y :: rest := by
      match hlist : xs.filter fun x => t ≤ time x && time x ≤ t + window with
      | [] | [_] => simp [hlist] at hmany
      | x :: y :: rest => exact ⟨x, y, rest, rfl⟩
    have hmem (z : α) (hz : z ∈ x :: y :: rest) : t ≤ time z ∧ time z ≤ t + window := by
      rw [← heq, List.mem_filter] at hz
      simpa using hz.right
    have hkept : (x :: y :: rest).Sublist xs := by
      rw [← heq]
      exact List.filter_sublist
    have := h (((List.nil_sublist rest).cons_cons y).cons_cons x |>.trans hkept)
    have hx := hmem x (by simp)
    have hy := hmem y (by simp)
    omega

end Windows

variable (overrides : Route → Option Int) (attempts : Nat → Attempt)

section Trail

/--
Attempts one after the other, with the times at which they read the clock.
-/
structure Arrivals where
  sequence : List (Nat × Int)
  distinct : (sequence.map Prod.fst).Nodup
  clock : sequence.Pairwise fun x y => x.snd ≤ y.snd

/--
The audit rows that an attempt writes.
-/
def auditedBy (s : State) (a : Nat) (now : Int) : List AuditLog :=
  ((attempt a now).foldl (exec overrides attempts) s).audit.drop s.audit.length

/--
The audit rows of a run, with the times of their attempts.
-/
def auditTrail : State → List (Nat × Int) → List (Int × AuditLog)
  | _, [] => []
  | s, (a, now) :: rest =>
    (auditedBy overrides attempts s a now).map (fun row => (now, row))
      ++ auditTrail ((attempt a now).foldl (exec overrides attempts) s) rest

/--
A row about the rejections of an address on a route.
-/
def isFor (route : Route) (ip : PyStr) (row : AuditLog) : Bool :=
  row.action = py "auth.rate_limited" && row.resourceId = some route.key
    &&
  match row.payload.lookup (py "ip") with
  | some (.str text) => text = ip
  | _ => false

/--
In any window there is at most one row for an address on a route.
-/
def OncePerWindow (arrivals : Arrivals) : Prop :=
  ∀ route ip (t : Int), 0 < routeLimit overrides route →
    ((auditTrail overrides attempts .initial arrivals.sequence).filter fun (now, row) =>
      isFor route ip row && (t ≤ now && now ≤ t + window)).length ≤ 1

end Trail

section Fillings

/--
An earlier attempt of the same address on the same route, in the window before a time.
-/
def isHit (attempt : Attempt) (now : Int) (earlier : Nat × Int) : Bool :=
  (attempts earlier.fst).route = attempt.route && (attempts earlier.fst).ip = attempt.ip
    && now - window ≤ earlier.snd

/--
An attempt on a throttled route has exactly as many attempts in the window before it as the limit says.
-/
def fillsWindow (earlier : List (Nat × Int)) (a : Nat) (now : Int) : Bool :=
  0 < routeLimit overrides (attempts a).route
    && ((earlier.filter (isHit attempts (attempts a) now)).length : Int) = routeLimit overrides (attempts a).route

/--
The attempts that find their window filled to the limit.
-/
def fillings : List (Nat × Int) → List (Nat × Int) → List (Nat × Int)
  | _, [] => []
  | earlier, (a, now) :: rest =>
    (if fillsWindow overrides attempts earlier a now then [(a, now)] else [])
      ++ fillings (earlier ++ [(a, now)]) rest

/--
Of an address on a route, the attempts that find their window filled to the limit are more than a window
apart.
-/
def FilledApart (arrivals : Arrivals) : Prop :=
  (fillings overrides attempts [] arrivals.sequence).Pairwise fun x y =>
    (attempts x.fst).route = (attempts y.fst).route → (attempts x.fst).ip = (attempts y.fst).ip →
      x.snd + window < y.snd

variable {overrides attempts}

theorem fillings_sublist (earlier rest : List (Nat × Int)) : (fillings overrides attempts earlier rest).Sublist rest := by
  induction rest generalizing earlier with
  | nil => exact List.Sublist.refl _
  | cons first rest ih =>
    obtain ⟨a, now⟩ := first
    unfold fillings
    split
    . exact (ih _).cons_cons _
    . exact (ih _).cons _

theorem limit_pos_of_mem_fillings {earlier rest : List (Nat × Int)} {x : Nat × Int}
    (h : x ∈ fillings overrides attempts earlier rest) : 0 < routeLimit overrides (attempts x.fst).route := by
  induction rest generalizing earlier with
  | nil => cases h
  | cons first rest ih =>
    obtain ⟨a, now⟩ := first
    unfold fillings at h
    rcases List.mem_append.mp h with hfirst | hrest
    . split at hfirst
      . next hfills =>
        unfold fillsWindow at hfills
        rw [Bool.and_eq_true, decide_eq_true_eq] at hfills
        rw [List.mem_singleton.mp hfirst]
        exact hfills.left
      . cases hfirst
    . exact ih hrest

end Fillings

section Serial

/--
Between two attempts: the ones to come are idle, and the rows that a later one counts are those of the
earlier attempts in its window.
-/
structure Serial (earlier : List (Nat × Int)) (last : Int) (s : State) : Prop where
  idle : ∀ b, b ∉ earlier.map Prod.fst → s.phases b = .idle
  counted : ∀ attempt now, last ≤ now → 0 < routeLimit overrides attempt.route →
    s.rows.filter (isCounted attempt now)
      = (earlier.filter (isHit attempts attempt now)).map fun (b, t) => rowOf attempts b t

variable {overrides attempts} {earlier : List (Nat × Int)} {last now : Int} {s : State} {a : Nat}

theorem serial_initial (last : Int) : Serial overrides attempts [] last .initial where
  idle _ _ := rfl
  counted _ _ _ _ := rfl

theorem isCounted_rowOf (attempt : Attempt) (now t : Int) (b : Nat)
    : isCounted attempt now (rowOf attempts b t) = isHit attempts attempt now (b, t) := by
  rfl

/--
What the cleanup deletes is not counted at that time or later.
-/
theorem filter_isCounted_visible {now' : Int} (hle : now ≤ now') (route : Route) (attempt : Attempt)
    (rows : List ThrottleEvent)
    : (rows.filter (· ∉ rows.filter (isExpired route now))).filter (isCounted attempt now')
        = rows.filter (isCounted attempt now') := by
  rw [List.filter_filter]
  apply List.filter_congr
  intro row hrow
  cases hcounted : isCounted attempt now' row with
  | false => rfl
  | true =>
    rw [isCounted_iff] at hcounted
    simp only [List.mem_filter, isExpired_iff, Bool.true_and, decide_eq_true_eq, not_and, not_lt]
    intro _ _
    omega

/--
An attempt writes the audit row if and only if it finds its window filled to the limit.
-/
theorem Serial.attempt (h : Serial overrides attempts earlier last s) (hle : last ≤ now)
    (hnew : a ∉ earlier.map Prod.fst)
    : Serial overrides attempts (earlier ++ [(a, now)]) now ((attempt a now).foldl (exec overrides attempts) s)
        ∧ auditedBy overrides attempts s a now
          = if fillsWindow overrides attempts earlier a now then
              [rateLimitedAudit (attempts a) (routeLimit overrides (attempts a).route)]
            else [] := by
  have hidle := h.idle a hnew
  have hphases (phase : Phase) (b : Nat) (hb : b ∉ (earlier ++ [(a, now)]).map Prod.fst)
      : Function.update s.phases a phase b = .idle := by
    simp only [List.map_append, List.map_cons, List.map_nil, List.mem_append, List.mem_singleton, not_or] at hb
    rw [Function.update_of_ne hb.right]
    exact h.idle b hb.left
  by_cases hlimit : routeLimit overrides (attempts a).route ≤ 0
  . -- A route without a throttle records nothing.
    have hfold : (RateLimit.attempt a now).foldl (exec overrides attempts) s = s.setPhase a .ended := by
      simp [RateLimit.attempt, exec, hidle, hlimit, State.setPhase]
    refine ⟨⟨?_, ?_⟩, ?_⟩
    . rw [hfold]
      exact hphases .ended
    . intro attempt now' hnow hpos
      have hother : isHit attempts attempt now' (a, now) = false := by
        unfold isHit
        have hne : (attempts a).route ≠ attempt.route := by
          intro heq
          rw [heq] at hlimit
          omega
        simp [hne]
      rw [hfold, List.filter_append, List.filter_cons_of_neg (by simp [hother]), List.filter_nil,
        List.append_nil]
      exact h.counted attempt now' (hle.trans hnow) hpos
    . unfold auditedBy
      rw [hfold, if_neg (by simp [fillsWindow]; omega)]
      simp [State.setPhase]
  . have hpos : 0 < routeLimit overrides (attempts a).route := not_le.mp hlimit
    have hcount := h.counted (attempts a) now hle hpos
    have hvisible := filter_isCounted_visible (le_refl now) (attempts a).route (attempts a) s.rows
    have hrows (attempt : Attempt) (now' : Int) (hnow : now ≤ now') (hlimit' : 0 < routeLimit overrides attempt.route)
        : (s.rows.filter (· ∉ s.rows.filter (isExpired (attempts a).route now))
            ++ [rowOf attempts a now]).filter (isCounted attempt now')
          = ((earlier ++ [(a, now)]).filter (isHit attempts attempt now')).map fun (b, t) => rowOf attempts b t := by
      rw [List.filter_append, List.filter_append, List.map_append, filter_isCounted_visible hnow,
        h.counted attempt now' (hle.trans hnow) hlimit']
      congr 1
      rw [List.filter_singleton, List.filter_singleton, isCounted_rowOf]
      cases isHit attempts attempt now' (a, now) <;> rfl
    have hfills : fillsWindow overrides attempts earlier a now = true
        ↔ (((s.rows.filter (· ∉ s.rows.filter (isExpired (attempts a).route now))).filter
            (isCounted (attempts a) now)).length : Int) = routeLimit overrides (attempts a).route := by
      rw [hvisible, hcount, List.length_map]
      simp [fillsWindow, hpos]
    constructor
    . constructor
      . simp only [RateLimit.attempt, List.foldl_cons, List.foldl_nil, exec, hidle, hlimit, if_false,
          State.setPhase, Function.update_self, Function.update_idem]
        split <;> exact hphases _
      . intro attempt now' hnow hlimit'
        simp only [RateLimit.attempt, List.foldl_cons, List.foldl_nil, exec, hidle, hlimit, if_false,
          State.setPhase, Function.update_self, Function.update_idem]
        split <;> exact hrows attempt now' hnow hlimit'
    . unfold auditedBy
      simp only [RateLimit.attempt, List.foldl_cons, List.foldl_nil, exec, hidle, hlimit, if_false,
        State.setPhase, Function.update_self, Function.update_idem]
      by_cases hfull : fillsWindow overrides attempts earlier a now = true
      . have hequal := hfills.mp hfull
        rw [if_pos hfull, if_pos (by rw [ge_iff_le, hequal]), if_pos hequal]
        simp
      . have hunequal := fun hequal => hfull (hfills.mpr hequal)
        rw [if_neg hfull, if_neg hunequal, List.append_nil]
        split <;> exact List.drop_length

theorem auditTrail_eq (h : Serial overrides attempts earlier last s) {rest : List (Nat × Int)}
    (hdistinct : ((earlier ++ rest).map Prod.fst).Nodup)
    (hclock : (last :: rest.map Prod.snd).Pairwise (· ≤ ·))
    : auditTrail overrides attempts s rest
        = (fillings overrides attempts earlier rest).map fun (a, now) =>
          (now, rateLimitedAudit (attempts a) (routeLimit overrides (attempts a).route)) := by
  induction rest generalizing earlier last s with
  | nil => rfl
  | cons first rest ih =>
    obtain ⟨a, now⟩ := first
    rw [List.map_cons, List.pairwise_cons] at hclock
    have hnew : a ∉ earlier.map Prod.fst := by
      intro hmem
      rw [List.map_append, List.nodup_append] at hdistinct
      exact hdistinct.right.right a hmem a (by simp) rfl
    have ⟨hnext, haudited⟩ := h.attempt (hclock.left now (by simp)) hnew
    rw [List.append_cons] at hdistinct
    unfold auditTrail fillings
    rw [haudited, ih hnext hdistinct hclock.right, List.map_append]
    congr 1
    split <;> rfl

end Serial

section Exact

variable {overrides attempts}

theorem Route.key_injective : Function.Injective Route.key := by
  intro a b
  cases a <;> cases b <;> decide

theorem isFor_rateLimitedAudit (route : Route) (ip : PyStr) (attempt : Attempt) (limit : Int)
    : isFor route ip (rateLimitedAudit attempt limit) = true ↔ attempt.route = route ∧ attempt.ip = ip := by
  have hip : (rateLimitedAudit attempt limit).payload.lookup (py "ip") = some (.str attempt.ip) := rfl
  have hroute : (rateLimitedAudit attempt limit).resourceId = some attempt.route.key := rfl
  have haction : (rateLimitedAudit attempt limit).action = py "auth.rate_limited" := rfl
  unfold isFor
  rw [hip, hroute, haction]
  simp [Route.key_injective.eq_iff]

end Exact

/--
The audit trail has at most one row in any window if and only if an address does not find its window
filled to the limit twice in a window.
-/
theorem oncePerWindow_iff_filledApart (arrivals : Arrivals)
    : OncePerWindow overrides attempts arrivals ↔ FilledApart overrides attempts arrivals := by
  have htrail : auditTrail overrides attempts .initial arrivals.sequence
      = (fillings overrides attempts [] arrivals.sequence).map fun (a, now) =>
        (now, rateLimitedAudit (attempts a) (routeLimit overrides (attempts a).route)) := by
    cases hsequence : arrivals.sequence with
    | nil => rfl
    | cons first rest =>
      rw [← hsequence]
      refine auditTrail_eq (serial_initial first.snd) (by simpa using arrivals.distinct) ?_
      have hclock := arrivals.clock
      rw [hsequence, List.pairwise_cons] at hclock
      rw [List.pairwise_cons, List.pairwise_map, hsequence, List.pairwise_cons]
      refine ⟨?_, hclock⟩
      intro t ht
      rw [List.map_cons, List.mem_cons] at ht
      rcases ht with rfl | ht
      . exact le_refl _
      . have ⟨x, hx, heq⟩ := List.mem_map.mp ht
        exact heq ▸ hclock.left x hx
  have hsorted : (fillings overrides attempts [] arrivals.sequence).Pairwise fun x y => x.snd ≤ y.snd :=
    arrivals.clock.sublist (fillings_sublist _ _)
  have hwindow (route : Route) (ip : PyStr) (t : Int)
      : ((auditTrail overrides attempts .initial arrivals.sequence).filter fun (now, row) =>
          isFor route ip row && (t ≤ now && now ≤ t + window)).length
        = (((fillings overrides attempts [] arrivals.sequence).filter fun x =>
            (attempts x.fst).route = route && (attempts x.fst).ip = ip).filter fun x =>
              t ≤ x.snd && x.snd ≤ t + window).length := by
    rw [htrail, List.filter_map, List.length_map, List.filter_filter]
    congr 1
    apply List.filter_congr
    intro x _
    rw [Bool.eq_iff_iff]
    simp only [Function.comp_apply, Bool.and_eq_true, isFor_rateLimitedAudit, decide_eq_true_eq]
    exact and_comm
  unfold OncePerWindow FilledApart
  simp only [hwindow]
  rw [List.pairwise_iff_forall_sublist]
  constructor
  . intro h x y hxy hroute hip
    have hpos := limit_pos_of_mem_fillings (hxy.subset (List.mem_cons_self (a := x)))
    have hones := (once_iff_apart (hsorted.sublist List.filter_sublist)).mp
      fun t => h (attempts x.fst).route (attempts x.fst).ip t hpos
    rw [List.pairwise_iff_forall_sublist] at hones
    apply hones
    have hkept := hxy.filter fun z =>
      decide ((attempts z.fst).route = (attempts x.fst).route) && decide ((attempts z.fst).ip = (attempts x.fst).ip)
    rwa [List.filter_eq_self.mpr] at hkept
    intro z hz
    rcases List.mem_pair.mp hz with rfl | rfl <;> simp [hroute, hip]
  . intro h route ip t _
    refine (once_iff_apart (hsorted.sublist List.filter_sublist)).mpr ?_ t
    rw [List.pairwise_iff_forall_sublist]
    intro x y hxy
    have hmem (z : Nat × Int) (hz : z ∈ [x, y]) : (attempts z.fst).route = route ∧ (attempts z.fst).ip = ip := by
      have := (List.mem_filter.mp (hxy.subset hz)).right
      simpa using this
    have hx := hmem x (by simp)
    have hy := hmem y (by simp)
    exact h (hxy.trans List.filter_sublist) (hx.left.trans hy.left.symm) (hx.right.trans hy.right.symm)

def register : Attempt where
  route := .register
  ip := py "203.0.113.7"
  path := py "/auth/register"

/--
An attempt every twelve minutes.
-/
def steadyRegistrations : Arrivals where
  sequence := (List.range 7).map fun n => (n, 720000000 * (n : Int))
  distinct := by decide
  clock := by decide

/--
The window of the sixth attempt and the one of the seventh both hold five attempts.
-/
theorem not_oncePerWindow : ¬ ∀ arrivals : Arrivals, OncePerWindow (fun _ => none) (fun _ => register) arrivals := by
  intro h
  have hone := h steadyRegistrations .register (py "203.0.113.7") 3600000000 (by decide)
  revert hone
  decide +kernel

end RateLimit
