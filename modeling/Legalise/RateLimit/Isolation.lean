import Legalise.RateLimit.Bound

/-!
This module contains that attempts of other addresses and routes are never the cause of a refusal, and the
throttle as a whole.
-/

namespace RateLimit

variable {overrides : Route → Option Int} {attempts : Nat → Attempt} {s t : State} {event : Event}

/--
The rows are those of committed attempts, each at most once.
-/
structure Recorded (attempts : Nat → Attempt) (s : State) : Prop where
  nodup : s.rows.Nodup
  committed : ∀ row ∈ s.rows, row = rowOf attempts row.attempt row.createdAt
    ∧ Committed s row.attempt row.createdAt

theorem recorded_initial (attempts : Nat → Attempt) : Recorded attempts .initial where
  nodup := List.nodup_nil
  committed := fun _ h => absurd h List.not_mem_nil

theorem Recorded.setPhase (h : Recorded attempts s) {a : Nat} (phase : Phase)
    (hbefore : ∀ now, ¬ Committed s a now) : Recorded attempts (s.setPhase a phase) where
  nodup := h.nodup
  committed := fun row hrow => by
    have ⟨heq, hcommitted⟩ := h.committed row hrow
    have hne : row.attempt ≠ a := fun hsame => hbefore _ (hsame ▸ hcommitted)
    exact ⟨heq, by simpa [Committed, State.setPhase, hne] using hcommitted⟩

theorem not_committed_of_counted {a : Nat} {now : Int} {expired : List ThrottleEvent} {current : Nat}
    (h : s.phases a = .counted now expired current) (now' : Int) : ¬ Committed s a now' := by
  simp [Committed, h]

theorem Recorded.commit (h : Recorded attempts s) {a : Nat} {now : Int} {expired : List ThrottleEvent} {current : Nat}
    (hphase : s.phases a = .counted now expired current) {phase : Phase} {audit : List AuditLog}
    (hcommits : phase = .letThrough now ∨ ∃ detail, phase = .refused now detail)
    : Recorded attempts {
        rows := s.rows.filter (· ∉ expired) ++ [rowOf attempts a now]
        audit := audit
        phases := Function.update s.phases a phase
      } where
  nodup := by
    refine List.nodup_append.mpr ⟨h.nodup.filter _, List.nodup_singleton _, ?_⟩
    intro row hrow new hnew heq
    rw [List.mem_singleton.mp hnew] at heq
    have ⟨_, hcommitted⟩ := h.committed row (List.mem_of_mem_filter hrow)
    rw [heq] at hcommitted
    exact not_committed_of_counted hphase _ hcommitted
  committed := by
    intro row hrow
    rcases List.mem_append.mp hrow with hrow | hrow
    . have ⟨heq, hcommitted⟩ := h.committed row (List.mem_of_mem_filter hrow)
      have hne : row.attempt ≠ a := fun hsame => not_committed_of_counted hphase _ (hsame ▸ hcommitted)
      exact ⟨heq, by simpa [Committed, hne] using hcommitted⟩
    . rw [List.mem_singleton.mp hrow]
      exact ⟨rfl, by simpa [Committed, rowOf] using hcommits⟩

theorem Recorded.exec (h : Recorded attempts s) (event : Event) : Recorded attempts (exec overrides attempts s event) := by
  cases event with
  | start a now =>
    unfold RateLimit.exec
    dsimp only
    split
    . next hphase => split <;> exact h.setPhase _ (by simp [Committed, hphase])
    . exact h
  | delete a =>
    unfold RateLimit.exec
    dsimp only
    split
    . next hphase => exact h.setPhase _ (by simp [Committed, hphase])
    . exact h
  | count a =>
    unfold RateLimit.exec
    dsimp only
    split
    . next hphase => exact h.setPhase _ (by simp [Committed, hphase])
    . exact h
  | commit a =>
    unfold RateLimit.exec
    dsimp only
    split
    . next hphase =>
      split
      . exact h.commit hphase (.inr ⟨_, rfl⟩)
      . exact h.commit hphase (.inl rfl)
    . exact h
  | abort a =>
    unfold RateLimit.exec
    dsimp only
    split
    . next hphase => exact h.setPhase _ (by simp [Committed, hphase])
    . next hphase => exact h.setPhase _ (by simp [Committed, hphase])
    . next hphase => exact h.setPhase _ (by simp [Committed, hphase])
    . exact h

section Own

variable {own : Nat → Prop}

/--
What an attempt would delete without the others, it also deletes with them, unless it is gone.
-/
def DeletesAll (own : Nat → Prop) (s : State) (expired expired' : List ThrottleEvent) : Prop :=
  ∀ row ∈ expired', own row.attempt ∧ (∃ now, Committed s row.attempt now) ∧ (row ∈ s.rows → row ∈ expired)

/--
An attempt in the whole run, and in the run of its address and route alone: there it counts at least as
many rows, so that it is refused if it is refused in the whole run.
-/
inductive Matches (own : Nat → Prop) (s : State) : Phase → Phase → Prop where
  | idle : Matches own s .idle .idle
  | started (now : Int) : Matches own s (.started now) (.started now)
  | deleted (now : Int) (expired expired' : List ThrottleEvent) (h : DeletesAll own s expired expired')
    : Matches own s (.deleted now expired) (.deleted now expired')
  | counted (now : Int) (expired expired' : List ThrottleEvent) (current current' : Nat)
    (h : DeletesAll own s expired expired') (hle : current ≤ current')
    : Matches own s (.counted now expired current) (.counted now expired' current')
  | letThrough (now : Int) : Matches own s (.letThrough now) (.letThrough now)
  | refusedAlone (now : Int) (detail : Dict) : Matches own s (.letThrough now) (.refused now detail)
  | refused (now : Int) (detail : Dict) : Matches own s (.refused now detail) (.refused now detail)
  | ended : Matches own s .ended .ended

/--
The whole run, and the run of the own attempts alone.
-/
structure Simulates (attempts : Nat → Attempt) (own : Nat → Prop) (s t : State) : Prop where
  recorded : Recorded attempts s
  recordedAlone : Recorded attempts t
  rows : ∀ row ∈ s.rows, own row.attempt → row ∈ t.rows
  phases : ∀ a, own a → Matches own s (s.phases a) (t.phases a)
  others : ∀ a, ¬ own a → t.phases a = .idle

theorem Simulates.own_of_mem (h : Simulates attempts own s t) {row : ThrottleEvent} (hrow : row ∈ t.rows)
    : own row.attempt := by
  by_contra hno
  have ⟨_, hcommitted⟩ := h.recordedAlone.committed row hrow
  simp [Committed, h.others _ hno] at hcommitted

theorem Simulates.committed (h : Simulates attempts own s t) {a : Nat} (hown : own a) {now : Int}
    (hcommitted : Committed t a now) : Committed s a now := by
  have hmatches := h.phases a hown
  unfold Committed at hcommitted ⊢
  generalize s.phases a = phase at hmatches ⊢
  rcases hcommitted with ht | ⟨detail, ht⟩
  . rw [ht] at hmatches
    cases hmatches with
    | letThrough => exact .inl rfl
  . rw [ht] at hmatches
    cases hmatches with
    | refusedAlone => exact .inl rfl
    | refused => exact .inr ⟨detail, rfl⟩

/--
What a step does to the rows and to the committed attempts, as far as an attempt that goes on depends on it.
-/
theorem Matches.mono {s' : State} {phase phase' : Phase} (h : Matches own s phase phase')
    (hcommitted : ∀ a, own a → ∀ now, Committed s a now → Committed s' a now)
    (hrows : ∀ row ∈ s'.rows, own row.attempt → row ∈ s.rows ∨ ∀ now, ¬ Committed s row.attempt now)
    : Matches own s' phase phase' := by
  have hdeletes {expired expired' : List ThrottleEvent} (h : DeletesAll own s expired expired')
      : DeletesAll own s' expired expired' := by
    intro row hrow
    have ⟨hown, ⟨now, hnow⟩, hexpired⟩ := h row hrow
    refine ⟨hown, ⟨now, hcommitted _ hown now hnow⟩, fun hafter => ?_⟩
    rcases hrows row hafter hown with hbefore | hnew
    . exact hexpired hbefore
    . exact absurd hnow (hnew now)
  cases h with
  | idle => exact .idle
  | started now => exact .started now
  | deleted now expired expired' h => exact .deleted now expired expired' (hdeletes h)
  | counted now expired expired' current current' h hle =>
    exact .counted now expired expired' current current' (hdeletes h) hle
  | letThrough now => exact .letThrough now
  | refusedAlone now detail => exact .refusedAlone now detail
  | refused now detail => exact .refused now detail
  | ended => exact .ended

/--
An own attempt goes on in both runs without a commit.
-/
theorem Simulates.setPhase (h : Simulates attempts own s t) {a : Nat} (hown : own a) {phase phase' : Phase}
    (hbefore : ∀ now, ¬ Committed s a now) (hbefore' : ∀ now, ¬ Committed t a now)
    (hmatches : Matches own s phase phase')
    : Simulates attempts own (s.setPhase a phase) (t.setPhase a phase') := by
  have hcommitted (b : Nat) (_ : own b) (now : Int) (hb : Committed s b now) : Committed (s.setPhase a phase) b now := by
    have hne : b ≠ a := fun heq => hbefore now (heq ▸ hb)
    simpa [Committed, State.setPhase, hne] using hb
  refine ⟨h.recorded.setPhase _ hbefore, h.recordedAlone.setPhase _ hbefore', h.rows, ?_, ?_⟩
  . intro b hb
    by_cases heq : b = a
    . simp only [State.setPhase, heq, Function.update_self]
      exact hmatches.mono hcommitted fun row hrow _ => .inl hrow
    . simp only [State.setPhase, Function.update_of_ne heq]
      exact (h.phases b hb).mono hcommitted fun row hrow _ => .inl hrow
  . intro b hb
    have hne : b ≠ a := fun heq => hb (heq ▸ hown)
    simp [State.setPhase, hne, h.others b hb]

/--
The rows after a commit, and that it changes nothing for the attempts that have not ended.
-/
theorem mem_commit {a : Nat} {now : Int} {expired : List ThrottleEvent} {current : Nat}
    (hphase : s.phases a = .counted now expired current) {row : ThrottleEvent}
    (hrow : row ∈ s.rows.filter (· ∉ expired) ++ [rowOf attempts a now])
    : row ∈ s.rows ∨ ∀ now, ¬ Committed s row.attempt now := by
  rcases List.mem_append.mp hrow with hrow | hrow
  . exact .inl (List.mem_of_mem_filter hrow)
  . right
    rw [List.mem_singleton.mp hrow]
    exact not_committed_of_counted hphase

theorem committed_update {a b : Nat} {now now' : Int} {expired : List ThrottleEvent} {current : Nat}
    (hphase : s.phases a = .counted now expired current) {rows : List ThrottleEvent} {audit : List AuditLog}
    (phase : Phase) (hb : Committed s b now')
    : Committed { rows := rows, audit := audit, phases := Function.update s.phases a phase } b now' := by
  have hne : b ≠ a := fun heq => not_committed_of_counted hphase now' (heq ▸ hb)
  simpa [Committed, hne] using hb

/--
An own attempt commits in both runs.
-/
theorem Simulates.commit (h : Simulates attempts own s t) {a : Nat} (hown : own a) {now : Int}
    {expired expired' : List ThrottleEvent} {current current' : Nat}
    (hs : s.phases a = .counted now expired current) (ht : t.phases a = .counted now expired' current')
    (hdeletes : DeletesAll own s expired expired') {phase phase' : Phase} {audit audit' : List AuditLog}
    (hcommits : phase = .letThrough now ∨ ∃ detail, phase = .refused now detail)
    (hcommits' : phase' = .letThrough now ∨ ∃ detail, phase' = .refused now detail)
    (hmatches : Matches own s phase phase')
    : Simulates attempts own
        {
          rows := s.rows.filter (· ∉ expired) ++ [rowOf attempts a now]
          audit := audit
          phases := Function.update s.phases a phase
        }
        {
          rows := t.rows.filter (· ∉ expired') ++ [rowOf attempts a now]
          audit := audit'
          phases := Function.update t.phases a phase'
        } := by
  refine ⟨h.recorded.commit hs hcommits, h.recordedAlone.commit ht hcommits', ?_, ?_, ?_⟩
  . intro row hrow hownRow
    rcases List.mem_append.mp hrow with hrow | hrow
    . have ⟨hbefore, hkept⟩ := List.mem_filter.mp hrow
      refine List.mem_append_left _ (List.mem_filter.mpr ⟨h.rows row hbefore hownRow, ?_⟩)
      simp only [decide_eq_true_eq] at hkept ⊢
      exact fun hexpired => hkept ((hdeletes row hexpired).right.right hbefore)
    . exact List.mem_append_right _ hrow
  . intro b hb
    have hmono {q q' : Phase} (hq : Matches own s q q')
        : Matches own {
            rows := s.rows.filter (· ∉ expired) ++ [rowOf attempts a now]
            audit := audit
            phases := Function.update s.phases a phase
          } q q' :=
      hq.mono (fun _ _ _ hcommitted => committed_update hs phase hcommitted) (fun row hrow _ => mem_commit hs hrow)
    by_cases heq : b = a
    . simp only [heq, Function.update_self]
      exact hmono hmatches
    . simp only [Function.update_of_ne heq]
      exact hmono (h.phases b hb)
  . intro b hb
    have hne : b ≠ a := fun heq => hb (heq ▸ hown)
    simp [hne, h.others b hb]

/--
Another attempt takes a step in the whole run.
-/
theorem Simulates.exec_other (h : Simulates attempts own s t) (hother : ¬ own event.attempt)
    : Simulates attempts own (exec overrides attempts s event) t := by
  have hne (b : Nat) (hb : own b) : b ≠ event.attempt := fun heq => hother (heq ▸ hb)
  have hset (phase : Phase) (hbefore : ∀ now, ¬ Committed s event.attempt now)
      : Simulates attempts own (s.setPhase event.attempt phase) t := by
    refine ⟨h.recorded.setPhase _ hbefore, h.recordedAlone, h.rows, fun b hb => ?_, h.others⟩
    simp only [State.setPhase, Function.update_of_ne (hne b hb)]
    refine (h.phases b hb).mono (fun c hc now hcommitted => ?_) (fun row hrow _ => .inl hrow)
    simpa [Committed, hne c hc] using hcommitted
  cases event with
  | start a now =>
    unfold RateLimit.exec
    dsimp only
    split
    . next hphase => split <;> exact hset _ (by simp [Committed, Event.attempt, hphase])
    . exact h
  | delete a =>
    unfold RateLimit.exec
    dsimp only
    split
    . next hphase => exact hset _ (by simp [Committed, Event.attempt, hphase])
    . exact h
  | count a =>
    unfold RateLimit.exec
    dsimp only
    split
    . next hphase => exact hset _ (by simp [Committed, Event.attempt, hphase])
    . exact h
  | commit a =>
    unfold RateLimit.exec
    dsimp only
    split
    . next now expired current hphase =>
      have hcommit (phase : Phase) (audit : List AuditLog)
          (hcommits : phase = .letThrough now ∨ ∃ detail, phase = .refused now detail)
          : Simulates attempts own
              {
                rows := s.rows.filter (· ∉ expired) ++ [rowOf attempts a now]
                audit := audit
                phases := Function.update s.phases a phase
              } t := by
        refine ⟨h.recorded.commit hphase hcommits, h.recordedAlone, ?_, ?_, h.others⟩
        . intro row hrow hown
          rcases List.mem_append.mp hrow with hrow | hrow
          . exact h.rows row (List.mem_of_mem_filter hrow) hown
          . rw [List.mem_singleton.mp hrow] at hown
            exact absurd hown hother
        . intro b hb
          have hsame : b ≠ a := hne b hb
          simp only [Function.update_of_ne hsame]
          exact (h.phases b hb).mono (fun _ _ _ hcommitted => committed_update hphase phase hcommitted)
            (fun row hrow _ => mem_commit hphase hrow)
      split
      . exact hcommit _ _ (.inr ⟨_, rfl⟩)
      . exact hcommit _ _ (.inl rfl)
    . exact h
  | abort a =>
    unfold RateLimit.exec
    dsimp only
    split
    . next hphase => exact hset _ (by simp [Committed, Event.attempt, hphase])
    . next hphase => exact hset _ (by simp [Committed, Event.attempt, hphase])
    . next hphase => exact hset _ (by simp [Committed, Event.attempt, hphase])
    . exact h

/--
The own rows that are there in the whole run are also counted without the others.
-/
theorem Simulates.count_le (h : Simulates attempts own s t) {a : Nat}
    (hkey : ∀ b, own b ↔ (attempts b).route = (attempts a).route ∧ (attempts b).ip = (attempts a).ip)
    {expired expired' : List ThrottleEvent} (hdeletes : DeletesAll own s expired expired') (now : Int)
    : ((s.rows.filter (· ∉ expired)).filter (isCounted (attempts a) now)).length
      ≤ ((t.rows.filter (· ∉ expired')).filter (isCounted (attempts a) now)).length := by
  refine (((h.recorded.nodup.filter _).filter _).subperm fun row hrow => ?_).length_le
  have ⟨hvisible, hcounted⟩ := List.mem_filter.mp hrow
  have ⟨hmem, hkept⟩ := List.mem_filter.mp hvisible
  have ⟨heq, _⟩ := h.recorded.committed row hmem
  have ⟨hroute, hip, _⟩ := (isCounted_iff _ _ _).mp hcounted
  have hown : own row.attempt := by
    rw [hkey, ← route_rowOf attempts row.attempt row.createdAt, ← ip_rowOf attempts row.attempt row.createdAt, ← heq]
    exact ⟨hroute, hip⟩
  refine List.mem_filter.mpr ⟨List.mem_filter.mpr ⟨h.rows row hmem hown, ?_⟩, hcounted⟩
  simp only [decide_eq_true_eq] at hkept ⊢
  exact fun hexpired => hkept ((hdeletes row hexpired).right.right hmem)

theorem Simulates.exec_own (h : Simulates attempts own s t)
    (hkey : ∀ b, own b ↔ (attempts b).route = (attempts event.attempt).route
      ∧ (attempts b).ip = (attempts event.attempt).ip)
    : Simulates attempts own (exec overrides attempts s event) (exec overrides attempts t event) := by
  have hown : own event.attempt := (hkey _).mpr ⟨rfl, rfl⟩
  have hmatches := h.phases event.attempt hown
  generalize hs : s.phases event.attempt = phase at hmatches
  generalize ht : t.phases event.attempt = phase' at hmatches
  cases event with
  | start a now =>
    simp only [Event.attempt] at hs ht
    cases hmatches with
    | idle =>
      simp only [RateLimit.exec, hs, ht]
      split
      . exact h.setPhase (a := a) hown (by simp [Committed, hs]) (by simp [Committed, ht]) .ended
      . exact h.setPhase (a := a) hown (by simp [Committed, hs]) (by simp [Committed, ht]) (.started now)
    | _ => simpa only [RateLimit.exec, hs, ht] using h
  | delete a =>
    simp only [Event.attempt] at hs ht
    cases hmatches with
    | started now =>
      simp only [RateLimit.exec, hs, ht]
      refine h.setPhase (a := a) hown (by simp [Committed, hs]) (by simp [Committed, ht]) (.deleted now _ _ ?_)
      intro row hrow
      obtain ⟨hmem, hexpired⟩ := List.mem_filter.mp hrow
      have hownRow := h.own_of_mem hmem
      refine ⟨hownRow, ⟨_, h.committed hownRow (h.recordedAlone.committed row hmem).right⟩, fun hthere => ?_⟩
      exact List.mem_filter.mpr ⟨hthere, hexpired⟩
    | _ => simpa only [RateLimit.exec, hs, ht] using h
  | count a =>
    simp only [Event.attempt] at hs ht
    cases hmatches with
    | deleted now expired expired' hdeletes =>
      simp only [RateLimit.exec, hs, ht]
      refine h.setPhase (a := a) hown (by simp [Committed, hs]) (by simp [Committed, ht]) ?_
      exact .counted now expired expired' _ _ hdeletes (h.count_le hkey hdeletes now)
    | _ => simpa only [RateLimit.exec, hs, ht] using h
  | commit a =>
    simp only [Event.attempt] at hs ht
    cases hmatches with
    | counted now expired expired' current current' hdeletes hle =>
      simp only [RateLimit.exec, hs, ht]
      by_cases hrefused : (current : Int) ≥ routeLimit overrides (attempts a).route
      . have hrefused' : (current' : Int) ≥ routeLimit overrides (attempts a).route := by omega
        rw [if_pos hrefused, if_pos hrefused']
        exact h.commit hown hs ht hdeletes (.inr ⟨_, rfl⟩) (.inr ⟨_, rfl⟩) (.refused now _)
      . rw [if_neg hrefused]
        split
        . exact h.commit hown hs ht hdeletes (.inl rfl) (.inr ⟨_, rfl⟩) (.refusedAlone now _)
        . exact h.commit hown hs ht hdeletes (.inl rfl) (.inl rfl) (.letThrough now)
    | _ => simpa only [RateLimit.exec, hs, ht] using h
  | abort a =>
    simp only [Event.attempt] at hs ht
    cases hmatches with
    | started now | deleted now expired expired' hdeletes
    | counted now expired expired' current current' hdeletes hle =>
      simp only [RateLimit.exec, hs, ht]
      exact h.setPhase (a := a) hown (by simp [Committed, hs]) (by simp [Committed, ht]) .ended
    | _ => simpa only [RateLimit.exec, hs, ht] using h

end Own

/--
The run of the attempts of one address on one route.
-/
theorem simulates_filter (overrides : Route → Option Int) (attempts : Nat → Attempt) (a : Nat) (events : List Event)
    : Simulates attempts (fun b => (attempts b).route = (attempts a).route ∧ (attempts b).ip = (attempts a).ip)
        (events.foldl (exec overrides attempts) .initial)
        ((events.filter fun event => (attempts event.attempt).route = (attempts a).route
          && (attempts event.attempt).ip = (attempts a).ip).foldl (exec overrides attempts) .initial) := by
  induction events using List.reverseRecOn with
  | nil =>
    refine ⟨recorded_initial attempts, recorded_initial attempts, fun _ h => absurd h List.not_mem_nil, ?_, fun _ _ => rfl⟩
    exact fun _ _ => .idle
  | append_singleton events event ih =>
    rw [List.filter_append, List.foldl_append, List.foldl_append]
    by_cases hown : (attempts event.attempt).route = (attempts a).route ∧ (attempts event.attempt).ip = (attempts a).ip
    . rw [List.filter_cons_of_pos (by simp [hown])]
      refine ih.exec_own fun b => ?_
      rw [hown.left, hown.right]
    . rw [List.filter_cons_of_neg (by simpa using hown)]
      exact ih.exec_other hown

theorem isolated (overrides : Route → Option Int) (attempts : Nat → Attempt) (events : List Event) (a : Nat)
    (now : Int) (detail : Dict)
    (h : (events.foldl (exec overrides attempts) .initial).phases a = .refused now detail)
    : ((events.filter fun event => (attempts event.attempt).route = (attempts a).route
        && (attempts event.attempt).ip = (attempts a).ip).foldl (exec overrides attempts) .initial).phases a
      = .refused now detail := by
  have hmatches := (simulates_filter overrides attempts a events).phases a ⟨rfl, rfl⟩
  rw [h] at hmatches
  generalize State.phases _ a = phase at hmatches ⊢
  cases hmatches with
  | refused => rfl

section Throttles

/--
If all attempts count alone, then the throttle bounds the attempts in every window. Attempts of other
addresses and routes are never the cause of a refusal.
-/
theorem throttles (overrides : Route → Option Int) (attempts : Nat → Attempt) (events : List Event)
    (h : AllCountAlone overrides attempts .initial events) : Throttles overrides attempts events where
  bounded := fun _ hbegin => bounded_of_allCountAlone h hbegin
  isolated := fun a now detail hrefused => RateLimit.isolated overrides attempts events a now detail hrefused

/--
The statements of one attempt, one after the other.
-/
def attempt (a : Nat) (now : Int) : List Event :=
  [.start a now, .delete a, .count a, .commit a]

/--
No attempt is in progress, and the last one has read the clock at a time.
-/
def Quiet (s : State) (last : Int) : Prop :=
  ∀ b, s.phases b = .idle ∨ s.phases b = .ended ∨ ∃ now ≤ last, Committed s b now

theorem Quiet.later {last now : Int} (h : Quiet s last) (hle : last ≤ now) : Quiet s now := by
  intro b
  rcases h b with hb | hb | ⟨now', hle', hb⟩
  . exact .inl hb
  . exact .inr (.inl hb)
  . exact .inr (.inr ⟨now', hle'.trans hle, hb⟩)

theorem Quiet.not_counted {last : Int} (h : Quiet s last) (b : Nat) (now : Int) (expired : List ThrottleEvent)
    (current : Nat) : s.phases b ≠ .counted now expired current := by
  intro hb
  rcases h b with hb' | hb' | ⟨now', _, hb' | ⟨_, hb'⟩⟩ <;> rw [hb] at hb' <;> cases hb'

theorem Quiet.committed_le {last now : Int} (h : Quiet s last) {b : Nat} (hb : Committed s b now) : now ≤ last := by
  rcases h b with hb' | hb' | ⟨now', hle, hb'⟩
  . simp [Committed, hb'] at hb
  . simp [Committed, hb'] at hb
  . rcases hb with hb | ⟨_, hb⟩ <;> rcases hb' with hb' | ⟨_, hb'⟩ <;> rw [hb] at hb' <;> cases hb' <;> exact hle

/--
An attempt changes its own phase only.
-/
theorem Quiet.update {last now : Int} (h : Quiet s last) (hle : last ≤ now) {t : State} {a : Nat} {phase : Phase}
    (hphases : t.phases = Function.update s.phases a phase)
    (hphase : phase = .ended ∨ phase = .letThrough now ∨ ∃ detail, phase = .refused now detail) : Quiet t now := by
  intro b
  unfold Committed
  rw [hphases]
  by_cases heq : b = a
  . rw [heq, Function.update_self]
    rcases hphase with hphase | hphase | hphase
    . exact .inr (.inl hphase)
    . exact .inr (.inr ⟨now, le_refl now, .inl hphase⟩)
    . exact .inr (.inr ⟨now, le_refl now, .inr hphase⟩)
  . rw [Function.update_of_ne heq]
    exact h.later hle b

/--
The statements of an attempt that has ended before do nothing.
-/
theorem foldl_attempt_of_ended (overrides : Route → Option Int) (attempts : Nat → Attempt) {s : State} {a : Nat}
    (now : Int) (h : s.phases a = .ended ∨ ∃ now, Committed s a now)
    : (attempt a now).foldl (exec overrides attempts) s = s ∧ AllCountAlone overrides attempts s (attempt a now) := by
  rcases h with h | ⟨now', h | ⟨_, h⟩⟩ <;>
    simp [attempt, exec, h, AllCountAlone, CountsAlone]

theorem Quiet.attempt (overrides : Route → Option Int) (attempts : Nat → Attempt) {s : State} {last now : Int}
    (h : Quiet s last) (hle : last ≤ now) (a : Nat)
    : Quiet ((attempt a now).foldl (exec overrides attempts) s) now
      ∧ AllCountAlone overrides attempts s (attempt a now) := by
  rcases h a with hidle | hended | ⟨now', _, hcommitted⟩
  . by_cases hlimit : routeLimit overrides (attempts a).route ≤ 0
    . have hfold : (RateLimit.attempt a now).foldl (exec overrides attempts) s = s.setPhase a .ended := by
        simp [RateLimit.attempt, exec, hidle, hlimit, State.setPhase]
      rw [hfold]
      refine ⟨h.update hle rfl (.inl rfl), ?_⟩
      simp [RateLimit.attempt, AllCountAlone, CountsAlone, exec, hidle, hlimit, State.setPhase]
    . constructor
      . simp only [RateLimit.attempt, List.foldl_cons, List.foldl_nil, exec, hidle, hlimit, if_false, State.setPhase,
          Function.update_self, Function.update_idem]
        split
        . exact h.update hle rfl (.inr (.inr ⟨_, rfl⟩))
        . exact h.update hle rfl (.inr (.inl rfl))
      . simp only [RateLimit.attempt, AllCountAlone, CountsAlone, exec, hidle, hlimit, if_false, State.setPhase,
          Function.update_self, Function.update_idem, true_and, and_true]
        intro now' expired hdeleted
        simp only [Phase.deleted.injEq] at hdeleted
        rw [← hdeleted.left]
        constructor
        . intro b _ _ now'' expired' current
          by_cases heq : b = a
          . simp [heq]
          . rw [Function.update_of_ne heq]
            exact h.not_counted b now'' expired' current
        . intro c now'' _ hc
          by_cases heq : c = a
          . simp [heq] at hc
          . rw [Function.update_of_ne heq] at hc
            exact (h.committed_le hc).trans hle
  . obtain ⟨hfold, halone⟩ := foldl_attempt_of_ended overrides attempts now (.inl hended)
    rw [hfold]
    exact ⟨h.later hle, halone⟩
  . obtain ⟨hfold, halone⟩ := foldl_attempt_of_ended overrides attempts now (.inr ⟨now', hcommitted⟩)
    rw [hfold]
    exact ⟨h.later hle, halone⟩

theorem allCountAlone_append {events rest : List Event} (h : AllCountAlone overrides attempts s events)
    (hrest : AllCountAlone overrides attempts (events.foldl (exec overrides attempts) s) rest)
    : AllCountAlone overrides attempts s (events ++ rest) := by
  induction events generalizing s with
  | nil => exact hrest
  | cons event events ih => exact ⟨h.left, ih h.right hrest⟩

/--
Attempts one after the other, with a clock that does not go back, count alone.
-/
theorem allCountAlone_sequential {last : Int} (h : Quiet s last) (sequence : List (Nat × Int))
    (hclock : (last :: sequence.map Prod.snd).Pairwise (· ≤ ·))
    : AllCountAlone overrides attempts s (sequence.flatMap fun (a, now) => attempt a now) := by
  induction sequence generalizing s last with
  | nil => trivial
  | cons first sequence ih =>
    rw [List.map_cons, List.pairwise_cons] at hclock
    have ⟨hquiet, halone⟩ := h.attempt overrides attempts (hclock.left first.2 List.mem_cons_self) first.1
    exact allCountAlone_append halone (ih hquiet hclock.right)

theorem quiet_initial (last : Int) : Quiet .initial last :=
  fun _ => .inl rfl

def login : Attempt where
  route := .login
  ip := py "203.0.113.7"
  path := py "/auth/login"

/--
Two attempts one after the other.
-/
theorem throttles_twoAttempts
    : Throttles (fun _ => none) (fun _ => login) ([(0, 0), (1, 60000000)].flatMap fun (a, now) => attempt a now) :=
  throttles _ _ _ (allCountAlone_sequential (quiet_initial 0) _ (by decide))

/--
Eleven attempts that all count before the first of them commits.
-/
def elevenLogins : List Event :=
  (List.range 11).flatMap (fun a => [.start a 0, .delete a, .count a]) ++ (List.range 11).map .commit

theorem not_throttles : ¬ ∀ events : List Event, Throttles (fun _ => none) (fun _ => login) events := by
  intro h
  have hbounded := (h elevenLogins).bounded elevenLogins (List.prefix_refl _)
  have hlet : ∀ a ∈ List.range 11,
      ((elevenLogins.foldl (exec (fun _ => none) (fun _ => login)) .initial).phases a).letThroughAt? = some 0 := by
    decide +kernel
  have hle := hbounded .login login.ip 0 (List.range 11) (by decide) List.nodup_range
    (fun a ha => ⟨rfl, rfl, 0, Phase.letThroughAt?_eq_some_iff.mp (hlet a ha), by decide, by decide⟩)
  exact absurd hle (by decide)

end Throttles

end RateLimit
