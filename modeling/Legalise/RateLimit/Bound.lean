import Legalise.RateLimit.Throttle

/-!
This module contains the bound on what is let through in any window, for attempts that count alone.
-/

namespace RateLimit

variable {overrides : Route → Option Int} {attempts : Nat → Attempt} {s : State} {event : Event}

/--
An attempt has committed its row.
-/
def Committed (s : State) (a : Nat) (now : Int) : Prop :=
  s.phases a = .letThrough now ∨ ∃ detail, s.phases a = .refused now detail

/--
An attempt has been let through, or will be if it commits.
-/
def Granted (overrides : Route → Option Int) (attempts : Nat → Attempt) (s : State) (a : Nat) (now : Int) : Prop :=
  s.phases a = .letThrough now
    ∨ ∃ expired current, s.phases a = .counted now expired current
      ∧ (current : Int) < routeLimit overrides (attempts a).route

/--
The rows record committed attempts, and those that are gone were expired for one.
-/
structure Inv (attempts : Nat → Attempt) (s : State) : Prop where
  expired : ∀ a now expired, (s.phases a = .deleted now expired ∨ ∃ current, s.phases a = .counted now expired current)
    → ∀ row ∈ expired, isExpired (attempts a).route now row = true
  kept : ∀ b now, Committed s b now → rowOf attempts b now ∈ s.rows
    ∨ ∃ c now', Committed s c now' ∧ (attempts c).route = (attempts b).route ∧ now < now' - window

theorem inv_initial (attempts : Nat → Attempt) : Inv attempts .initial where
  expired := by
    rintro a now expired (h | ⟨_, h⟩) <;> cases h
  kept := by
    rintro b now (h | ⟨_, h⟩) <;> cases h

/--
An attempt goes on without a commit.
-/
theorem Inv.setPhase (h : Inv attempts s) {a : Nat} {phase : Phase}
    (hbefore : ∀ now, ¬ Committed s a now) (hafter : ∀ now, ¬ Committed (s.setPhase a phase) a now)
    (hexpired : ∀ now expired, (phase = .deleted now expired ∨ ∃ current, phase = .counted now expired current)
      → ∀ row ∈ expired, isExpired (attempts a).route now row = true)
    : Inv attempts (s.setPhase a phase) := by
  have hcommitted (b : Nat) (now : Int) : Committed (s.setPhase a phase) b now ↔ Committed s b now := by
    by_cases heq : b = a
    . rw [heq]
      exact iff_of_false (hafter now) (hbefore now)
    . simp [Committed, State.setPhase, heq]
  constructor
  . intro b now expired hphase
    by_cases heq : b = a
    . subst heq
      simp only [State.setPhase, Function.update_self] at hphase
      exact hexpired now expired hphase
    . simp only [State.setPhase, Function.update_of_ne heq] at hphase
      exact h.expired b now expired hphase
  . intro b now hb
    simp only [hcommitted] at hb ⊢
    exact h.kept b now hb

/--
A commit keeps the rows that have not expired, and adds the one of the attempt.
-/
theorem Inv.commit (h : Inv attempts s) {a : Nat} {now : Int} {expired : List ThrottleEvent} {current : Nat}
    (hphase : s.phases a = .counted now expired current) {t : State} {phase : Phase}
    (hrows : t.rows = s.rows.filter (· ∉ expired) ++ [rowOf attempts a now])
    (hphases : t.phases = Function.update s.phases a phase)
    (hcommits : phase = .letThrough now ∨ ∃ detail, phase = .refused now detail)
    : Inv attempts t := by
  have ha : Committed t a now := by
    unfold Committed
    rw [hphases, Function.update_self]
    exact hcommits
  have hold (b : Nat) (now' : Int) (hb : Committed s b now') : Committed t b now' := by
    have hne : b ≠ a := by
      rintro rfl
      rcases hb with hb | ⟨_, hb⟩ <;> rw [hphase] at hb <;> cases hb
    unfold Committed
    rw [hphases, Function.update_of_ne hne]
    exact hb
  constructor
  . intro b now' expired' hb
    by_cases heq : b = a
    . subst heq
      rw [hphases, Function.update_self] at hb
      rcases hcommits with hcommits | ⟨_, hcommits⟩ <;> rw [hcommits] at hb <;>
        rcases hb with hb | ⟨_, hb⟩ <;> cases hb
    . rw [hphases, Function.update_of_ne heq] at hb
      exact h.expired b now' expired' hb
  . intro b now' hb
    by_cases heq : b = a
    . subst heq
      left
      have hnow : now' = now := by
        unfold Committed at hb
        rw [hphases, Function.update_self] at hb
        rcases hcommits with hcommits | ⟨_, hcommits⟩ <;> rw [hcommits] at hb <;>
          rcases hb with hb | ⟨_, hb⟩ <;> cases hb <;> rfl
      rw [hnow, hrows]
      exact List.mem_append_right _ List.mem_cons_self
    . have hbefore : Committed s b now' := by
        unfold Committed at hb ⊢
        rwa [hphases, Function.update_of_ne heq] at hb
      rcases h.kept b now' hbefore with hrow | ⟨c, now'', hc, hroute, hlt⟩
      . by_cases hexpired : rowOf attempts b now' ∈ expired
        . have := h.expired a now expired (.inr ⟨current, hphase⟩) _ hexpired
          simp only [isExpired_iff, route_rowOf, createdAt_rowOf] at this
          exact .inr ⟨a, now, ha, this.left.symm, this.right⟩
        . left
          rw [hrows]
          exact List.mem_append_left _ (List.mem_filter.mpr ⟨hrow, by simpa using hexpired⟩)
      . exact .inr ⟨c, now'', hold c now'' hc, hroute, hlt⟩

theorem Inv.exec (h : Inv attempts s) (event : Event) : Inv attempts (exec overrides attempts s event) := by
  cases event with
  | start a now =>
    unfold RateLimit.exec
    dsimp only
    split
    . next hphase =>
      split <;>
        exact h.setPhase (by simp [Committed, hphase]) (by simp [Committed, State.setPhase]) (by simp)
    . exact h
  | delete a =>
    unfold RateLimit.exec
    dsimp only
    split
    . next now hphase =>
      refine h.setPhase (by simp [Committed, hphase]) (by simp [Committed, State.setPhase]) ?_
      intro now' expired hdeleted row hrow
      simp only [Phase.deleted.injEq, reduceCtorEq, exists_false, or_false] at hdeleted
      obtain ⟨rfl, rfl⟩ := hdeleted
      exact (List.mem_filter.mp hrow).right
    . exact h
  | count a =>
    unfold RateLimit.exec
    dsimp only
    split
    . next now expired hphase =>
      refine h.setPhase (by simp [Committed, hphase]) (by simp [Committed, State.setPhase]) ?_
      intro now' expired' hcounted
      simp only [reduceCtorEq, Phase.counted.injEq, exists_and_left, exists_eq', and_true, false_or] at hcounted
      obtain ⟨rfl, rfl⟩ := hcounted
      exact h.expired a now expired (.inl hphase)
    . exact h
  | commit a =>
    unfold RateLimit.exec
    dsimp only
    split
    . next now expired current hphase =>
      split
      . exact h.commit hphase rfl rfl (.inr ⟨_, rfl⟩)
      . exact h.commit hphase rfl rfl (.inl rfl)
    . exact h
  | abort a =>
    unfold RateLimit.exec
    dsimp only
    split
    . next hphase => exact h.setPhase (by simp [Committed, hphase]) (by simp [Committed, State.setPhase]) (by simp)
    . next hphase => exact h.setPhase (by simp [Committed, hphase]) (by simp [Committed, State.setPhase]) (by simp)
    . next hphase => exact h.setPhase (by simp [Committed, hphase]) (by simp [Committed, State.setPhase]) (by simp)
    . exact h

/--
The bound, for the attempts that have been let through or will be.
-/
def GrantsBounded (overrides : Route → Option Int) (attempts : Nat → Attempt) (s : State) : Prop :=
  ∀ route ip (t : Int) (as : List Nat), 0 < routeLimit overrides route → as.Nodup
    → (∀ a ∈ as, (attempts a).route = route ∧ (attempts a).ip = ip
      ∧ ∃ now, Granted overrides attempts s a now ∧ t ≤ now ∧ now ≤ t + window)
    → (as.length : Int) ≤ routeLimit overrides route

theorem GrantsBounded.of_granted {s' : State} (h : GrantsBounded overrides attempts s)
    (hgranted : ∀ a now, Granted overrides attempts s' a now → Granted overrides attempts s a now)
    : GrantsBounded overrides attempts s' := by
  intro route ip t as hlimit hnodup hall
  refine h route ip t as hlimit hnodup fun a ha => ?_
  have ⟨hroute, hip, now, hnow, hwindow⟩ := hall a ha
  exact ⟨hroute, hip, now, hgranted a now hnow, hwindow⟩

theorem granted_of_setPhase {a : Nat} {phase : Phase}
    (hphase : ∀ now expired current, phase ≠ .letThrough now ∧ phase ≠ .counted now expired current)
    (b : Nat) (now : Int) (h : Granted overrides attempts (s.setPhase a phase) b now)
    : Granted overrides attempts s b now := by
  by_cases heq : b = a
  . subst heq
    simp only [Granted, State.setPhase, Function.update_self] at h
    rcases h with h | ⟨_, _, h, _⟩
    . exact absurd h (hphase now [] 0).left
    . exact absurd h (hphase now _ _).right
  . simpa [Granted, State.setPhase, heq] using h

/--
Attempts that count alone see all others that have been let through in their window.
-/
theorem GrantsBounded.count (h : GrantsBounded overrides attempts s) (hinv : Inv attempts s) {a : Nat} {now : Int}
    {expired : List ThrottleEvent} (hphase : s.phases a = .deleted now expired)
    (halone : CountsAlone attempts s (.count a))
    : GrantsBounded overrides attempts (s.setPhase a (.counted now expired
        ((s.rows.filter (· ∉ expired)).filter (isCounted (attempts a) now)).length)) := by
  intro route ip t as hlimit hnodup hall
  have hother (b : Nat) (hb : b ∈ as) (hne : b ≠ a) : (attempts b).route = route ∧ (attempts b).ip = ip
      ∧ ∃ now, Granted overrides attempts s b now ∧ t ≤ now ∧ now ≤ t + window := by
    simpa [Granted, State.setPhase, hne] using hall b hb
  by_cases ha : a ∈ as
  . have ⟨hroute, hip, now', hgranted, ht, hnow⟩ := hall a ha
    simp only [Granted, State.setPhase, Function.update_self, reduceCtorEq, Phase.counted.injEq, false_or] at hgranted
    obtain ⟨_, current, ⟨rfl, rfl, hcurrent⟩, hlt⟩ := hgranted
    have ⟨hserial, hclock⟩ := halone now expired hphase
    -- Each of the others has a row that is counted.
    have hsubset : as.erase a ⊆ ((s.rows.filter (· ∉ expired)).filter (isCounted (attempts a) now)).map
        ThrottleEvent.attempt := by
      intro b hb
      have hne : b ≠ a := fun heq => hnodup.not_mem_erase (heq ▸ hb)
      have ⟨hroute', hip', nowb, hgranted, htb, hnowb⟩ := hother b (List.mem_of_mem_erase hb) hne
      have hlet : s.phases b = .letThrough nowb := by
        rcases hgranted with hlet | ⟨expired', current', hcounted, _⟩
        . exact hlet
        . exact absurd hcounted
            (hserial b (hroute'.trans hroute.symm) (hip'.trans hip.symm) nowb expired' current')
      have hrow : rowOf attempts b nowb ∈ s.rows := by
        rcases hinv.kept b nowb (.inl hlet) with hrow | ⟨c, nowc, hc, hroutec, hltc⟩
        . exact hrow
        . have := hclock c nowc (hroutec.trans (hroute'.trans hroute.symm)) hc
          omega
      refine List.mem_map.mpr ⟨rowOf attempts b nowb, List.mem_filter.mpr ⟨List.mem_filter.mpr ⟨hrow, ?_⟩, ?_⟩, rfl⟩
      . simp only [decide_eq_true_eq]
        intro hexpired
        have := hinv.expired a now expired (.inl hphase) _ hexpired
        simp only [isExpired_iff, createdAt_rowOf] at this
        omega
      . rw [isCounted_iff]
        refine ⟨hroute'.trans hroute.symm, hip'.trans hip.symm, ?_⟩
        rw [createdAt_rowOf]
        omega
    have hle := ((hnodup.erase a).subperm hsubset).length_le
    rw [List.length_map, hcurrent] at hle
    have hlength : as.length = (as.erase a).length + 1 := by
      rw [List.length_erase_of_mem ha]
      have := List.length_pos_of_mem ha
      omega
    rw [hroute] at hlt
    omega
  . refine h route ip t as hlimit hnodup fun b hb => hother b hb fun heq => ha (heq ▸ hb)

theorem GrantsBounded.exec (h : GrantsBounded overrides attempts s) (hinv : Inv attempts s)
    (halone : CountsAlone attempts s event) : GrantsBounded overrides attempts (exec overrides attempts s event) := by
  cases event with
  | start a now =>
    unfold RateLimit.exec
    dsimp only
    split
    . split <;> exact h.of_granted (granted_of_setPhase (by simp))
    . exact h
  | delete a =>
    unfold RateLimit.exec
    dsimp only
    split
    . exact h.of_granted (granted_of_setPhase (by simp))
    . exact h
  | count a =>
    unfold RateLimit.exec
    dsimp only
    split
    . next now expired hphase => exact h.count hinv hphase halone
    . exact h
  | commit a =>
    unfold RateLimit.exec
    dsimp only
    split
    . next now expired current hphase =>
      refine h.of_granted fun b nowb hb => ?_
      split at hb
      . by_cases heq : b = a
        . simp [Granted, heq] at hb
        . simpa [Granted, heq] using hb
      . next hlt =>
        by_cases heq : b = a
        . subst heq
          simp only [Granted, Function.update_self, Phase.letThrough.injEq, reduceCtorEq, false_and, exists_false,
            or_false] at hb
          rw [← hb]
          exact .inr ⟨expired, current, hphase, not_le.mp hlt⟩
        . simpa [Granted, heq] using hb
    . exact h
  | abort a =>
    unfold RateLimit.exec
    dsimp only
    split
    . exact h.of_granted (granted_of_setPhase (by simp))
    . exact h.of_granted (granted_of_setPhase (by simp))
    . exact h.of_granted (granted_of_setPhase (by simp))
    . exact h

theorem grantsBounded_initial : GrantsBounded overrides attempts .initial := by
  intro route ip t as hlimit _ hall
  cases as with
  | nil => exact le_of_lt hlimit
  | cons a as =>
    have ⟨_, _, now, hgranted, _⟩ := hall a List.mem_cons_self
    rcases hgranted with h | ⟨_, _, h, _⟩ <;> cases h

theorem bounded_of_grantsBounded (h : GrantsBounded overrides attempts s) : Bounded overrides attempts s := by
  intro route ip t as hlimit hnodup hall
  refine h route ip t as hlimit hnodup fun a ha => ?_
  have ⟨hroute, hip, now, hlet, hwindow⟩ := hall a ha
  exact ⟨hroute, hip, now, .inl hlet, hwindow⟩

theorem countsAlone_of_allCountAlone {events : List Event} (h : AllCountAlone overrides attempts s events)
    {earlier : List Event} (hbegin : earlier ++ [event] <+: events)
    : CountsAlone attempts (earlier.foldl (exec overrides attempts) s) event := by
  induction earlier generalizing s events with
  | nil =>
    obtain ⟨rest, rfl⟩ := hbegin
    exact h.left
  | cons first earlier ih =>
    obtain ⟨rest, rfl⟩ := hbegin
    exact ih h.right ⟨rest, rfl⟩

theorem bounded_of_allCountAlone {events : List Event} (h : AllCountAlone overrides attempts .initial events)
    {earlier : List Event} (hbegin : earlier <+: events)
    : Bounded overrides attempts (earlier.foldl (exec overrides attempts) .initial) := by
  have hinv := @Runs.foldl_invariant State Event (exec overrides attempts)
    (fun s => Inv attempts s ∧ GrantsBounded overrides attempts s) (CountsAlone attempts)
    (fun s event halone ⟨hinv, hgrants⟩ => ⟨hinv.exec event, hgrants.exec hinv halone⟩) .initial
    ⟨inv_initial attempts, grantsBounded_initial⟩ earlier
    (fun before event hbefore => countsAlone_of_allCountAlone h (hbefore.trans hbegin))
  exact bounded_of_grantsBounded hinv.right

end RateLimit
