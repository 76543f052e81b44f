import Legalise.Lib.Except
import Mathlib

/-!
This module contains transactions that read before they take a lock, and that execute their statements under it: what
is committed in any interleaving is what some order of the transactions, one after the other, commits.
-/

namespace SerialLock

variable {S W D E K T : Type}

section Programs

/--
What the transactions do. A statement sees the committed state with the transaction's own writes, and adds writes.
-/
structure Program (S W D E K T : Type) where
  apply : S → W → S
  begins : T → S → Except E D
  key : D → K
  statements : T → D → List (S → Except E (List W))

variable (P : Program S W D E K T)

def Program.view (s : S) (writes : List W) : S :=
  writes.foldl P.apply s

/--
The writes of some statements, if no other transaction commits in between.
-/
def Program.execute (s : S) : List (S → Except E (List W)) → List W → Except E (List W)
  | [], writes => .ok writes
  | statement :: rest, writes => do
    let more ← statement (P.view s writes)
    Program.execute s rest (writes ++ more)

/--
The whole transaction, if it is alone.
-/
def Program.serial (t : T) (s : S) : Except E (D × List W) := do
  let d ← P.begins t s
  let writes ← P.execute s (P.statements t d) []
  return (d, writes)

end Programs

section Interleavings

inductive Phase (S W D E : Type) where
  | started
  | waiting (d : D)
  | running (d : D) (rest : List (S → Except E (List W))) (writes : List W)
  | committed (d : D) (writes : List W)
  | failed (e : E)
  | aborted

structure System (S W D E K T : Type) where
  db : S
  holder : K → Option T
  phase : T → Phase S W D E

/--
A transaction goes on, or it is rolled back.
-/
inductive Action where
  | advance
  | abort

variable [DecidableEq K] [DecidableEq T] (P : Program S W D E K T) (σ : System S W D E K T)

def System.move (t : T) (phase : Phase S W D E) : System S W D E K T :=
  { σ with phase := Function.update σ.phase t phase }

def System.release (k : K) : System S W D E K T :=
  { σ with holder := Function.update σ.holder k none }

def Program.advance (t : T) : System S W D E K T :=
  match σ.phase t with
  | .started =>
    match P.begins t σ.db with
    | .ok d => σ.move t (.waiting d)
    | .error e => σ.move t (.failed e)
  | .waiting d =>
    match σ.holder (P.key d) with
    | some _ => σ
    | none =>
      { σ.move t (.running d (P.statements t d) []) with holder := Function.update σ.holder (P.key d) (some t) }
  | .running d [] writes => { (σ.move t (.committed d writes)).release (P.key d) with db := P.view σ.db writes }
  | .running d (statement :: rest) writes =>
    match statement (P.view σ.db writes) with
    | .ok more => σ.move t (.running d rest (writes ++ more))
    | .error e => (σ.move t (.failed e)).release (P.key d)
  | .committed _ _ => σ
  | .failed _ => σ
  | .aborted => σ

def Program.abort (t : T) : System S W D E K T :=
  match σ.phase t with
  | .started => σ.move t .aborted
  | .waiting _ => σ.move t .aborted
  | .running d _ _ => (σ.move t .aborted).release (P.key d)
  | .committed _ _ => σ
  | .failed _ => σ
  | .aborted => σ

def Program.step : T × Action → System S W D E K T
  | (t, .advance) => P.advance σ t
  | (t, .abort) => P.abort σ t

def initial (s : S) : System S W D E K T where
  db := s
  holder := fun _ => none
  phase := fun _ => .started

def Program.run (s : S) (events : List (T × Action)) : System S W D E K T :=
  events.foldl P.step (initial s)

end Interleavings

section Serial

/--
The transactions of the order, one after the other, commit the writes and lead from one state to the other.
-/
inductive Serial (P : Program S W D E K T) : S → List (T × D × List W) → S → Prop where
  | nil (s : S) : Serial P s [] s
  | concat {s u : S} {order : List (T × D × List W)} {t : T} {d : D} {writes : List W} (before : Serial P s order u)
    (last : P.serial t u = .ok (d, writes)) : Serial P s (order ++ [(t, d, writes)]) (P.view u writes)

variable {P : Program S W D E K T} {I : S → Prop} {s u : S} {order : List (T × D × List W)}

theorem Serial.invariant (h : Serial P s order u)
    (hstep : ∀ s t d writes, I s → P.serial t s = .ok (d, writes) → I (P.view s writes)) (hs : I s) : I u := by
  induction h with
  | nil => exact hs
  | concat before last ih => exact hstep _ _ _ _ ih last

theorem serial_eq_ok_iff {t : T} {d : D} {writes : List W}
    : P.serial t s = .ok (d, writes) ↔ P.begins t s = .ok d ∧ P.execute s (P.statements t d) [] = .ok writes := by
  unfold Program.serial
  simp only [Except.bind_eq_ok_iff, Except.pure_eq_ok_iff, Prod.mk.injEq]
  constructor
  . rintro ⟨d', hbegins, writes', hexecute, rfl, rfl⟩
    exact ⟨hbegins, hexecute⟩
  . rintro ⟨hbegins, hexecute⟩
    exact ⟨d, hbegins, writes, hexecute, rfl, rfl⟩

end Serial

section Invariant

/--
The transaction is in its statements.
-/
def Phase.isRunning : Phase S W D E → Bool
  | .running _ _ _ => true
  | _ => false

/--
The transaction is over.
-/
def Phase.isOver : Phase S W D E → Bool
  | .committed _ _ => true
  | .failed _ => true
  | .aborted => true
  | _ => false

/--
The committed transactions have an order in which they commit the same, one after the other. A failed one fails alone
after some of them as well.
-/
structure Explains (P : Program S W D E K T) (s : S) (σ : System S W D E K T) (order : List (T × D × List W)) : Prop
    where
  serial : Serial P s order σ.db
  nodup : (order.map Prod.fst).Nodup
  committed : ∀ t d writes, (t, d, writes) ∈ order ↔ σ.phase t = .committed d writes
  failed : ∀ t e, σ.phase t = .failed e → ∃ before u, before <+: order ∧ Serial P s before u ∧ P.serial t u = .error e

/--
The holder of the lock is the only transaction that runs, and it goes on as it would alone.
-/
structure Inv (P : Program S W D E K T) (k : K) (s : S) (σ : System S W D E K T) : Prop where
  holder : ∀ t, σ.holder k = some t ↔ (σ.phase t).isRunning = true
  waiting : ∀ t d, σ.phase t = .waiting d → P.begins t σ.db = .ok d
  running : ∀ t d rest writes, σ.phase t = .running d rest writes
    → P.begins t σ.db = .ok d ∧ P.execute σ.db (P.statements t d) [] = P.execute σ.db rest writes
  explained : ∃ order, Explains P s σ order

/--
All transactions take one lock, and what they have read before keeps.
-/
structure OneLock (P : Program S W D E K T) (k : K) (I : S → Prop) : Prop where
  key : ∀ s t d, I s → P.begins t s = .ok d → P.key d = k
  invariant : ∀ s t d writes, I s → P.serial t s = .ok (d, writes) → I (P.view s writes)
  stable : ∀ s t d u d' writes, I s → P.begins t s = .ok d → P.serial u s = .ok (d', writes)
    → P.begins t (P.view s writes) = .ok d

variable {P : Program S W D E K T} {k : K} {I : S → Prop} {s : S} {σ : System S W D E K T}

theorem Inv.holds (h : Inv P k s σ) (hlock : OneLock P k I) (hs : I s) : I σ.db := by
  have ⟨order, hexplains⟩ := h.explained
  exact hexplains.serial.invariant hlock.invariant hs

theorem Inv.running_unique (h : Inv P k s σ) {t u : T} (ht : (σ.phase t).isRunning = true)
    (hu : (σ.phase u).isRunning = true) : t = u :=
  Option.some.inj (((h.holder t).mpr ht).symm.trans ((h.holder u).mpr hu))

/--
A transaction that is not over has no part in the order.
-/
theorem Explains.not_mem {order : List (T × D × List W)} (h : Explains P s σ order) {t : T}
    (ht : (σ.phase t).isOver = false) (d : D) (writes : List W) : (t, d, writes) ∉ order := by
  rw [h.committed]
  intro hcommitted
  rw [hcommitted] at ht
  contradiction

theorem execute_cons (s : S) (statement : S → Except E (List W)) (rest : List (S → Except E (List W)))
    (writes : List W)
    : P.execute s (statement :: rest) writes
        = statement (P.view s writes) >>= fun more => P.execute s rest (writes ++ more) :=
  rfl

theorem inv_initial (s : S) : Inv P k s (initial s) := by
  refine ⟨fun t => ?_, fun t d h => ?_, fun t d rest writes h => ?_, [], .nil s, List.nodup_nil, fun t d writes => ?_, ?_⟩
  . simp [initial, Phase.isRunning]
  . contradiction
  . contradiction
  . simp [initial]
  . intro t e h
    contradiction

variable [DecidableEq T]

theorem phase_move (σ : System S W D E K T) (t u : T) (phase : Phase S W D E)
    : (σ.move t phase).phase u = if u = t then phase else σ.phase u := by
  unfold System.move
  exact Function.update_apply _ _ _ _

/--
A transaction that is not over goes to a phase in which it has not committed.
-/
theorem Explains.move {order : List (T × D × List W)} (h : Explains P s σ order) {t : T} {phase : Phase S W D E}
    {holder : K → Option T} (ht : (σ.phase t).isOver = false) (hphase : ∀ d writes, phase ≠ .committed d writes)
    (hfailed : ∀ e, phase = .failed e → P.serial t σ.db = .error e)
    : Explains P s { σ.move t phase with holder := holder } order := by
  refine ⟨h.serial, h.nodup, fun u d writes => ?_, fun u e hu => ?_⟩
  . by_cases hut : u = t
    . subst hut
      refine iff_of_false (h.not_mem ht d writes) ?_
      rw [phase_move, if_pos rfl]
      exact hphase d writes
    . rw [phase_move, if_neg hut]
      exact h.committed u d writes
  . rw [phase_move] at hu
    split at hu
    . next heq =>
      subst heq
      exact ⟨order, σ.db, List.prefix_refl _, h.serial, hfailed e hu⟩
    . exact h.failed u e hu

/--
A transaction that is not over ends without a commit, and gives the lock back if it has it.
-/
theorem Inv.finish (h : Inv P k s σ) {t : T} {phase : Phase S W D E} {holder : K → Option T}
    (ht : (σ.phase t).isOver = false) (hphase : phase = .aborted ∨ ∃ e, phase = .failed e ∧ P.serial t σ.db = .error e)
    (hholder : holder k = if (σ.phase t).isRunning then none else σ.holder k)
    : Inv P k s { σ.move t phase with holder := holder } := by
  have hnot : phase.isRunning = false ∧ (∀ d, phase ≠ .waiting d) ∧ (∀ d writes, phase ≠ .committed d writes) := by
    rcases hphase with rfl | ⟨e, rfl, _⟩ <;> simp [Phase.isRunning]
  refine ⟨fun u => ?_, fun u d hu => ?_, fun u d rest writes hu => ?_, ?_⟩
  . dsimp only
    rw [hholder, phase_move]
    by_cases hut : u = t
    . subst hut
      rw [if_pos rfl, hnot.left]
      refine iff_of_false ?_ (by simp)
      split
      . simp
      . next hrunning =>
        rw [h.holder u]
        exact hrunning
    . rw [if_neg hut]
      split
      . next hrunning =>
        refine iff_of_false (by simp) fun hu => hut ?_
        exact h.running_unique hu hrunning
      . exact h.holder u
  . rw [phase_move] at hu
    split at hu
    . exact absurd hu (hnot.right.left d)
    . exact h.waiting u d hu
  . rw [phase_move] at hu
    split at hu
    . rw [hu] at hnot
      simp [Phase.isRunning] at hnot
    . exact h.running u d rest writes hu
  . have ⟨order, hexplains⟩ := h.explained
    refine ⟨order, hexplains.move ht hnot.right.right fun e he => ?_⟩
    rcases hphase with rfl | ⟨e', rfl, hserial⟩
    . contradiction
    . cases he
      exact hserial

/--
A commit is the next transaction of the order.
-/
theorem Explains.commit {order : List (T × D × List W)} (h : Explains P s σ order) {t : T} {d : D} {writes : List W}
    {holder : K → Option T} (ht : (σ.phase t).isOver = false) (hserial : P.serial t σ.db = .ok (d, writes))
    : Explains P s { db := P.view σ.db writes, phase := (σ.move t (.committed d writes)).phase, holder := holder }
      (order ++ [(t, d, writes)]) := by
  refine ⟨h.serial.concat hserial, ?_, fun u d' writes' => ?_, fun u e hu => ?_⟩
  . rw [List.map_append, List.map_singleton, List.nodup_append]
    refine ⟨h.nodup, List.nodup_singleton _, ?_⟩
    rintro u hu _ hmem rfl
    rw [List.mem_singleton.mp hmem] at hu
    have ⟨⟨_, d', writes'⟩, hmem, rfl⟩ := List.mem_map.mp hu
    exact h.not_mem ht d' writes' hmem
  . rw [List.mem_append, List.mem_singleton, phase_move]
    by_cases hut : u = t
    . subst hut
      rw [if_pos rfl]
      simp only [h.not_mem ht d' writes', false_or, Prod.mk.injEq, true_and, Phase.committed.injEq]
      exact ⟨fun ⟨hd, hw⟩ => ⟨hd.symm, hw.symm⟩, fun ⟨hd, hw⟩ => ⟨hd.symm, hw.symm⟩⟩
    . rw [if_neg hut, ← h.committed]
      simp [hut]
  . rw [phase_move] at hu
    split at hu
    . contradiction
    . have ⟨before, u', hbefore, hrest⟩ := h.failed u e hu
      exact ⟨before, u', hbefore.trans (List.prefix_append _ _), hrest⟩

variable [DecidableEq K]

theorem inv_abort (hlock : OneLock P k I) (hs : I s) (h : Inv P k s σ) (t : T) : Inv P k s (P.abort σ t) := by
  have hdb := h.holds hlock hs
  unfold Program.abort
  split
  . next hphase => exact h.finish (by rw [hphase]; rfl) (.inl rfl) (by rw [hphase]; rfl)
  . next hphase => exact h.finish (by rw [hphase]; rfl) (.inl rfl) (by rw [hphase]; rfl)
  . next d rest writes hphase =>
    have hkey := hlock.key _ t d hdb (h.running t d rest writes hphase).left
    refine h.finish (by rw [hphase]; rfl) (.inl rfl) ?_
    rw [hphase, hkey, Function.update_self]
    rfl
  . exact h
  . exact h
  . exact h

theorem inv_advance (hlock : OneLock P k I) (hs : I s) (h : Inv P k s σ) (t : T) : Inv P k s (P.advance σ t) := by
  have hdb := h.holds hlock hs
  have ⟨order, hexplains⟩ := h.explained
  unfold Program.advance
  split
  . next hphase =>
    have hover : (σ.phase t).isOver = false := by rw [hphase]; rfl
    split
    . next d hbegins =>
      refine ⟨fun u => ?_, fun u d' hu => ?_, fun u d' rest writes hu => ?_, order, ?_⟩
      . rw [phase_move]
        refine (h.holder u).trans ?_
        split
        . next heq =>
          subst heq
          rw [hphase]
          exact Iff.rfl
        . exact Iff.rfl
      . rw [phase_move] at hu
        split at hu
        . next heq =>
          cases hu
          subst heq
          exact hbegins
        . exact h.waiting u d' hu
      . rw [phase_move] at hu
        split at hu
        . contradiction
        . exact h.running u d' rest writes hu
      . exact hexplains.move hover (by simp) (by simp)
    . next e hbegins =>
      refine h.finish hover (.inr ⟨e, rfl, ?_⟩) (by rw [hphase]; rfl)
      unfold Program.serial
      rw [hbegins]
      rfl
  . next d hphase =>
    have hover : (σ.phase t).isOver = false := by rw [hphase]; rfl
    have hbegins := h.waiting t d hphase
    have hkey := hlock.key _ t d hdb hbegins
    split
    . exact h
    . next hfree =>
      rw [hkey] at hfree ⊢
      have hnone : ∀ u, (σ.phase u).isRunning = false := by
        intro u
        rw [← Bool.not_eq_true, ← h.holder u, hfree]
        simp
      refine ⟨fun u => ?_, fun u d' hu => ?_, fun u d' rest writes hu => ?_, order, ?_⟩
      . dsimp only
        rw [Function.update_self, phase_move, Option.some.injEq]
        split
        . next heq => exact iff_of_true heq.symm rfl
        . next hne => exact iff_of_false (Ne.symm hne) (by rw [hnone u]; simp)
      . rw [phase_move] at hu
        split at hu
        . contradiction
        . exact h.waiting u d' hu
      . rw [phase_move] at hu
        split at hu
        . next heq =>
          cases hu
          subst heq
          exact ⟨hbegins, rfl⟩
        . exact h.running u d' rest writes hu
      . exact hexplains.move hover (by simp) (by simp)
  . next d writes hphase =>
    have hover : (σ.phase t).isOver = false := by rw [hphase]; rfl
    have ⟨hbegins, hexecute⟩ := h.running t d [] writes hphase
    have hkey := hlock.key _ t d hdb hbegins
    have hserial : P.serial t σ.db = .ok (d, writes) := serial_eq_ok_iff.mpr ⟨hbegins, hexecute⟩
    have hrunning : (σ.phase t).isRunning = true := by rw [hphase]; rfl
    have hother {u : T} (hne : u ≠ t) : (σ.phase u).isRunning = false := by
      rw [← Bool.not_eq_true]
      exact fun hu => hne (h.running_unique hu hrunning)
    refine ⟨fun u => ?_, fun u d' hu => ?_, fun u d' rest writes' hu => ?_, _, hexplains.commit hover hserial⟩
    . unfold System.release
      dsimp only
      rw [hkey, Function.update_self, phase_move]
      refine iff_of_false (by simp) ?_
      split
      . simp [Phase.isRunning]
      . next hne => simp [hother hne]
    . unfold System.release at hu
      dsimp only at hu
      rw [phase_move] at hu
      split at hu
      . contradiction
      . exact hlock.stable _ u d' t d writes hdb (h.waiting u d' hu) hserial
    . unfold System.release at hu
      dsimp only at hu
      rw [phase_move] at hu
      split at hu
      . contradiction
      . next hne =>
        have := hother hne
        rw [hu] at this
        contradiction
  . next d statement rest writes hphase =>
    have hover : (σ.phase t).isOver = false := by rw [hphase]; rfl
    have ⟨hbegins, hexecute⟩ := h.running t d (statement :: rest) writes hphase
    have hkey := hlock.key _ t d hdb hbegins
    rw [execute_cons] at hexecute
    split
    . next more hstatement =>
      rw [hstatement] at hexecute
      refine ⟨fun u => ?_, fun u d' hu => ?_, fun u d' rest' writes' hu => ?_, order, ?_⟩
      . rw [phase_move]
        refine (h.holder u).trans ?_
        split
        . next heq =>
          subst heq
          rw [hphase]
          exact Iff.rfl
        . exact Iff.rfl
      . rw [phase_move] at hu
        split at hu
        . contradiction
        . exact h.waiting u d' hu
      . rw [phase_move] at hu
        split at hu
        . next heq =>
          cases hu
          subst heq
          exact ⟨hbegins, hexecute⟩
        . exact h.running u d' rest' writes' hu
      . exact hexplains.move hover (by simp) (by simp)
    . next e hstatement =>
      rw [hstatement] at hexecute
      refine h.finish hover (.inr ⟨e, rfl, ?_⟩) ?_
      . unfold Program.serial
        rw [hbegins]
        simp only [bind, Except.bind]
        rw [hexecute]
        rfl
      . rw [hphase, hkey, Function.update_self]
        rfl
  . exact h
  . exact h
  . exact h

theorem inv_run (hlock : OneLock P k I) (hs : I s) (events : List (T × Action)) : Inv P k s (P.run s events) := by
  induction events using List.reverseRecOn with
  | nil => exact inv_initial s
  | append_singleton events event ih =>
    have hstep : P.run s (events ++ [event]) = P.step (P.run s events) event := by
      unfold Program.run
      rw [List.foldl_append]
      rfl
    rw [hstep]
    obtain ⟨t, action⟩ := event
    cases action with
    | advance => exact inv_advance hlock hs ih t
    | abort => exact inv_abort hlock hs ih t

/--
Whatever the interleaving, the committed state is that of the committed transactions one after the other in some order.
-/
theorem explains_run (hlock : OneLock P k I) (hs : I s) (events : List (T × Action))
    : ∃ order, Explains P s (P.run s events) order :=
  (inv_run hlock hs events).explained

end Invariant

end SerialLock
