import Legalise.Lib.Traced

/-!
This module contains the session of one request: rows are pending until a query flushes them, flushed rows
lock their scopes until the transaction ends, and a row that is written on another connection waits for
the lock of its scope.
-/

namespace LockingSession

variable {ρ σ τ : Type}

/--
`sent` records what has left for elsewhere, and stays whatever becomes of the transaction.
-/
inductive Command (ρ τ : Type) where
  | add (row : ρ)
  | query
  | commit
  | rollback
  | outOfBand (row : ρ)
  | send (call : τ)

/--
`waiting` is set if the request waits for a lock that it holds itself, which is for ever.
-/
structure Session (ρ τ : Type) where
  pending : List ρ
  flushed : List ρ
  committed : List ρ
  sent : List τ
  waiting : Bool

namespace Session

def fresh : Session ρ τ where
  pending := []
  flushed := []
  committed := []
  sent := []
  waiting := false

section Scopes

variable [DecidableEq σ] (scope : ρ → Option σ)

/--
The session holds the lock that the row needs.
-/
def holds (s : Session ρ τ) (row : ρ) : Bool :=
  match scope row with
  | none => false
  | some needed => s.flushed.any fun held => scope held = some needed

def exec (s : Session ρ τ) (command : Command ρ τ) : Session ρ τ :=
  if s.waiting then s
  else
    match command with
    | .add row => { s with pending := s.pending ++ [row] }
    | .query => { s with flushed := s.flushed ++ s.pending, pending := [] }
    | .commit => { s with committed := s.committed ++ (s.flushed ++ s.pending), flushed := [], pending := [] }
    | .rollback => { s with flushed := [], pending := [] }
    | .outOfBand row =>
      if s.holds scope row then { s with waiting := true }
      else { s with committed := s.committed ++ [row] }
    | .send call => { s with sent := s.sent ++ [call] }

def run (s : Session ρ τ) (commands : List (Command ρ τ)) : Session ρ τ :=
  commands.foldl (exec scope) s

/--
The session is closed: what is not committed is rolled back.
-/
def close (s : Session ρ τ) : Session ρ τ :=
  s.exec scope .rollback

/--
No command of the trace makes the request wait for itself.
-/
def Safe (s : Session ρ τ) : List (Command ρ τ) → Prop
  | [] => True
  | command :: commands =>
    (∀ row, command = .outOfBand row → s.holds scope row = false) ∧ (s.exec scope command).Safe commands

end Scopes

section Lemmas

variable [DecidableEq σ] {scope : ρ → Option σ} {s : Session ρ τ}

@[simp]
theorem run_nil : s.run scope [] = s := rfl

@[simp]
theorem run_cons (command : Command ρ τ) (commands : List (Command ρ τ))
    : s.run scope (command :: commands) = (s.exec scope command).run scope commands := rfl

theorem run_append (commands rest : List (Command ρ τ))
    : s.run scope (commands ++ rest) = (s.run scope commands).run scope rest :=
  List.foldl_append

theorem exec_add (hs : s.waiting = false) (row : ρ)
    : s.exec scope (.add row) = { s with pending := s.pending ++ [row] } := by
  simp [exec, hs]

theorem exec_query (hs : s.waiting = false)
    : s.exec scope .query = { s with flushed := s.flushed ++ s.pending, pending := [] } := by
  simp [exec, hs]

theorem exec_commit (hs : s.waiting = false)
    : s.exec scope .commit
        = { s with committed := s.committed ++ (s.flushed ++ s.pending), flushed := [], pending := [] } := by
  simp [exec, hs]

theorem exec_send (hs : s.waiting = false) (call : τ)
    : s.exec scope (.send call) = { s with sent := s.sent ++ [call] } := by
  simp [exec, hs]

@[simp]
theorem safe_nil : s.Safe scope [] := trivial

@[simp]
theorem safe_cons (command : Command ρ τ) (commands : List (Command ρ τ))
    : s.Safe scope (command :: commands)
        ↔ (∀ row, command = .outOfBand row → s.holds scope row = false)
          ∧ (s.exec scope command).Safe scope commands := Iff.rfl

theorem safe_append {commands rest : List (Command ρ τ)}
    : s.Safe scope (commands ++ rest) ↔ s.Safe scope commands ∧ (s.run scope commands).Safe scope rest := by
  induction commands generalizing s with
  | nil => simp
  | cons command commands ih => rw [List.cons_append, safe_cons, safe_cons, ih, run_cons, and_assoc]

/--
A trace is safe exactly if at every write on another connection the lock is free.
-/
theorem safe_iff {commands : List (Command ρ τ)}
    : s.Safe scope commands
        ↔ ∀ earlier row, earlier ++ [.outOfBand row] <+: commands
          → (s.run scope earlier).holds scope row = false := by
  induction commands generalizing s with
  | nil => simp
  | cons command commands ih =>
    rw [safe_cons, ih]
    constructor
    . rintro ⟨hfirst, hrest⟩ earlier row hbegin
      cases earlier with
      | nil =>
        rw [List.nil_append, List.cons_prefix_cons] at hbegin
        exact hfirst row hbegin.left.symm
      | cons other earlier =>
        rw [List.cons_append, List.cons_prefix_cons] at hbegin
        rw [hbegin.left]
        exact hrest earlier row hbegin.right
    . intro h
      refine ⟨fun row hrow => h [] row ?_, fun earlier row hbegin => ?_⟩
      . rw [List.nil_append, List.cons_prefix_cons]
        exact ⟨hrow.symm, List.nil_prefix⟩
      . refine h (command :: earlier) row ?_
        rw [List.cons_append, List.cons_prefix_cons]
        exact ⟨rfl, hbegin⟩

/--
A safe trace never waits.
-/
theorem waiting_run (hs : s.waiting = false) {commands : List (Command ρ τ)} (h : s.Safe scope commands)
    : (s.run scope commands).waiting = false := by
  induction commands generalizing s with
  | nil => exact hs
  | cons command commands ih =>
    rw [safe_cons] at h
    refine ih ?_ h.right
    unfold exec
    rw [hs]
    cases command with
    | outOfBand row => simp [h.left row rfl]
    | _ => rfl

/--
A row that is added right before a commit is committed.
-/
theorem mem_committed_add_commit (hs : s.waiting = false) (row : ρ)
    : row ∈ (s.run scope [.add row, .commit]).committed := by
  simp [run_cons, exec, hs]

end Lemmas

section Quiet

variable [DecidableEq σ] {scope : ρ → Option σ} {s : Session ρ τ}

/--
The commands neither end the transaction nor write on another connection.
-/
def Quiet (commands : List (Command ρ τ)) : Prop :=
  ∀ command ∈ commands,
    match command with
    | .add _ | .query | .send _ => True
    | .commit | .rollback | .outOfBand _ => False

@[simp]
theorem quiet_nil : Quiet ([] : List (Command ρ τ)) := by
  simp [Quiet]

theorem quiet_append {commands rest : List (Command ρ τ)}
    : Quiet (commands ++ rest) ↔ Quiet commands ∧ Quiet rest := by
  unfold Quiet
  rw [List.forall_mem_append]

@[simp]
theorem quiet_add_cons {row : ρ} {commands : List (Command ρ τ)} : Quiet (.add row :: commands) ↔ Quiet commands := by
  simp [Quiet]

@[simp]
theorem quiet_query_cons {commands : List (Command ρ τ)} : Quiet (.query :: commands) ↔ Quiet commands := by
  simp [Quiet]

@[simp]
theorem quiet_send_cons {call : τ} {commands : List (Command ρ τ)}
    : Quiet (.send call :: commands) ↔ Quiet commands := by
  simp [Quiet]

@[simp]
theorem not_quiet_commit_cons {commands : List (Command ρ τ)} : ¬ Quiet (.commit :: commands) := by
  simp [Quiet]

@[simp]
theorem not_quiet_outOfBand_cons {row : ρ} {commands : List (Command ρ τ)}
    : ¬ Quiet (.outOfBand row :: commands) := by
  simp [Quiet]

/--
What a quiet trace leaves: nothing is committed, and what is flushed stays flushed.
-/
structure Undisturbed (s t : Session ρ τ) : Prop where
  waiting : t.waiting = false
  committed : t.committed = s.committed
  flushed : s.flushed ⊆ t.flushed
  uncommitted : s.flushed ++ s.pending ⊆ t.flushed ++ t.pending

theorem Undisturbed.refl (hs : s.waiting = false) : Undisturbed s s :=
  ⟨hs, rfl, List.Subset.refl _, List.Subset.refl _⟩

theorem Undisturbed.trans {t u : Session ρ τ} (h : Undisturbed s t) (hnext : Undisturbed t u) : Undisturbed s u :=
  ⟨hnext.waiting, hnext.committed.trans h.committed, List.Subset.trans h.flushed hnext.flushed,
    List.Subset.trans h.uncommitted hnext.uncommitted⟩

variable (scope) in
theorem undisturbed_add (hs : s.waiting = false) (row : ρ) : Undisturbed s (s.exec scope (.add row)) := by
  rw [exec_add hs]
  refine ⟨hs, rfl, List.Subset.refl _, ?_⟩
  rw [← List.append_assoc]
  exact List.subset_append_left _ _

variable (scope) in
theorem undisturbed_query (hs : s.waiting = false) : Undisturbed s (s.exec scope .query) := by
  rw [exec_query hs]
  refine ⟨hs, rfl, List.subset_append_left _ _, ?_⟩
  rw [List.append_nil]
  exact List.Subset.refl _

variable (scope) in
theorem undisturbed_send (hs : s.waiting = false) (call : τ) : Undisturbed s (s.exec scope (.send call)) := by
  rw [exec_send hs]
  exact ⟨hs, rfl, List.Subset.refl _, List.Subset.refl _⟩

variable (scope) in
theorem undisturbed_run (hs : s.waiting = false) {commands : List (Command ρ τ)} (h : Quiet commands)
    : Undisturbed s (s.run scope commands) := by
  induction commands generalizing s with
  | nil => exact .refl hs
  | cons command commands ih =>
    cases command with
    | add row =>
      have hfirst := undisturbed_add scope hs row
      exact hfirst.trans (ih hfirst.waiting (quiet_add_cons.mp h))
    | query =>
      have hfirst := undisturbed_query scope hs
      exact hfirst.trans (ih hfirst.waiting (quiet_query_cons.mp h))
    | send call =>
      have hfirst := undisturbed_send scope hs call
      exact hfirst.trans (ih hfirst.waiting (quiet_send_cons.mp h))
    | commit => exact absurd h not_quiet_commit_cons
    | outOfBand row => exact absurd h not_quiet_outOfBand_cons
    | rollback => simp [Quiet] at h

/--
Nothing is written on another connection.
-/
def SameConnection (commands : List (Command ρ τ)) : Prop :=
  ∀ row, Command.outOfBand row ∉ commands

@[simp]
theorem sameConnection_nil : SameConnection ([] : List (Command ρ τ)) := by
  simp [SameConnection]

theorem sameConnection_append {commands rest : List (Command ρ τ)}
    : SameConnection (commands ++ rest) ↔ SameConnection commands ∧ SameConnection rest := by
  simp only [SameConnection, List.mem_append, not_or, forall_and]

theorem Quiet.sameConnection {commands : List (Command ρ τ)} (h : Quiet commands) : SameConnection commands :=
  fun _ hmem => (h _ hmem).elim

theorem safe_of_sameConnection {commands : List (Command ρ τ)} (h : SameConnection commands)
    : s.Safe scope commands := by
  rw [safe_iff]
  intro earlier row hbegin
  exact absurd (hbegin.subset (List.mem_append_right _ (List.mem_singleton_self _))) (h row)

/--
A session holds the lock of a scope exactly if it has flushed a row of this scope.
-/
theorem holds_iff {row : ρ} {needed : σ} (hrow : scope row = some needed)
    : s.holds scope row = true ↔ ∃ held ∈ s.flushed, scope held = some needed := by
  unfold holds
  rw [hrow]
  simp

/--
A row that is added in a quiet trace is not yet committed after it.
-/
theorem mem_uncommitted_run (hs : s.waiting = false) {commands : List (Command ρ τ)} (h : Quiet commands) {row : ρ}
    (hadd : Command.add row ∈ commands) : row ∈ (s.run scope commands).flushed ++ (s.run scope commands).pending := by
  have ⟨before, after, heq⟩ := List.append_of_mem hadd
  rw [heq, quiet_append, quiet_add_cons] at h
  rw [heq, run_append, run_cons]
  have hbefore := undisturbed_run scope hs h.left
  have hafter := undisturbed_run scope (undisturbed_add scope hbefore.waiting row).waiting h.right
  refine hafter.uncommitted ?_
  rw [exec_add hbefore.waiting]
  simp

/--
The commands only read and send.
-/
def Reads (commands : List (Command ρ τ)) : Prop :=
  ∀ command ∈ commands,
    match command with
    | .query | .send _ => True
    | .add _ | .commit | .rollback | .outOfBand _ => False

@[simp]
theorem reads_nil : Reads ([] : List (Command ρ τ)) := by
  simp [Reads]

theorem reads_append {commands rest : List (Command ρ τ)} : Reads (commands ++ rest) ↔ Reads commands ∧ Reads rest := by
  unfold Reads
  rw [List.forall_mem_append]

@[simp]
theorem reads_query_cons {commands : List (Command ρ τ)} : Reads (.query :: commands) ↔ Reads commands := by
  simp [Reads]

@[simp]
theorem reads_send_cons {call : τ} {commands : List (Command ρ τ)}
    : Reads (.send call :: commands) ↔ Reads commands := by
  simp [Reads]

theorem Reads.quiet {commands : List (Command ρ τ)} (h : Reads commands) : Quiet commands := by
  intro command hmem
  have hreads := h command hmem
  cases command <;> trivial

/--
Once nothing is pending, commands that only read take no further lock.
-/
theorem run_of_reads (hs : s.waiting = false) (hpending : s.pending = []) {commands : List (Command ρ τ)}
    (h : Reads commands) : ∃ sent, s.run scope commands = { s with sent := sent } := by
  induction commands generalizing s with
  | nil => exact ⟨s.sent, rfl⟩
  | cons command commands ih =>
    rw [run_cons]
    cases command with
    | query =>
      obtain ⟨sent, hrun⟩ := @ih (s.exec scope .query) (by simp [exec_query hs, hs]) (by simp [exec_query hs])
        (reads_query_cons.mp h)
      refine ⟨sent, ?_⟩
      rw [hrun, exec_query hs, hpending, List.append_nil]
    | send call =>
      obtain ⟨sent, hrun⟩ := @ih (s.exec scope (.send call)) (by simp [exec_send hs, hs])
        (by simp [exec_send hs, hpending]) (reads_send_cons.mp h)
      refine ⟨sent, ?_⟩
      rw [hrun, exec_send hs]
    | _ => simp [Reads] at h

/--
A trace that begins with a query, only reads and adds a row at its end leaves this row pending.
-/
theorem run_query_reads_add (hs : s.waiting = false) {commands : List (Command ρ τ)} (h : Reads commands) (row : ρ)
    : ∃ sent, s.run scope (.query :: (commands ++ [.add row]))
        = { s with flushed := s.flushed ++ s.pending, pending := [row], sent := sent } := by
  obtain ⟨sent, hrun⟩ := @run_of_reads _ _ _ _ scope (s.exec scope .query) (by simp [exec_query hs, hs])
    (by simp [exec_query hs]) _ h
  refine ⟨sent, ?_⟩
  rw [run_cons, run_append, hrun, exec_query hs]
  simp [exec, hs]

/--
A row that has not been committed is in the scope.
-/
def Uncommitted (scope : ρ → Option σ) (s : Session ρ τ) (needed : σ) : Prop :=
  ∃ row ∈ s.flushed ++ s.pending, scope row = some needed

/--
The session neither waits nor has any row that is not committed.
-/
structure Idle (s : Session ρ τ) : Prop where
  waiting : s.waiting = false
  flushed : s.flushed = []
  pending : s.pending = []

theorem idle_fresh : (fresh : Session ρ τ).Idle := ⟨rfl, rfl, rfl⟩

omit [DecidableEq σ] in
theorem Idle.not_uncommitted (h : s.Idle) (needed : σ) : ¬ Uncommitted scope s needed := by
  rintro ⟨row, hrow, _⟩
  rw [h.flushed, h.pending] at hrow
  cases hrow

theorem Idle.holds_eq_false (h : s.Idle) (row : ρ) : s.holds scope row = false := by
  unfold holds
  rw [h.flushed]
  cases scope row <;> rfl

theorem Idle.run_of_reads (h : s.Idle) {commands : List (Command ρ τ)} (hreads : Reads commands)
    : (s.run scope commands).Idle := by
  obtain ⟨sent, hrun⟩ := @Session.run_of_reads _ _ _ _ scope s h.waiting h.pending _ hreads
  rw [hrun]
  exact ⟨h.waiting, h.flushed, h.pending⟩

/--
An idle session may write on another connection, and is idle after it.
-/
theorem Idle.exec_outOfBand (h : s.Idle) (row : ρ) : (s.exec scope (.outOfBand row)).Idle := by
  unfold exec
  rw [if_neg (by simp [h.waiting])]
  dsimp only
  rw [if_neg (by simp [h.holds_eq_false])]
  exact ⟨h.waiting, h.flushed, h.pending⟩

theorem idle_commit (hs : s.waiting = false) : (s.exec scope .commit).Idle := by
  rw [exec_commit hs]
  exact ⟨hs, rfl, rfl⟩

/--
A row that is written on another connection, right after a trace that begins with a query and only reads, is
stopped by every row of its scope that has not been committed.
-/
theorem safe_query_reads_outOfBand_iff (hs : s.waiting = false) {commands : List (Command ρ τ)} (h : Reads commands)
    {row : ρ} {needed : σ} (hrow : scope row = some needed)
    : s.Safe scope (.query :: (commands ++ [.outOfBand row])) ↔ ¬ Uncommitted scope s needed := by
  rw [safe_cons, safe_append]
  have hquery : (s.exec scope .query).waiting = false := (undisturbed_query scope hs).waiting
  have hflushed : ((s.exec scope .query).run scope commands).flushed = s.flushed ++ s.pending := by
    obtain ⟨_, hrun⟩ := @run_of_reads _ _ _ _ scope (s.exec scope .query) hquery (by rw [exec_query hs]) _ h
    rw [hrun, exec_query hs]
  have hholds : ((s.exec scope .query).run scope commands).holds scope row = true ↔ Uncommitted scope s needed := by
    rw [holds_iff hrow, hflushed]
    rfl
  constructor
  . intro hsafe huncommitted
    have hfree := hsafe.right.right.left row rfl
    rw [hholds.mpr huncommitted] at hfree
    cases hfree
  . intro hfree
    refine ⟨by simp, safe_of_sameConnection h.quiet.sameConnection, ?_⟩
    refine ⟨fun other heq => ?_, trivial⟩
    cases heq
    exact Bool.eq_false_iff.mpr fun hheld => hfree (hholds.mp hheld)

end Quiet

section Locks

variable {scope : ρ → Option σ} {s t : Session ρ τ}

/--
The locks that some rows need.
-/
def locks (scope : ρ → Option σ) (rows : List ρ) : Set σ :=
  {needed | ∃ row ∈ rows, scope row = some needed}

theorem locks_append (rows more : List ρ) : locks scope (rows ++ more) = locks scope rows ∪ locks scope more := by
  ext needed
  simp [locks, or_and_right, exists_or]

theorem locks_singleton (row : ρ) : locks scope [row] = {needed | scope row = some needed} := by
  ext needed
  simp [locks]

/--
The sessions hold the same locks, and their pending rows need the same.
-/
structure SameLocks (scope : ρ → Option σ) (s t : Session ρ τ) : Prop where
  waiting : s.waiting = t.waiting
  flushed : locks scope s.flushed = locks scope t.flushed
  pending : locks scope s.pending = locks scope t.pending

theorem SameLocks.uncommitted_iff (h : SameLocks scope s t) (needed : σ)
    : Uncommitted scope s needed ↔ Uncommitted scope t needed := by
  have hlocks : locks scope (s.flushed ++ s.pending) = locks scope (t.flushed ++ t.pending) := by
    rw [locks_append, locks_append, h.flushed, h.pending]
  exact Set.ext_iff.mp hlocks needed

variable [DecidableEq σ]

theorem SameLocks.holds_eq (h : SameLocks scope s t) (row : ρ) : s.holds scope row = t.holds scope row := by
  cases hrow : scope row with
  | none => simp [holds, hrow]
  | some needed =>
    rw [Bool.eq_iff_iff, holds_iff hrow, holds_iff hrow]
    exact Set.ext_iff.mp h.flushed needed

theorem SameLocks.exec (h : SameLocks scope s t) (command : Command ρ τ)
    : SameLocks scope (s.exec scope command) (t.exec scope command) := by
  unfold Session.exec
  rw [← h.waiting]
  split
  . exact h
  . cases command with
    | add row => exact ⟨rfl, h.flushed, by rw [locks_append, locks_append, h.pending]⟩
    | query => exact ⟨rfl, by rw [locks_append, locks_append, h.flushed, h.pending], rfl⟩
    | commit => exact ⟨rfl, rfl, rfl⟩
    | rollback => exact ⟨rfl, rfl, rfl⟩
    | outOfBand row =>
      dsimp only
      rw [h.holds_eq row]
      split
      . exact ⟨rfl, h.flushed, h.pending⟩
      . exact ⟨rfl, h.flushed, h.pending⟩
    | send call => exact ⟨rfl, h.flushed, h.pending⟩

theorem SameLocks.run (h : SameLocks scope s t) (commands : List (Command ρ τ))
    : SameLocks scope (s.run scope commands) (t.run scope commands) := by
  induction commands generalizing s t with
  | nil => exact h
  | cons command commands ih => exact ih (h.exec command)

/--
Whether a trace waits depends on the locks only.
-/
theorem SameLocks.safe_iff (h : SameLocks scope s t) (commands : List (Command ρ τ))
    : s.Safe scope commands ↔ t.Safe scope commands := by
  induction commands generalizing s t with
  | nil => exact Iff.rfl
  | cons command commands ih =>
    rw [safe_cons, safe_cons, ih (h.exec command)]
    simp only [h.holds_eq]

end Locks

section Confined

variable {P : ρ → Prop}

/--
The command writes no rows but those of a kind, and sends nothing.
-/
def Confined (P : ρ → Prop) : Command ρ τ → Prop
  | .add row => P row
  | .outOfBand row => P row
  | .send _ => False
  | .query | .commit | .rollback => True

/--
A session that holds rows of a kind only, and has sent nothing.
-/
structure Holds (P : ρ → Prop) (s : Session ρ τ) : Prop where
  pending : ∀ row ∈ s.pending, P row
  flushed : ∀ row ∈ s.flushed, P row
  committed : ∀ row ∈ s.committed, P row
  sent : s.sent = []

theorem holds_fresh (P : ρ → Prop) : (fresh : Session ρ τ).Holds P :=
  ⟨by simp [fresh], by simp [fresh], by simp [fresh], rfl⟩

variable [DecidableEq σ] {scope : ρ → Option σ} {s : Session ρ τ}

theorem Holds.exec (h : s.Holds P) {command : Command ρ τ} (hcommand : Confined P command)
    : (s.exec scope command).Holds P := by
  unfold Session.exec
  split
  . exact h
  . cases command with
    | add row =>
      refine ⟨?_, h.flushed, h.committed, h.sent⟩
      exact List.forall_mem_append.mpr ⟨h.pending, List.forall_mem_singleton.mpr hcommand⟩
    | query => exact ⟨by simp, List.forall_mem_append.mpr ⟨h.flushed, h.pending⟩, h.committed, h.sent⟩
    | commit =>
      refine ⟨by simp, by simp, ?_, h.sent⟩
      exact List.forall_mem_append.mpr ⟨h.committed, List.forall_mem_append.mpr ⟨h.flushed, h.pending⟩⟩
    | rollback => exact ⟨by simp, by simp, h.committed, h.sent⟩
    | outOfBand row =>
      dsimp only
      split
      . exact ⟨h.pending, h.flushed, h.committed, h.sent⟩
      . exact ⟨h.pending, h.flushed,
          List.forall_mem_append.mpr ⟨h.committed, List.forall_mem_singleton.mpr hcommand⟩, h.sent⟩
    | send call => exact hcommand.elim

theorem Holds.run (h : s.Holds P) {commands : List (Command ρ τ)} (hcommands : ∀ command ∈ commands, Confined P command)
    : (s.run scope commands).Holds P := by
  induction commands generalizing s with
  | nil => exact h
  | cons command commands ih =>
    rw [List.forall_mem_cons] at hcommands
    rw [run_cons]
    exact ih (h.exec hcommands.left) hcommands.right

end Confined

end Session

end LockingSession
