import FieldEngine.Proofs.Scheduler.Turns

/-!
# Turns and runs

A turn counts and stops in its own way, yet it comes to what a run of the machine comes to, with the
quota as the limit (`Machine.run_eq`). Turns and runs can be cut anywhere: a longer one is the
shorter one, and then the rest if that still runs (`Machine.turn_add`, `Machine.run_add`). So an
instance that is alone in its scheduler has run for `n * quota` steps after `n` ticks, wherever the
ticks cut them (`Scheduler.outcome_single`), and the quota does not matter for where it comes to
rest (`Scheduler.rest_withQuota`).
-/

namespace FieldEngine

/-! ## A turn is a run -/

/-- The status in which a run leaves an instance. -/
def Status.ofRun (outcome : Except Fault (Step × Nat)) : Status :=
  .ofStep (outcome.map Prod.fst)

/-- What a turn comes to, told as a run is. -/
def Turn.asRun (turn : Turn) : Except Fault (Step × Nat) × ExecState :=
  match turn.status with
  | .running => (.ok (.continue, turn.executed), turn.state)
  | .suspended reason => (.ok (.suspend reason, turn.executed), turn.state)
  | .halted => (.ok (.halt, turn.executed), turn.state)
  | .faulted fault => (.error fault, turn.state)

/-- The turn does what a run with this result does: it leaves the same state, ends in the status of
the outcome and reports it last, and counts as many instructions, unless the run faults and counts
none. -/
structure Turn.Does (turn : Turn) (id : Nat) (result : Except Fault (Step × Nat) × ExecState) :
    Prop where
  state : turn.state = result.2
  status : turn.status = .ofRun result.1
  executed : ∀ stop count, result.1 = .ok (stop, count) → turn.executed = count
  events : ∃ shown, turn.events = shown ++ [(Status.ofRun result.1).closing id] ∧
    ∀ e ∈ shown, ∃ offset text, e = .executed id offset text

namespace Turn

theorem asRun_prepend (turn : Turn) (shown : List TickEvent) :
    (turn.prepend shown 1).asRun =
      (turn.asRun.1.map fun (stop, count) => (stop, count + 1), turn.asRun.2) := by
  unfold asRun prepend
  cases turn.status <;> simp [Except.map, Nat.add_comm]

theorem asRun_status (turn : Turn) : turn.status = .ofRun turn.asRun.1 := by
  unfold asRun
  cases turn.status <;> rfl

theorem asRun_state (turn : Turn) : turn.state = turn.asRun.2 := by
  unfold asRun
  cases turn.status <;> rfl

theorem asRun_executed {turn : Turn} {stop : Step} {count : Nat}
    (h : turn.asRun.1 = .ok (stop, count)) : turn.executed = count := by
  unfold asRun at h
  cases hstatus : turn.status with
  | faulted fault => simp [hstatus] at h
  | _ =>
    simp only [hstatus, Except.ok.injEq, Prod.mk.injEq] at h
    exact h.2

theorem asRun_running {turn : Turn} (h : turn.status = .running) :
    turn.asRun = (.ok (.continue, turn.executed), turn.state) := by
  unfold asRun
  rw [h]

end Turn

namespace Machine

/-- **A run is what a turn comes to**, for every quota and with or without a trace. -/
theorem run_eq (m : Machine) (traced : Bool) (id quota : Nat) (s : ExecState) :
    m.run quota s = (m.turn traced id quota s).asRun := by
  induction quota generalizing s with
  | zero => rfl
  | succ quota ih =>
    rw [turn_succ, run]
    have hkind := m.step_kind s
    generalize m.step s = result at hkind
    cases hkind with
    | went hi =>
      rw [counted_of_get? hi, Turn.asRun_prepend]
      simp only [ih]
      rfl
    | waited hi htimer =>
      rw [counted_of_get? hi]
      rfl
    | ended hi => rfl
    | faulted hi h => rfl

/-- A turn reports the status in which it ends, after the instructions of the program that it
shows. -/
theorem turn_events (m : Machine) (traced : Bool) (id quota : Nat) (s : ExecState) :
    ∃ shown, (m.turn traced id quota s).events =
        shown ++ [(m.turn traced id quota s).status.closing id] ∧
      ∀ e ∈ shown, ∃ entry ∈ m.program.entries, e = .executed id entry.1 entry.2.text := by
  induction quota generalizing s with
  | zero => exact ⟨[], rfl, by simp⟩
  | succ quota ih =>
    rw [turn_succ]
    -- the step shows its own instruction before all that the rest of the turn reports
    have hrest : ∃ shown, (m.turnAfter traced id quota (m.step s)).events =
          shown ++ [(m.turnAfter traced id quota (m.step s)).status.closing id] ∧
        ∀ e ∈ shown, ∃ entry ∈ m.program.entries, e = .executed id entry.1 entry.2.text := by
      have hkind := m.step_kind s
      generalize m.step s = result at hkind
      cases hkind with
      | went hi => exact ih _
      | _ => exact ⟨[], rfl, by simp⟩
    obtain ⟨shown, hevents, hshown⟩ := hrest
    refine ⟨m.shown traced id s ++ shown, ?_, ?_⟩
    · simp only [Turn.prepend, hevents, List.append_assoc]
    · intro e he
      rcases List.mem_append.1 he with he | he
      · exact entry_of_mem_shown he
      · exact hshown e he

theorem turn_does (m : Machine) (traced : Bool) (id quota : Nat) (s : ExecState) :
    (m.turn traced id quota s).Does id (m.run quota s) := by
  obtain ⟨shown, hevents, hshown⟩ := m.turn_events traced id quota s
  rw [Turn.asRun_status] at hevents
  rw [m.run_eq traced id]
  refine ⟨Turn.asRun_state _, Turn.asRun_status _, fun _ _ => Turn.asRun_executed,
    shown, hevents, ?_⟩
  intro e he
  obtain ⟨entry, -, heq⟩ := hshown e he
  exact ⟨_, _, heq⟩

/-! ## Cutting turns and runs -/

/-- A turn that still runs has used its quota. -/
theorem turn_executed {m : Machine} {traced : Bool} {id quota : Nat} {s : ExecState}
    (h : (m.turn traced id quota s).status = .running) :
    (m.turn traced id quota s).executed = quota := by
  induction quota generalizing s with
  | zero => rfl
  | succ quota ih =>
    rw [turn_succ] at h ⊢
    have hkind := m.step_kind s
    generalize m.step s = result at h hkind
    cases hkind with
    | went hi =>
      have hrest := ih h
      simp only [Turn.prepend, turnAfter, counted_of_get? hi, hrest]
      omega
    | waited | ended | faulted => cases h

/-- **A longer turn**: as the shorter one, if that comes to rest, else the rest after it. -/
theorem turn_add (m : Machine) (traced : Bool) (id a b : Nat) (s : ExecState) :
    let first := m.turn traced id a s
    let second := m.turn traced id b first.state
    let whole := m.turn traced id (a + b) s
    (first.status ≠ .running → whole = first) ∧
      (first.status = .running → whole.status = second.status ∧ whole.state = second.state ∧
        whole.executed = first.executed + second.executed) := by
  induction a generalizing s with
  | zero =>
    rw [Nat.zero_add, turn_zero]
    refine ⟨fun h => absurd rfl h, fun _ => ⟨rfl, rfl, ?_⟩⟩
    simp [Turn.closed]
  | succ a ih =>
    rw [Nat.add_right_comm, turn_succ, turn_succ]
    have hkind := m.step_kind s
    generalize m.step s = result at hkind
    cases hkind with
    | @went t i hi =>
      obtain ⟨hresting, hrunning⟩ := ih t
      constructor
      · intro h
        show Turn.prepend (m.turn traced id (a + b) t) _ _ = _
        rw [hresting h]
        rfl
      · intro h
        obtain ⟨hstatus, hstate, hexecuted⟩ := hrunning h
        refine ⟨hstatus, hstate, ?_⟩
        show m.counted s + (m.turn traced id (a + b) t).executed = _
        rw [hexecuted, ← Nat.add_assoc]
        rfl
    | waited | ended | faulted => exact ⟨fun _ => rfl, nofun⟩

/-- A turn that has come to rest stays as it is, however long it goes on. -/
theorem turn_of_le {m : Machine} {traced : Bool} {id a b : Nat} {s : ExecState} (hab : a ≤ b)
    (h : (m.turn traced id a s).status ≠ .running) :
    m.turn traced id b s = m.turn traced id a s := by
  obtain ⟨k, rfl⟩ := Nat.exists_eq_add_of_le hab
  exact (m.turn_add traced id a k s).1 h

/-- **A longer run**: as the shorter one, if that comes to rest, else the run after it with the
instructions of both counted. -/
theorem run_add (m : Machine) (a b : Nat) (s : ExecState) :
    (∀ count t, m.run a s = (.ok (.continue, count), t) → count = a ∧ m.run (a + b) s =
        ((m.run b t).1.map fun (stop, more) => (stop, a + more), (m.run b t).2)) ∧
      ((∀ count t, m.run a s ≠ (.ok (.continue, count), t)) → m.run (a + b) s = m.run a s) := by
  rw [m.run_eq false 0 a, m.run_eq false 0 (a + b)]
  obtain ⟨hresting, hrunning⟩ := m.turn_add false 0 a b s
  constructor
  · intro count t heq
    have hstatus : (m.turn false 0 a s).status = .running := by
      rw [Turn.asRun_status, heq]
      rfl
    rw [Turn.asRun_running hstatus, turn_executed hstatus] at heq
    obtain ⟨hcount, rfl⟩ := Prod.mk.inj heq
    obtain ⟨hwhole, hstate, hexecuted⟩ := hrunning hstatus
    refine ⟨(Prod.mk.inj (Except.ok.inj hcount)).2.symm, ?_⟩
    rw [turn_executed hstatus] at hexecuted
    rw [m.run_eq false 0 b]
    unfold Turn.asRun
    rw [hwhole, hstate, hexecuted]
    cases (m.turn false 0 b (m.turn false 0 a s).state).status <;> rfl
  · intro hstopped
    rw [hresting]
    intro hstatus
    exact hstopped _ _ (Turn.asRun_running hstatus)

end Machine

/-! ## One instance alone -/

def Instance.machine (i : Instance) (config : SchedulerConfig) : Machine :=
  ⟨i.program, i.owner, config.maxCallDepth⟩

namespace Scheduler

/-- So many ticks on a field, with their reports. -/
def ticks : (n : Nat) → Scheduler → Field → List TickReport × Scheduler × Field
  | 0, s, field => ([], s, field)
  | n + 1, s, field =>
    let (report, s, field) := s.runTick field
    let (reports, s, field) := ticks n s field
    (report :: reports, s, field)

/-- Where so many ticks bring the instances and the field, and what they execute together. -/
def outcome (s : Scheduler) (n : Nat) (field : Field) : List Instance × Field × Nat :=
  let (reports, t, field) := s.ticks n field
  (t.instances, field, reports.foldr (fun report total => report.executed + total) 0)

def withQuota (s : Scheduler) (quota : Nat) : Scheduler :=
  { s with config := { s.config with quota } }

/-- No instance runs after so many ticks. -/
def Rests (s : Scheduler) (n : Nat) (field : Field) : Prop :=
  ∀ j ∈ (s.outcome n field).1, j.status ≠ .running

instance (s : Scheduler) (n : Nat) (field : Field) : Decidable (s.Rests n field) :=
  inferInstanceAs (Decidable (∀ j ∈ (s.outcome n field).1, j.status ≠ .running))

theorem outcome_succ (s : Scheduler) (n : Nat) (field : Field) :
    let tick := s.runTick field
    let rest := tick.2.1.outcome n tick.2.2
    s.outcome (n + 1) field = (rest.1, rest.2.1, tick.1.executed + rest.2.2) := by
  simp only [outcome, ticks, List.foldr_cons]

theorem runTick_single {s : Scheduler} {i : Instance} (hs : s.instances = [i])
    (hi : i.status = .running) (field : Field) :
    let turn := turnOf s.config i field
    s.runTick field = (⟨s.tick + 1, turn.executed, turn.events⟩,
      { s with instances := [i.afterTurn turn], tick := s.tick + 1 }, turn.state.field) := by
  unfold runTick
  rw [hs, round_running s.config hi]
  simp [round]

theorem outcome_waiting {s : Scheduler} {i : Instance} (hs : s.instances = [i])
    (hi : i.status ≠ .running) (n : Nat) (field : Field) : s.outcome n field = ([i], field, 0) := by
  induction n generalizing s with
  | zero => simp [outcome, ticks, hs]
  | succ n ih =>
    have htick : s.runTick field =
        (⟨s.tick + 1, 0, []⟩, { s with instances := [i], tick := s.tick + 1 }, field) := by
      unfold runTick
      rw [hs, round_waiting s.config hi]
      simp [round]
    rw [outcome_succ, htick, ih rfl]
    rfl

/-- The turn of an instance if it had the steps of so many ticks at once. -/
def wholeTurn (s : Scheduler) (i : Instance) (n : Nat) (field : Field) : Turn :=
  turnOf { s.config with quota := n * s.config.quota } i field

/-- **Ticks of one instance** come to one turn with the steps of all of them. -/
theorem outcome_single {s : Scheduler} {i : Instance} (hs : s.instances = [i])
    (hi : i.status = .running) (n : Nat) (field : Field) :
    s.outcome n field = ([i.afterTurn (s.wholeTurn i n field)],
      (s.wholeTurn i n field).state.field, (s.wholeTurn i n field).executed) := by
  induction n generalizing s i field with
  | zero =>
    have hwhole : s.wholeTurn i 0 field = .closed i.id .running ⟨i.cursor, field⟩ := by
      simp only [wholeTurn, turnOf, Nat.zero_mul, Machine.turn_zero]
    have hsame : i.afterTurn (.closed i.id .running ⟨i.cursor, field⟩) = i := by
      simp [Instance.afterTurn, Turn.closed, ← hi]
    rw [hwhole, hsame]
    simp [outcome, ticks, hs, Turn.closed]
  | succ n ih =>
    -- the first tick is the start of the whole turn
    have hturn := Machine.turn_add ⟨i.program, i.owner, s.config.maxCallDepth⟩
      s.config.traceInstructions i.id s.config.quota (n * s.config.quota) ⟨i.cursor, field⟩
    obtain ⟨hresting, hrunning⟩ := hturn
    have hquota : (n + 1) * s.config.quota = s.config.quota + n * s.config.quota := by
      rw [Nat.succ_mul, Nat.add_comm]
    rw [outcome_succ, runTick_single hs hi]
    simp only [wholeTurn, turnOf, hquota] at hresting hrunning ⊢
    generalize Machine.turn ⟨i.program, i.owner, s.config.maxCallDepth⟩ s.config.traceInstructions
      i.id s.config.quota ⟨i.cursor, field⟩ = first at hresting hrunning ⊢
    by_cases hstatus : first.status = .running
    · obtain ⟨hwhole, hstate, hexecuted⟩ := hrunning hstatus
      rw [ih rfl hstatus]
      simp only [Instance.afterTurn, hwhole, hstate, hexecuted]
      rfl
    · rw [hresting hstatus, outcome_waiting rfl hstatus]
      simp

/-- Where an instance alone comes to rest does not depend on the quota, and every quota of at least
one step gets there. -/
theorem rest_withQuota {s : Scheduler} {i : Instance} (hs : s.instances = [i]) {q q' : Nat}
    (hq' : 1 ≤ q') {field : Field} {n : Nat} (h : (s.withQuota q).Rests n field) :
    (∃ n', (s.withQuota q').Rests n' field) ∧
      ∀ n', (s.withQuota q').Rests n' field →
        (s.withQuota q').outcome n' field = (s.withQuota q).outcome n field := by
  by_cases hi : i.status = .running
  · have hrests : ∀ p k, (s.withQuota p).Rests k field ↔
        ((s.withQuota p).wholeTurn i k field).status ≠ .running := by
      intro p k
      simp only [Rests, outcome_single (s := s.withQuota p) hs hi, List.mem_singleton, forall_eq]
      rfl
    -- of two turns at rest, the longer one stays where the shorter one is
    have hagree : ∀ p k p' k', k * p ≤ k' * p' →
        ((s.withQuota p).wholeTurn i k field).status ≠ .running →
        (s.withQuota p').wholeTurn i k' field = (s.withQuota p).wholeTurn i k field := by
      intro p k p' k' hle hstatus
      exact Machine.turn_of_le hle hstatus
    rw [hrests] at h
    constructor
    · refine ⟨n * q, (hrests q' (n * q)).2 ?_⟩
      rw [hagree q n q' (n * q) (Nat.le_mul_of_pos_right _ hq') h]
      exact h
    · intro n' h'
      rw [hrests] at h'
      have hsame : (s.withQuota q').wholeTurn i n' field = (s.withQuota q).wholeTurn i n field := by
        rcases Nat.le_total (n * q) (n' * q') with hle | hle
        · exact hagree q n q' n' hle h
        · exact (hagree q' n' q n hle h').symm
      rw [outcome_single (s := s.withQuota q') hs hi, outcome_single (s := s.withQuota q) hs hi,
        hsame]
  · have hall : ∀ p k, (s.withQuota p).outcome k field = ([i], field, 0) := fun p k =>
      outcome_waiting (s := s.withQuota p) hs hi k field
    constructor
    · refine ⟨0, ?_⟩
      intro j hj
      rw [hall, List.mem_singleton] at hj
      rw [hj]
      exact hi
    · intro n' _
      rw [hall, hall]

/-- In a tick a running instance gets one turn, on the field that those before it left. -/
theorem runTick_split {s : Scheduler} {before after : List Instance} {i : Instance}
    (hs : s.instances = before ++ i :: after) (hi : i.status = .running) (field : Field) :
    let first := round s.config before field
    let turn := turnOf s.config i first.field
    let later := round s.config after turn.state.field
    s.runTick field = (⟨s.tick + 1, first.executed + (turn.executed + later.executed),
        first.events ++ (turn.events ++ later.events)⟩,
      { s with
        instances := first.instances ++ i.afterTurn turn :: later.instances
        tick := s.tick + 1 }, later.field) := by
  simp only [runTick, hs, round_append, round_running s.config hi]

end Scheduler

open Scheduler in
/-- **Time slicing refines running.** The turn of a running instance in a tick does what a run of
its machine with the quota as limit does. A longer run is the shorter one, and then the rest if that
still runs. So an instance alone comes to rest with every quota or with none, with the same field,
cursor and status and the same number of instructions. -/
theorem turns_refine_runs :
    (∀ (s : Scheduler) (field : Field) (before after : List Instance) (i : Instance),
      s.instances = before ++ i :: after → i.status = .running →
      let first := round s.config before field
      ∃ turn : Turn, turn.Does i.id
          ((i.machine s.config).run s.config.quota ⟨i.cursor, first.field⟩) ∧
        let later := round s.config after turn.state.field
        s.runTick field = (⟨s.tick + 1, first.executed + (turn.executed + later.executed),
            first.events ++ (turn.events ++ later.events)⟩,
          { s with
            instances := first.instances ++
              { i with cursor := turn.state.cursor, status := turn.status } :: later.instances
            tick := s.tick + 1 }, later.field)) ∧
    (∀ (m : Machine) (a b : Nat) (s : ExecState),
      (∀ count t, m.run a s = (.ok (.continue, count), t) → count = a ∧ m.run (a + b) s =
          ((m.run b t).1.map fun (stop, more) => (stop, a + more), (m.run b t).2)) ∧
        ((∀ count t, m.run a s ≠ (.ok (.continue, count), t)) → m.run (a + b) s = m.run a s)) ∧
    (∀ (s : Scheduler) (i : Instance) (field : Field) (q q' n : Nat), s.instances = [i] →
      1 ≤ q → 1 ≤ q' → (s.withQuota q).Rests n field →
        (∃ n', (s.withQuota q').Rests n' field) ∧
          ∀ n', (s.withQuota q').Rests n' field →
            (s.withQuota q').outcome n' field = (s.withQuota q).outcome n field) := by
  refine ⟨?_, Machine.run_add, ?_⟩
  · intro s field before after i hs hi first
    refine ⟨turnOf s.config i first.field, ?_, runTick_split hs hi field⟩
    exact Machine.turn_does _ _ _ _ _
  · intro s i field q q' n hs _ hq' h
    exact rest_withQuota hs hq' h

open Scheduler in
/-- A case in which an instance counts down in a loop and then waits, seven instructions in all, cut
by quotas of one and of three. -/
theorem turns_refine_runs_loop :
    let counter : Expr := .var ⟨.temp, 0⟩
    let program := Program.ofInstructions "count" [.popTemp 0 (.const 2),
      .popTemp 0 (.binary .sub counter (.const 1)), .jumpIfZero counter 16, .jump 4,
      .wait (.const 5), .halt]
    let i := Instance.start 1 ⟨0, program⟩ ⟨0, 1⟩
    let s : Scheduler := ⟨{ quota := 3 }, [i], 2, 0⟩
    let field := Field.ofSeed 0
    let m := i.machine s.config
    (∃ turn : Turn, turn.Does 1 (m.run 3 ⟨i.cursor, field⟩) ∧
        (s.runTick field).2.1.instances =
          [{ i with cursor := turn.state.cursor, status := turn.status }]) ∧
      (∃ t, m.run 3 ⟨i.cursor, field⟩ = (.ok (.continue, 3), t) ∧
        m.run 7 ⟨i.cursor, field⟩ =
          ((m.run 4 t).1.map fun (stop, more) => (stop, 3 + more), (m.run 4 t).2)) ∧
      Status.ofRun (m.run 7 ⟨i.cursor, field⟩).1 = .suspended (.timer 5) ∧
      (s.withQuota 1).Rests 7 field ∧ (s.withQuota 3).Rests 3 field ∧
      (s.withQuota 3).outcome 3 field = (s.withQuota 1).outcome 7 field := by
  intro counter program i s field m
  obtain ⟨hturn, hadd, hquota⟩ := turns_refine_runs
  refine ⟨?_, ?_, by decide, by decide, by decide, ?_⟩
  · obtain ⟨turn, hdoes, htick⟩ := hturn s field [] [] i rfl rfl
    refine ⟨turn, hdoes, ?_⟩
    rw [htick]
    rfl
  · have hstatus : (m.turn false 1 3 ⟨i.cursor, field⟩).status = .running := by decide
    have hrun : m.run 3 ⟨i.cursor, field⟩ =
        (.ok (.continue, 3), (m.turn false 1 3 ⟨i.cursor, field⟩).state) := by
      rw [m.run_eq false 1, Turn.asRun_running hstatus, Machine.turn_executed hstatus]
    exact ⟨_, hrun, ((hadd m 3 4 ⟨i.cursor, field⟩).1 _ _ hrun).2⟩
  · exact (hquota s i field 1 3 7 rfl (by decide) (by decide) (by decide)).2 3 (by decide)

end FieldEngine
