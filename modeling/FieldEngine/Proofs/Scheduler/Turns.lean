import FieldEngine.Proofs.Machine.Steps
import FieldEngine.Proofs.Scheduler.Badges

/-!
# Turns

A turn reports only on its own instance, always reports something, and reports a wait exactly if it
ends with the instance waiting. A wait for a timer never has a negative number of frames. In a round
only running instances are reported on, the others stay as they are, and each running instance gets
its turn on the field that those before it left:

    e ∈ (m.turn traced id quota s).events → e.instanceId = id                       (turn_reports)
    .suspended id reason ∈ (m.turn …).events ↔ (m.turn …).status = .suspended reason
    e ∈ (round config l field).events → some running i ∈ l has its number        (round_instanceId)
    j ∈ (round config l field).instances → j waited already, or has had its turn      (mem_round)
-/

namespace FieldEngine

/-! ## Events -/

/-- The event only says that an instruction runs. -/
def TickEvent.isExecuted : TickEvent → Bool
  | executed _ _ _ => true
  | suspended _ _ | halted _ | faulted _ _ | quotaExhausted _ => false

/-- Events without those that say that an instruction runs. -/
def TickEvent.unexecuted (events : List TickEvent) : List TickEvent :=
  events.filter fun e => !e.isExecuted

theorem TickEvent.unexecuted_append (a b : List TickEvent) :
    unexecuted (a ++ b) = unexecuted a ++ unexecuted b :=
  List.filter_append a b

/-! ## Turns -/

/-- The status in which the outcome of a step leaves an instance. -/
def Status.ofStep : Except Fault Step → Status
  | .ok .continue => .running
  | .ok (.suspend reason) => .suspended reason
  | .ok .halt => .halted
  | .error fault => .faulted fault

/-- The event with which a turn reports the status it ends in. -/
def Status.closing (id : Nat) : Status → TickEvent
  | running => .quotaExhausted id
  | suspended reason => .suspended id reason
  | halted => .halted id
  | faulted fault => .faulted id fault

namespace Turn

/-- A turn that ends at once. -/
def closed (id : Nat) (status : Status) (state : ExecState) : Turn :=
  ⟨[status.closing id], 0, status, state⟩

/-- The turn with more instructions before it, some of them shown. -/
def prepend (turn : Turn) (shown : List TickEvent) (counted : Nat) : Turn :=
  { turn with events := shown ++ turn.events, executed := counted + turn.executed }

end Turn

namespace Machine

/-- What a turn shows of the instruction at the cursor. -/
def shown (m : Machine) (traced : Bool) (id : Nat) (s : ExecState) : List TickEvent :=
  match m.program.get? s.cursor.pc with
  | some instruction =>
    if traced then
      [.executed id ((m.program.offsetOf? s.cursor.pc).getD 0) instruction.text]
    else []
  | none => []

/-- What a turn counts for the step at the cursor. -/
def counted (m : Machine) (s : ExecState) : Nat :=
  if (m.program.get? s.cursor.pc).isSome then 1 else 0

/-- The rest of a turn after a step. -/
def turnAfter (m : Machine) (traced : Bool) (id quota : Nat) : StepResult → Turn
  | (.ok .continue, t) => m.turn traced id quota t
  | (outcome, t) => .closed id (.ofStep outcome) t

theorem turn_zero (m : Machine) (traced : Bool) (id : Nat) (s : ExecState) :
    m.turn traced id 0 s = .closed id .running s :=
  rfl

/-- A turn is a step and the rest. -/
theorem turn_succ (m : Machine) (traced : Bool) (id quota : Nat) (s : ExecState) :
    m.turn traced id (quota + 1) s =
      (m.turnAfter traced id quota (m.step s)).prepend (m.shown traced id s) (m.counted s) := by
  rw [turn]
  rcases m.step s with ⟨outcome, t⟩
  cases outcome with
  | error fault => rfl
  | ok stop => cases stop <;> rfl

theorem counted_of_get? {m : Machine} {s : ExecState} {i : Instruction}
    (h : m.program.get? s.cursor.pc = some i) : m.counted s = 1 := by
  simp [counted, h]

/-- What a turn shows of an instruction says only that it runs, and is true of the program. -/
theorem entry_of_mem_shown {m : Machine} {traced : Bool} {id : Nat} {s : ExecState}
    {e : TickEvent} (h : e ∈ m.shown traced id s) :
    ∃ entry ∈ m.program.entries, e = .executed id entry.1 entry.2.text := by
  unfold shown Program.get? Program.offsetOf? at h
  cases hentry : m.program.entries[s.cursor.pc]? with
  | none => simp [hentry] at h
  | some entry =>
    rw [hentry] at h
    cases traced with
    | false => simp at h
    | true => exact ⟨entry, Array.mem_of_getElem? hentry, List.mem_singleton.1 h⟩

theorem executed_of_mem_shown {m : Machine} {traced : Bool} {id : Nat} {s : ExecState}
    {e : TickEvent} (h : e ∈ m.shown traced id s) :
    ∃ offset text, e = .executed id offset text := by
  obtain ⟨entry, -, he⟩ := entry_of_mem_shown h
  exact ⟨_, _, he⟩

end Machine

/-- A turn reports on one instance only, and says something; it reports a wait exactly if it ends
with that wait, and a timer has no negative number of frames. -/
structure Turn.Reports (turn : Turn) (id : Nat) : Prop where
  instanceId : ∀ e ∈ turn.events, e.instanceId = id
  nonempty : turn.events ≠ []
  suspended : ∀ i reason, .suspended i reason ∈ turn.events → turn.status = .suspended reason
  reported : ∀ reason, turn.status = .suspended reason → .suspended id reason ∈ turn.events
  timer : ∀ frames, turn.status = .suspended (.timer frames) → 0 ≤ frames.toInt

theorem Turn.Reports.prepend {turn : Turn} {id : Nat} (h : turn.Reports id) {shown : List TickEvent}
    (hshown : ∀ e ∈ shown, ∃ offset text, e = .executed id offset text) (counted : Nat) :
    (turn.prepend shown counted).Reports id where
  instanceId e he := by
    rcases List.mem_append.1 he with he | he
    · obtain ⟨offset, text, rfl⟩ := hshown e he
      rfl
    · exact h.instanceId e he
  nonempty hnil := h.nonempty (List.append_eq_nil_iff.1 hnil).2
  suspended i reason he := by
    rcases List.mem_append.1 he with he | he
    · obtain ⟨offset, text, heq⟩ := hshown _ he
      cases heq
    · exact h.suspended i reason he
  reported reason hstatus := List.mem_append_right shown (h.reported reason hstatus)
  timer := h.timer

theorem Turn.closed_reports (id : Nat) (status : Status) (state : ExecState)
    (htimer : ∀ frames, status = .suspended (.timer frames) → 0 ≤ frames.toInt) :
    (Turn.closed id status state).Reports id where
  instanceId e he := by
    rw [List.mem_singleton.1 he]
    cases status <;> rfl
  nonempty := List.cons_ne_nil _ _
  suspended i reason he := by
    have hclosing := List.mem_singleton.1 he
    cases status with
    | suspended reason' =>
      cases hclosing
      rfl
    | _ => cases hclosing
  reported reason hreason := by
    show .suspended id reason ∈ [status.closing id]
    rw [show status = .suspended reason from hreason]
    exact List.mem_cons_self
  timer := htimer

theorem Machine.turn_reports (m : Machine) (traced : Bool) (id quota : Nat) (s : ExecState) :
    (m.turn traced id quota s).Reports id := by
  induction quota generalizing s with
  | zero =>
    rw [turn_zero]
    exact Turn.closed_reports id .running s nofun
  | succ quota ih =>
    rw [turn_succ]
    refine Turn.Reports.prepend ?_ (fun e he => executed_of_mem_shown he) _
    have hkind := m.step_kind s
    generalize m.step s = result at hkind
    cases hkind with
    | went hi => exact ih _
    | waited hi htimer =>
      refine Turn.closed_reports id _ _ ?_
      rintro frames ⟨rfl⟩
      exact htimer frames rfl
    | ended hi => exact Turn.closed_reports id .halted s nofun
    | faulted hi h => exact Turn.closed_reports id (.faulted _) _ nofun

/-! ## Rounds -/

def Instance.afterTurn (i : Instance) (turn : Turn) : Instance :=
  { i with cursor := turn.state.cursor, status := turn.status }

namespace Scheduler

def turnOf (config : SchedulerConfig) (i : Instance) (field : Field) : Turn :=
  Machine.turn ⟨i.program, i.owner, config.maxCallDepth⟩ config.traceInstructions i.id config.quota
    ⟨i.cursor, field⟩

theorem turnOf_reports (config : SchedulerConfig) (i : Instance) (field : Field) :
    (turnOf config i field).Reports i.id :=
  Machine.turn_reports _ _ _ _ _

theorem round_running (config : SchedulerConfig) {i : Instance} (h : i.status = .running)
    (rest : List Instance) (field : Field) :
    round config (i :: rest) field =
      let turn := turnOf config i field
      let later := round config rest turn.state.field
      ⟨i.afterTurn turn :: later.instances, later.field, turn.executed + later.executed,
        turn.events ++ later.events⟩ := by
  rw [round, if_pos h]
  rfl

theorem round_waiting (config : SchedulerConfig) {i : Instance} (h : i.status ≠ .running)
    (rest : List Instance) (field : Field) :
    round config (i :: rest) field =
      { round config rest field with instances := i :: (round config rest field).instances } := by
  rw [round, if_neg h]

/-- A round of some instances and then of others. -/
theorem round_append (config : SchedulerConfig) (a b : List Instance) (field : Field) :
    round config (a ++ b) field =
      let first := round config a field
      let second := round config b first.field
      ⟨first.instances ++ second.instances, second.field, first.executed + second.executed,
        first.events ++ second.events⟩ := by
  induction a generalizing field with
  | nil => simp [round]
  | cons i a ih =>
    by_cases h : i.status = .running
    · rw [List.cons_append, round_running config h, round_running config h]
      simp only [ih, List.cons_append, List.append_assoc, Nat.add_assoc]
    · rw [List.cons_append, round_waiting config h, round_waiting config h]
      simp only [ih, List.cons_append]

/-- A running instance gets its turn on the field that those before it left. -/
theorem round_split (config : SchedulerConfig) {i : Instance} (h : i.status = .running)
    (before after : List Instance) (field : Field) :
    let first := round config before field
    let turn := turnOf config i first.field
    let later := round config after turn.state.field
    (round config (before ++ i :: after) field).instances =
        first.instances ++ i.afterTurn turn :: later.instances ∧
      (round config (before ++ i :: after) field).events =
        first.events ++ (turn.events ++ later.events) := by
  simp only [round_append, round_running config h, and_self]

/-- Only running instances are reported on. -/
theorem round_instanceId {config : SchedulerConfig} {l : List Instance} {field : Field}
    {e : TickEvent} (h : e ∈ (round config l field).events) :
    ∃ i ∈ l, i.status = .running ∧ e.instanceId = i.id := by
  induction l generalizing field with
  | nil => simp [round] at h
  | cons i rest ih =>
    by_cases hi : i.status = .running
    · rw [round_running config hi] at h
      rcases List.mem_append.1 h with h | h
      · exact ⟨i, List.mem_cons_self, hi, (turnOf_reports config i field).instanceId e h⟩
      · obtain ⟨j, hj, hrun, hid⟩ := ih h
        exact ⟨j, List.mem_cons_of_mem i hj, hrun, hid⟩
    · rw [round_waiting config hi] at h
      obtain ⟨j, hj, hrun, hid⟩ := ih h
      exact ⟨j, List.mem_cons_of_mem i hj, hrun, hid⟩

/-- An instance that does not run stays as it is. -/
theorem mem_round_of_waiting {config : SchedulerConfig} {l : List Instance} {field : Field}
    {i : Instance} (hi : i ∈ l) (h : i.status ≠ .running) :
    i ∈ (round config l field).instances := by
  obtain ⟨a, b, rfl⟩ := List.append_of_mem hi
  rw [round_append]
  show i ∈ (round config a field).instances ++ (round config (i :: b) _).instances
  rw [round_waiting config h]
  exact List.mem_append_right _ List.mem_cons_self

/-- An instance after a round did not run before it, or it is one that has had its turn, the events
of which are in the report. -/
theorem mem_round {config : SchedulerConfig} {l : List Instance} {field : Field} {j : Instance}
    (h : j ∈ (round config l field).instances) :
    (j ∈ l ∧ j.status ≠ .running) ∨
      ∃ i ∈ l, i.status = .running ∧ ∃ f, j = i.afterTurn (turnOf config i f) ∧
        ∀ e ∈ (turnOf config i f).events, e ∈ (round config l field).events := by
  induction l generalizing field with
  | nil => simp [round] at h
  | cons i rest ih =>
    by_cases hi : i.status = .running
    · rw [round_running config hi] at h ⊢
      rcases List.mem_cons.1 h with rfl | h
      · refine .inr ⟨i, List.mem_cons_self, hi, field, rfl, ?_⟩
        intro e he
        exact List.mem_append_left _ he
      · rcases ih h with ⟨hmem, hwaits⟩ | ⟨k, hk, hrun, f, hturn, hevents⟩
        · exact .inl ⟨List.mem_cons_of_mem i hmem, hwaits⟩
        · refine .inr ⟨k, List.mem_cons_of_mem i hk, hrun, f, hturn, ?_⟩
          intro e he
          exact List.mem_append_right _ (hevents e he)
    · rw [round_waiting config hi] at h ⊢
      rcases List.mem_cons.1 h with rfl | h
      · exact .inl ⟨List.mem_cons_self, hi⟩
      · rcases ih h with ⟨hmem, hwaits⟩ | ⟨k, hk, hrun, f, hturn, hevents⟩
        · exact .inl ⟨List.mem_cons_of_mem i hmem, hwaits⟩
        · exact .inr ⟨k, List.mem_cons_of_mem i hk, hrun, f, hturn, hevents⟩

/-- A wait that a round reports is the wait of an instance after it. -/
theorem round_suspended {config : SchedulerConfig} {l : List Instance} {field : Field} {id : Nat}
    {reason : WaitReason} (h : .suspended id reason ∈ (round config l field).events) :
    (∃ j ∈ (round config l field).instances, j.id = id ∧ j.status = .suspended reason) ∧
      ∀ frames, reason = .timer frames → 0 ≤ frames.toInt := by
  induction l generalizing field with
  | nil => simp [round] at h
  | cons i rest ih =>
    by_cases hi : i.status = .running
    · rw [round_running config hi] at h ⊢
      rcases List.mem_append.1 h with h | h
      · have hturn := turnOf_reports config i field
        have hstatus := hturn.suspended id reason h
        refine ⟨⟨_, List.mem_cons_self, (hturn.instanceId _ h).symm, hstatus⟩, ?_⟩
        rintro frames rfl
        exact hturn.timer frames hstatus
      · obtain ⟨⟨j, hj, hid, hstatus⟩, htimer⟩ := ih h
        exact ⟨⟨j, List.mem_cons_of_mem _ hj, hid, hstatus⟩, htimer⟩
    · rw [round_waiting config hi] at h ⊢
      obtain ⟨⟨j, hj, hid, hstatus⟩, htimer⟩ := ih h
      exact ⟨⟨j, List.mem_cons_of_mem _ hj, hid, hstatus⟩, htimer⟩

end Scheduler

end FieldEngine
