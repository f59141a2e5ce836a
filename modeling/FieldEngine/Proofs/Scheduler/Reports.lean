import Mathlib.Algebra.GroupWithZero.Nat
import Mathlib.Data.List.Nodup
import FieldEngine.Proofs.Scheduler.Frame
import FieldEngine.Proofs.Scheduler.Isolation

/-!
# Reports tell the truth

Where the numbers of instances differ, each running instance has one turn in a tick, on the field
that those before it left (`Scheduler.turnIn`). The tick is made of these turns and of nothing else:
its events are theirs, one turn after the other, and so are its count and the instances after it.

    (round config l field).events = (running l).flatMap fun i => (turnIn config l field i).events
                                                                               (round_turns)
    s.steppedBy field i has at most `quota` instructions                      (length_stepped_le)

What a turn reports of itself, told in `Machine.turn_events` and `Machine.turn_stretch`, is then
what the report says. Main statement: `report_truthful`.
-/

namespace FieldEngine

/-! ## Turns -/

theorem TickEvent.countP_isExecuted (events : List TickEvent) :
    events.countP isExecuted = (events.filterMap instruction?).length := by
  have hshown : isExecuted = fun e => (instruction? e).isSome := by
    funext e
    cases e <;> rfl
  rw [List.length_filterMap_eq_countP, hshown]

/-- A turn steps through no more instructions than its quota. -/
theorem Machine.length_stepped_le (m : Machine) (quota : Nat) (s : ExecState) :
    (m.stepped quota s).length ≤ quota := by
  induction quota generalizing s with
  | zero => exact Nat.le_refl 0
  | succ quota ih =>
    have hone : (m.program.get? s.cursor.pc).toList.length ≤ 1 := by
      cases m.program.get? s.cursor.pc <;> simp
    rw [stepped, List.length_append]
    split
    · rename_i t _
      have hrest := ih t
      omega
    · rw [List.length_nil]
      omega

theorem Status.instruction?_closing (status : Status) (id : Nat) :
    [status.closing id].filterMap TickEvent.instruction? = [] := by
  cases status <;> rfl

/-- The instance after a round in which the turn was its own, if it had one. -/
def Instance.afterRound (i : Instance) (turn : Turn) : Instance :=
  if i.status = .running then i.afterTurn turn else i

theorem Instance.id_afterRound (i : Instance) (turn : Turn) : (i.afterRound turn).id = i.id := by
  unfold afterRound
  split <;> rfl

namespace Scheduler

theorem turnOf_events (config : SchedulerConfig) (i : Instance) (field : Field) :
    ∃ shown, (turnOf config i field).events =
        shown ++ [(turnOf config i field).status.closing i.id] ∧
      ∀ e ∈ shown, ∃ entry ∈ i.program.entries, e = .executed i.id entry.1 entry.2.text :=
  Machine.turn_events _ _ _ _ _

/-- Of what a turn reports, only the last event says more than that an instruction runs. -/
theorem unexecuted_turnOf (config : SchedulerConfig) (i : Instance) (field : Field) :
    TickEvent.unexecuted (turnOf config i field).events =
      [(turnOf config i field).status.closing i.id] := by
  obtain ⟨shown, hevents, hshown⟩ := turnOf_events config i field
  have hnone : TickEvent.unexecuted shown = [] := by
    rw [TickEvent.unexecuted, List.filter_eq_nil_iff]
    intro e he
    obtain ⟨entry, -, rfl⟩ := hshown e he
    simp [TickEvent.isExecuted]
  rw [hevents, TickEvent.unexecuted_append, hnone, List.nil_append]
  cases (turnOf config i field).status <;> rfl

/-- A turn shows instructions of the program of its instance, with their offsets. -/
theorem entry_of_executed {config : SchedulerConfig} {i : Instance} {field : Field}
    {id offset : Nat} {text : String}
    (h : .executed id offset text ∈ (turnOf config i field).events) :
    i.id = id ∧ ∃ instruction, (offset, instruction) ∈ i.program.entries ∧
      text = instruction.text := by
  obtain ⟨shown, hevents, hshown⟩ := turnOf_events config i field
  rw [hevents, List.mem_append, List.mem_singleton] at h
  rcases h with h | h
  · obtain ⟨⟨_, instruction⟩, hentry, heq⟩ := hshown _ h
    cases heq
    exact ⟨rfl, instruction, hentry, rfl⟩
  · cases hstatus : (turnOf config i field).status <;> rw [hstatus] at h <;> cases h

/-! ## A tick is its turns -/

def running (l : List Instance) : List Instance :=
  l.filter fun i => i.status = .running

/-- The field on which the instance of a number has its turn. -/
def fieldFor (config : SchedulerConfig) (l : List Instance) (field : Field) (id : Nat) : Field :=
  (round config (l.takeWhile fun i => i.id != id) field).field

def turnIn (config : SchedulerConfig) (l : List Instance) (field : Field) (i : Instance) : Turn :=
  turnOf config i (fieldFor config l field i.id)

theorem turnIn_head (config : SchedulerConfig) (i : Instance) (rest : List Instance)
    (field : Field) : turnIn config (i :: rest) field i = turnOf config i field := by
  simp [turnIn, fieldFor, round]

theorem fieldFor_cons (config : SchedulerConfig) {i : Instance} {id : Nat} (h : i.id ≠ id)
    (rest : List Instance) (field : Field) :
    fieldFor config (i :: rest) field id =
      fieldFor config rest (round config [i] field).field id := by
  rw [fieldFor, fieldFor, List.takeWhile_cons, if_pos (bne_iff_ne.2 h)]
  rw [← List.singleton_append, round_append]

/-- **A round is its turns**, if the numbers of its instances differ. -/
theorem round_turns (config : SchedulerConfig) {l : List Instance} (h : (l.map Instance.id).Nodup)
    (field : Field) :
    (round config l field).events =
        (running l).flatMap (fun i => (turnIn config l field i).events) ∧
      (round config l field).executed =
        ((running l).map fun i => (turnIn config l field i).executed).sum ∧
      (round config l field).instances = l.map fun i => i.afterRound (turnIn config l field i) := by
  induction l generalizing field with
  | nil => exact ⟨rfl, rfl, rfl⟩
  | cons i rest ih =>
    rw [List.map_cons, List.nodup_cons] at h
    obtain ⟨hi, hrest⟩ := h
    -- those after the first have their turns as in a round of their own
    have hlater : ∀ j ∈ rest, turnIn config (i :: rest) field j =
        turnIn config rest (round config [i] field).field j := by
      intro j hj
      rw [turnIn, turnIn, fieldFor_cons]
      rintro hid
      rw [hid] at hi
      exact hi (List.mem_map_of_mem hj)
    obtain ⟨hevents, hexecuted, hinstances⟩ := ih hrest (round config [i] field).field
    have hmem : ∀ j ∈ running rest, j ∈ rest := fun j hj => (List.mem_filter.1 hj).1
    rw [← List.flatMap_congr fun j hj => congrArg Turn.events (hlater j (hmem j hj))] at hevents
    rw [← List.map_congr_left fun j hj => congrArg Turn.executed (hlater j (hmem j hj))]
      at hexecuted
    rw [← List.map_congr_left fun j hj => congrArg j.afterRound (hlater j hj)] at hinstances
    by_cases hrunning : i.status = .running
    · have hfirst : running (i :: rest) = i :: running rest :=
        List.filter_cons_of_pos (decide_eq_true hrunning)
      have hfield : (round config [i] field).field = (turnOf config i field).state.field := by
        rw [round_running config hrunning]
        rfl
      rw [hfield] at hevents hexecuted hinstances
      rw [round_running config hrunning, hfirst, List.flatMap_cons, List.map_cons, List.map_cons,
        List.sum_cons, turnIn_head, Instance.afterRound, if_pos hrunning, ← hevents, ← hexecuted,
        ← hinstances]
      exact ⟨rfl, rfl, rfl⟩
    · have hfirst : running (i :: rest) = running rest :=
        List.filter_cons_of_neg (by simpa using hrunning)
      have hfield : (round config [i] field).field = field := by
        rw [round_waiting config hrunning]
        rfl
      rw [hfield] at hevents hexecuted hinstances
      rw [round_waiting config hrunning, hfirst, List.map_cons, Instance.afterRound,
        if_neg hrunning, ← hevents, ← hexecuted, ← hinstances]
      exact ⟨rfl, rfl, rfl⟩

/-- What is left of the turns without the instructions that they show. -/
theorem unexecuted_flatMap (config : SchedulerConfig) (l m : List Instance) (field : Field) :
    TickEvent.unexecuted (m.flatMap fun i => (turnIn config l field i).events) =
      m.map fun i => (turnIn config l field i).status.closing i.id := by
  induction m with
  | nil => rfl
  | cons i m ih =>
    rw [List.flatMap_cons, TickEvent.unexecuted_append, ih, turnIn, unexecuted_turnOf]
    rfl

/-- The instructions that an instance steps through in a tick. -/
def steppedBy (s : Scheduler) (field : Field) (i : Instance) : List Instruction :=
  (i.machine s.config).stepped s.config.quota
    ⟨i.cursor, fieldFor s.config s.instances field i.id⟩

/-- The turn of an instance in a tick counts and shows the instructions it steps through. -/
theorem turnIn_stepped (s : Scheduler) (field : Field) (i : Instance) :
    let turn := turnIn s.config s.instances field i
    turn.executed = (s.steppedBy field i).length ∧
      turn.events.filterMap TickEvent.instruction? =
        if s.config.traceInstructions then (s.steppedBy field i).map Instruction.text else [] := by
  have hstretch := (i.machine s.config).turn_stretch s.config.traceInstructions i.id s.config.quota
    ⟨i.cursor, fieldFor s.config s.instances field i.id⟩
  exact ⟨hstretch.counted, hstretch.shown⟩

/-- The events of the turn of an instance in a tick: instructions that it steps through, all of them
if instructions are traced, and last how the turn has ended. -/
theorem turnIn_events (s : Scheduler) (field : Field) (i : Instance) :
    let turn := turnIn s.config s.instances field i
    ∃ shown, turn.events = shown ++ [turn.status.closing i.id] ∧
      (∀ e ∈ shown, e.isExecuted = true ∧ e.instanceId = i.id) ∧
      (s.config.traceInstructions = true →
        shown.filterMap TickEvent.instruction? = (s.steppedBy field i).map Instruction.text) := by
  intro turn
  obtain ⟨shown, hevents, hshown⟩ :=
    turnOf_events s.config i (fieldFor s.config s.instances field i.id)
  refine ⟨shown, hevents, ?_, ?_⟩
  · intro e he
    obtain ⟨entry, -, rfl⟩ := hshown e he
    exact ⟨rfl, rfl⟩
  · intro htraced
    obtain ⟨-, hstepped⟩ := s.turnIn_stepped field i
    rw [← turnIn] at hevents
    rw [if_pos htraced, hevents, List.filterMap_append, Status.instruction?_closing,
      List.append_nil] at hstepped
    exact hstepped

/-- After a tick a running instance has the status in which its turn has ended. -/
theorem status?_runTick {s : Scheduler} (hdistinct : (s.instances.map Instance.id).Nodup)
    (field : Field) {i : Instance} (hi : i ∈ running s.instances) :
    (s.runTick field).2.1.status? i.id =
      some (turnIn s.config s.instances field i).status := by
  obtain ⟨hmem, hrunning⟩ := List.mem_filter.1 hi
  obtain ⟨-, -, hinstances⟩ := round_turns s.config hdistinct field
  have hafter : i.afterRound (turnIn s.config s.instances field i) ∈
      (s.runTick field).2.1.instances := by
    show _ ∈ (round s.config s.instances field).instances
    rw [hinstances]
    exact List.mem_map_of_mem hmem
  have hids : ((s.runTick field).2.1.instances.map Instance.id).Nodup := by
    show ((round s.config s.instances field).instances.map Instance.id).Nodup
    rw [ids_round]
    exact hdistinct
  have hget := get?_of_nodup hids hafter
  rw [Instance.id_afterRound] at hget
  rw [status?, hget, Option.map_some, Instance.afterRound, if_pos (of_decide_eq_true hrunning)]
  rfl

/-- If instructions are traced, a round shows as many as it counts. -/
theorem countP_round {config : SchedulerConfig} (h : config.traceInstructions = true)
    (l : List Instance) (field : Field) :
    (round config l field).events.countP TickEvent.isExecuted =
      (round config l field).executed := by
  obtain ⟨-, -, hcounted, hshown⟩ := round_stretch config l field
  rw [if_pos h] at hshown
  rw [TickEvent.countP_isExecuted, hshown, List.length_map, hcounted]

/-- **The events of one instance** stand together in the report of a tick. -/
theorem events_split {s : Scheduler} (hdistinct : (s.instances.map Instance.id).Nodup)
    (field : Field) {i : Instance} (hi : i ∈ running s.instances) :
    ∃ before after, (s.runTick field).1.events =
        before ++ (turnIn s.config s.instances field i).events ++ after ∧
      ∀ e ∈ before ++ after, e.instanceId ≠ i.id := by
  obtain ⟨hevents, -, -⟩ := round_turns s.config hdistinct field
  have hids : ((running s.instances).map Instance.id).Nodup :=
    hdistinct.sublist (List.filter_sublist.map _)
  obtain ⟨a, b, hsplit⟩ := List.append_of_mem hi
  rw [hsplit, List.map_append, List.map_cons, List.nodup_middle, List.nodup_cons,
    ← List.map_append] at hids
  rw [hsplit, List.flatMap_append, List.flatMap_cons, ← List.append_assoc] at hevents
  refine ⟨_, _, hevents, ?_⟩
  intro e he hid
  rw [← List.flatMap_append] at he
  obtain ⟨j, hj, he⟩ := List.mem_flatMap.1 he
  rw [(turnOf_reports s.config j _).instanceId e he] at hid
  rw [← hid] at hids
  exact hids.1 (List.mem_map_of_mem hj)

/-- **Reports tell the truth.** The report of a tick of instances with different numbers is numbered
one above the tick before, where the count of ticks wraps around. Besides the events that show an
instruction it has one event for each instance that was running, in the order of registration, and
this event tells the status that the instance has after the tick. The events of one instance stand
together, this one last, after those that show the instructions which the instance steps through.
These are at most as many as the quota, and all of them are counted. If instructions are traced, as
many are shown as are counted, each with the offset and the text that the program of the instance
has for it. -/
theorem report_truthful (s : Scheduler) (hdistinct : (s.instances.map Instance.id).Nodup)
    (field : Field) :
    let report := (s.runTick field).1
    let t := (s.runTick field).2.1
    (report.tick = s.tick + 1 ∧ t.tick = report.tick) ∧
    (TickEvent.unexecuted report.events).map some =
      (running s.instances).map (fun i => (t.status? i.id).map (Status.closing i.id)) ∧
    (∀ i ∈ running s.instances, ∃ before shown status after,
      t.status? i.id = some status ∧
      report.events = before ++ (shown ++ [status.closing i.id]) ++ after ∧
      (∀ e ∈ shown, e.isExecuted = true ∧ e.instanceId = i.id) ∧
      (∀ e ∈ before ++ after, e.instanceId ≠ i.id) ∧
      (s.config.traceInstructions = true →
        shown.filterMap TickEvent.instruction? = (s.steppedBy field i).map Instruction.text)) ∧
    (∀ i ∈ running s.instances, (s.steppedBy field i).length ≤ s.config.quota) ∧
    report.executed = ((running s.instances).map fun i => (s.steppedBy field i).length).sum ∧
    (s.config.traceInstructions = true →
      report.events.countP TickEvent.isExecuted = report.executed) ∧
    ∀ id offset text, .executed id offset text ∈ report.events →
      ∃ i ∈ running s.instances, i.id = id ∧
        ∃ instruction, (offset, instruction) ∈ i.program.entries ∧ text = instruction.text := by
  intro report t
  obtain ⟨hevents, hexecuted, -⟩ := round_turns s.config hdistinct field
  have hreport : report.events =
      (running s.instances).flatMap fun i => (turnIn s.config s.instances field i).events := hevents
  refine ⟨⟨rfl, rfl⟩, ?_, ?_, ?_, ?_, ?_, ?_⟩
  · rw [hreport, unexecuted_flatMap, List.map_map]
    apply List.map_congr_left
    intro i hi
    rw [status?_runTick hdistinct field hi]
    rfl
  · intro i hi
    obtain ⟨before, after, hsplit, hothers⟩ := events_split hdistinct field hi
    obtain ⟨shown, hturn, hshown, hstepped⟩ := s.turnIn_events field i
    rw [hturn] at hsplit
    exact ⟨before, shown, _, after, status?_runTick hdistinct field hi, hsplit, hshown, hothers,
      hstepped⟩
  · intro i _
    exact Machine.length_stepped_le _ _ _
  · show (round s.config s.instances field).executed = _
    rw [hexecuted, List.map_congr_left fun i _ => (s.turnIn_stepped field i).1]
  · intro htraced
    exact countP_round htraced s.instances field
  · intro id offset text he
    rw [hreport] at he
    obtain ⟨i, hi, he⟩ := List.mem_flatMap.1 he
    exact ⟨i, hi, entry_of_executed he⟩

/-- A case with two instructions for each turn, in the tick after the one of the highest number. The
first instance loops, the second faults in the last instruction that it may execute, the third waits
and has no turn, and the last runs off the end of its program, which is no instruction. -/
theorem report_truthful_four :
    let loops := Instance.start 4 ⟨0, .ofInstructions "loops" [.jump 0]⟩ ⟨0, 1⟩
    let faulty := Instance.start 2 ⟨1, .ofInstructions "faulty" [.nop, .ret]⟩ ⟨0, 1⟩
    let waits : Instance :=
      { Instance.start 9 ⟨2, .ofInstructions "waits" [.wait (.const 5)]⟩ ⟨0, 1⟩ with
        status := .suspended (.timer 5) }
    let ends := Instance.start 7 ⟨3, .ofInstructions "ends" [.nop]⟩ ⟨0, 1⟩
    let s : Scheduler :=
      ⟨{ quota := 2, traceInstructions := true }, [loops, faulty, waits, ends], 10,
        0xFFFFFFFFFFFFFFFF⟩
    let field := Field.empty 0 0
    let report := (s.runTick field).1
    report.tick = 0 ∧
      (TickEvent.unexecuted report.events).map some =
        [some (.quotaExhausted 4), some (.faulted 2 .callStackUnderflow), some (.halted 7)] ∧
      report.executed = 5 ∧ report.events.countP TickEvent.isExecuted = report.executed ∧
      (s.steppedBy field faulty).length ≤ 2 ∧
      .executed 2 4 "RET()" ∈ report.events ∧
      ∃ i ∈ [loops, faulty, ends], i.id = 2 ∧
        ∃ instruction, (4, instruction) ∈ i.program.entries ∧ "RET()" = instruction.text := by
  intro loops faulty waits ends s field report
  obtain ⟨⟨htick, -⟩, hclosing, -, hquota, hexecuted, htraced, hentry⟩ :=
    report_truthful s (by decide) field
  have hmem : .executed 2 4 "RET()" ∈ report.events := by decide
  have hwraps : s.tick + 1 = 0 := by decide
  exact ⟨htick.trans hwraps, hclosing, hexecuted, htraced rfl, hquota faulty (by decide), hmem,
    hentry 2 4 _ hmem⟩

end Scheduler

end FieldEngine
