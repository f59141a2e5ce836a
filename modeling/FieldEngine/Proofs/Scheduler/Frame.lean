import FieldEngine.Proofs.Machine.Effects
import FieldEngine.Proofs.Scheduler.Slices

/-!
# What scripts cannot touch

A stretch of execution goes from one field to another through some instructions. It stays within the
frame of the owners of its scripts, and it accounts for what it does: every instruction is counted,
and shown if instructions are traced, and no random number is drawn but by an instruction for it.
Stretches follow one another (`Stretch.append`), so a step, a turn, a round and any number of ticks
are stretches:

    Stretch (· = m.owner) traced s.field (m.stepped quota s) …                    (turn_stretch)
    Stretch (RunsFor l) config.traceInstructions field (roundStepped config l field) …
                                                                                 (round_stretch)
    Stretch … field (s.stepped n field) … (s.ticks n field).2.2                  (ticks_stretch)

Main statement: `scripts_stay_in_frame`.
-/

namespace FieldEngine

/-! ## Stretches -/

/-- The text of the instruction that an event shows. -/
def TickEvent.instruction? : TickEvent → Option String
  | executed _ _ text => some text
  | _ => none

/-- A stretch of execution of scripts of some owners: from a field through some instructions, with
what is counted and reported of them, to another field. -/
structure Stretch (owners : EntityId → Prop) (traced : Bool) (f : Field)
    (through : List Instruction) (executed : Nat) (events : List TickEvent) (g : Field) : Prop where
  framed : f.Framed owners g
  draws : g.draws = f.draws + .ofNat (through.countP Instruction.isRandom)
  counted : executed = through.length
  shown : events.filterMap TickEvent.instruction? =
    if traced then through.map Instruction.text else []

namespace Stretch

variable {owners owners' : EntityId → Prop} {traced : Bool} {f g k : Field}
  {a b : List Instruction} {n n' : Nat} {events events' : List TickEvent}

theorem append (h : Stretch owners traced f a n events g)
    (h' : Stretch owners traced g b n' events' k) :
    Stretch owners traced f (a ++ b) (n + n') (events ++ events') k where
  framed := h.framed.trans h'.framed
  draws := by rw [h'.draws, h.draws, List.countP_append, UInt64.ofNat_add, UInt64.add_assoc]
  counted := by rw [h.counted, h'.counted, List.length_append]
  shown := by
    rw [List.filterMap_append, h.shown, h'.shown]
    cases traced with
    | false => rfl
    | true => exact List.map_append.symm

theorem mono (h : Stretch owners traced f a n events g) (howners : ∀ id, owners id → owners' id) :
    Stretch owners' traced f a n events g :=
  { h with framed := h.framed.mono howners }

/-- No instruction is stepped; nothing happens. -/
theorem nil (f : Field) (h : events.filterMap TickEvent.instruction? = []) :
    Stretch owners traced f [] 0 events f where
  framed := .refl f
  draws := (UInt64.add_zero f.draws).symm
  counted := rfl
  shown := by
    rw [h]
    cases traced <;> rfl

/-- The end of a turn is reported, not counted. -/
theorem closing (f : Field) (id : Nat) (status : Status) :
    Stretch owners traced f [] 0 [status.closing id] f :=
  nil f (by cases status <;> rfl)

end Stretch

/-! ## Steps and turns -/

namespace Machine

theorem step_stretch (m : Machine) (traced : Bool) (id : Nat) (s : ExecState) :
    Stretch (· = m.owner) traced s.field (m.program.get? s.cursor.pc).toList (m.counted s)
      (m.shown traced id s) (m.step s).2.field := by
  unfold step counted shown
  cases m.program.get? s.cursor.pc with
  | none => exact .nil s.field rfl
  | some i =>
    have heffect := m.execute_effect s i
    refine ⟨heffect.framed, ?_, rfl, ?_⟩
    · rw [heffect.draws, Option.toList_some, List.countP_singleton]
      cases i.isRandom with
      | true => rfl
      | false => exact (UInt64.add_zero s.field.draws).symm
    · cases traced <;> rfl

def stepped (m : Machine) : (quota : Nat) → ExecState → List Instruction
  | 0, _ => []
  | quota + 1, s =>
    (m.program.get? s.cursor.pc).toList ++
      match m.step s with
      | (.ok .continue, t) => stepped m quota t
      | _ => []

theorem turn_stretch (m : Machine) (traced : Bool) (id quota : Nat) (s : ExecState) :
    let turn := m.turn traced id quota s
    Stretch (· = m.owner) traced s.field (m.stepped quota s) turn.executed turn.events
      turn.state.field := by
  induction quota generalizing s with
  | zero => exact .closing s.field id .running
  | succ quota ih =>
    rw [turn_succ, stepped]
    refine (m.step_stretch traced id s).append ?_
    rcases m.step s with ⟨outcome, t⟩
    cases outcome with
    | error fault => exact .closing t.field id (.faulted fault)
    | ok stop =>
      cases stop with
      | «continue» => exact ih t
      | suspend reason => exact .closing t.field id (.suspended reason)
      | halt => exact .closing t.field id .halted

end Machine

/-! ## Rounds and ticks -/

namespace Scheduler

/-- Some running instance is owned by exactly this entity. -/
def RunsFor (l : List Instance) (id : EntityId) : Prop :=
  ∃ i ∈ l, i.owner = id ∧ i.status = .running

def roundStepped (config : SchedulerConfig) : List Instance → Field → List Instruction
  | [], _ => []
  | i :: rest, field =>
    if i.status = .running then
      (i.machine config).stepped config.quota ⟨i.cursor, field⟩ ++
        roundStepped config rest (turnOf config i field).state.field
    else roundStepped config rest field

theorem round_stretch (config : SchedulerConfig) (l : List Instance) (field : Field) :
    let r := round config l field
    Stretch (RunsFor l) config.traceInstructions field (roundStepped config l field) r.executed
      r.events r.field := by
  induction l generalizing field with
  | nil => exact .nil field rfl
  | cons i rest ih =>
    have hrest : ∀ id, RunsFor rest id → RunsFor (i :: rest) id := by
      rintro id ⟨j, hj, howner⟩
      exact ⟨j, List.mem_cons_of_mem i hj, howner⟩
    by_cases hi : i.status = .running
    · rw [round_running config hi, roundStepped, if_pos hi]
      have hturn := (i.machine config).turn_stretch config.traceInstructions i.id config.quota
        ⟨i.cursor, field⟩
      refine (hturn.mono ?_).append ((ih _).mono hrest)
      rintro id rfl
      exact ⟨i, List.mem_cons_self, rfl, hi⟩
    · rw [round_waiting config hi, roundStepped, if_neg hi]
      exact (ih field).mono hrest

/-- The instructions that so many ticks step through. -/
def stepped : (n : Nat) → Scheduler → Field → List Instruction
  | 0, _, _ => []
  | n + 1, s, field =>
    let (_, t, after) := s.runTick field
    roundStepped s.config s.instances field ++ stepped n t after

theorem ticks_stretch (s : Scheduler) (n : Nat) (field : Field) :
    let (reports, _, after) := s.ticks n field
    Stretch (fun _ => True) s.config.traceInstructions field (s.stepped n field)
      (s.outcome n field).2.2 (reports.flatMap TickReport.events) after := by
  induction n generalizing s field with
  | zero => exact .nil field rfl
  | succ n ih =>
    have htick := (round_stretch s.config s.instances field).mono fun _ _ => trivial
    exact htick.append (ih (s.runTick field).2.1 (s.runTick field).2.2)

/-- The last of some ticks is a tick of its own. -/
theorem ticks_succ (s : Scheduler) (n : Nat) (field : Field) :
    (s.ticks (n + 1) field).2 = ((s.ticks n field).2.1.runTick (s.ticks n field).2.2).2 := by
  induction n generalizing s field with
  | zero => rfl
  | succ n ih => exact ih (s.runTick field).2.1 (s.runTick field).2.2

/-- **What scripts cannot touch.** However many ticks are run: the seed, the size of the memory and,
of the entity table, the generations, the free slots, the occupied slots and the names stay. Between
two ticks the passability of an entity changes only if a running instance was owned by exactly its
handle. A flag that is newly set is one that exists. As many random numbers are drawn as
instructions for it are stepped, where the count of draws wraps around; the instructions stepped are
as many as the reports count, and the ones that the reports show where instructions are traced. -/
theorem scripts_stay_in_frame (s : Scheduler) (n : Nat) (field : Field) :
    let reports := (s.ticks n field).1
    let after := (s.ticks n field).2.2
    after.seed = field.seed ∧ after.memory.size = field.memory.size ∧
    after.entities.generations = field.entities.generations ∧
    after.entities.free = field.entities.free ∧
    (∀ slot, slot ∈ after.entities.records ↔ slot ∈ field.entities.records) ∧
    (∀ slot : Nat, after.entities.records[slot]?.map EntityRecord.name =
      field.entities.records[slot]?.map EntityRecord.name) ∧
    (∀ k id, (s.ticks (k + 1) field).2.2.isPassable id ≠ (s.ticks k field).2.2.isPassable id →
      ∃ i ∈ (s.ticks k field).2.1.instances, i.owner = id ∧ i.status = .running) ∧
    (∀ index ∈ after.flags, index ∉ field.flags → index.toNat < Field.flagCount) ∧
    after.draws = field.draws + .ofNat ((s.stepped n field).countP Instruction.isRandom) ∧
    (s.stepped n field).length = (s.outcome n field).2.2 ∧
    (s.config.traceInstructions = true →
      (reports.flatMap TickReport.events).filterMap TickEvent.instruction? =
        (s.stepped n field).map Instruction.text) := by
  intro reports after
  obtain ⟨hframed, hdraws, hcounted, hshown⟩ := s.ticks_stretch n field
  refine ⟨hframed.seed, hframed.memory, hframed.generations, hframed.free, hframed.occupied,
    hframed.names, ?_, hframed.flags, hdraws, hcounted.symm, ?_⟩
  · intro k id hchanged
    rw [ticks_succ] at hchanged
    exact (round_stretch _ _ _).framed.isPassable hchanged
  · intro htraced
    rw [htraced] at hshown
    exact hshown

/-- A case of a script that opens the way through its owner, beside one that faults: it has no
scratch slot for the number it draws. -/
theorem scripts_stay_in_frame_guard :
    let program := Program.ofInstructions "guard" [.random 0, .setPassable true, .halt]
    let guard := Instance.start 1 ⟨0, program⟩ ⟨0, 1⟩
    let stray := Instance.start 2 ⟨1, .ofInstructions "stray" [.random 9]⟩ ⟨0, 3⟩
    let s : Scheduler := ⟨{ quota := 8, traceInstructions := true }, [guard, stray], 3, 0⟩
    let field := ((Field.empty 0 0).spawnEntity "guard").2
    let after := (s.ticks 1 field).2.2
    after.draws = 2 ∧ (s.outcome 1 field).2.2 = 4 ∧
      after.entities.generations = field.entities.generations ∧
      after.isPassable ⟨0, 1⟩ = .ok true ∧ field.isPassable ⟨0, 1⟩ = .ok false ∧
      ∃ i ∈ [guard, stray], i.owner = ⟨0, 1⟩ ∧ i.status = .running := by
  intro program guard stray s field after
  obtain ⟨-, -, hgenerations, -, -, -, hpassable, -, hdraws, hcounted, -⟩ :=
    scripts_stay_in_frame s 1 field
  have hstepped : s.stepped 1 field = [.random 0, .setPassable true, .halt, .random 9] := by rfl
  have hopen : after.isPassable ⟨0, 1⟩ = .ok true := by rfl
  have hclosed : field.isPassable ⟨0, 1⟩ = .ok false := by rfl
  rw [hstepped] at hdraws hcounted
  refine ⟨hdraws, hcounted.symm, hgenerations, hopen, hclosed, hpassable 0 ⟨0, 1⟩ ?_⟩
  show after.isPassable ⟨0, 1⟩ ≠ field.isPassable ⟨0, 1⟩
  rw [hopen, hclosed]
  intro h
  cases h

end Scheduler

end FieldEngine
