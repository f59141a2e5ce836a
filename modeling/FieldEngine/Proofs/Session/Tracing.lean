import FieldEngine.Proofs.Scheduler.Turns
import FieldEngine.Proofs.Session.Restoring

/-!
# Tracing is inert

A session without its trace (`Session.untraced`) has no tracer to speak of and does not report
instructions. All that an operation does, and all that it answers apart from the reports that an
instruction runs, can be told from that:

    m.turn false id quota s = (m.turn traced id quota s).untraced                  (turn_untraced)
    (s.setTrace false).runTick field = the tick of s, untraced                  (runTick_untraced)
    withoutTrace (s.untraced.perform op) = withoutTrace (s.perform op)          (perform_untraced)

So two hosts that do the same to sessions which differ in their traces only, each adjusting its
trace as it likes, see the same at every point (`tracing_inert`).
-/

namespace FieldEngine

/-! ## Reports -/

/-- The turn without the instructions that it shows. -/
def Turn.untraced (turn : Turn) : Turn :=
  { turn with events := TickEvent.unexecuted turn.events }

def TickReport.untraced (r : TickReport) : TickReport :=
  { r with events := TickEvent.unexecuted r.events }

def Reply.untraced : Reply → Reply
  | report r => report r.untraced
  | reply => reply

theorem TickReport.untraced_untraced (r : TickReport) : r.untraced.untraced = r.untraced := by
  simp only [untraced, TickEvent.unexecuted, List.filter_filter, Bool.and_self]

/-- The waits of a report are not among what is left out. -/
theorem TickReport.suspended_untraced (r : TickReport) : r.untraced.suspended = r.suspended := by
  unfold suspended untraced TickEvent.unexecuted
  induction r.events with
  | nil => rfl
  | cons e rest ih =>
    cases e with
    | executed id offset instruction => exact ih
    | suspended id reason => exact congrArg ((id, reason) :: ·) ih
    | halted id => exact ih
    | faulted id fault => exact ih
    | quotaExhausted id => exact ih

/-! ## Turns and rounds -/

theorem Turn.closed_untraced (id : Nat) (status : Status) (state : ExecState) :
    (Turn.closed id status state).untraced = Turn.closed id status state := by
  cases status <;> rfl

namespace Machine

theorem shown_untraced (m : Machine) (traced : Bool) (id : Nat) (s : ExecState) :
    m.shown false id s = TickEvent.unexecuted (m.shown traced id s) := by
  unfold shown
  cases m.program.get? s.cursor.pc with
  | none => rfl
  | some instruction => cases traced <;> rfl

/-- **A turn** does the same whether it shows its instructions or not. -/
theorem turn_untraced (m : Machine) (traced : Bool) (id quota : Nat) (s : ExecState) :
    m.turn false id quota s = (m.turn traced id quota s).untraced := by
  induction quota generalizing s with
  | zero => rfl
  | succ quota ih =>
    have hafter : ∀ result : StepResult, m.turnAfter false id quota result =
        (m.turnAfter traced id quota result).untraced := by
      rintro ⟨outcome, t⟩
      cases outcome with
      | error fault => exact (Turn.closed_untraced id _ t).symm
      | ok stop =>
        cases stop with
        | «continue» => exact ih t
        | suspend reason => exact (Turn.closed_untraced id _ t).symm
        | halt => exact (Turn.closed_untraced id _ t).symm
    rw [turn_succ, turn_succ, hafter, shown_untraced m traced]
    simp only [Turn.untraced, Turn.prepend, TickEvent.unexecuted_append]

end Machine

namespace Scheduler

/-- What a round comes to, without the instructions that it shows. -/
def Round.untraced (r : Round) : Round :=
  { r with events := TickEvent.unexecuted r.events }

theorem round_untraced (config : SchedulerConfig) (l : List Instance) (field : Field) :
    round { config with traceInstructions := false } l field = (round config l field).untraced := by
  induction l generalizing field with
  | nil => rfl
  | cons i rest ih =>
    by_cases hi : i.status = .running
    · have hturn : turnOf { config with traceInstructions := false } i field =
          (turnOf config i field).untraced := Machine.turn_untraced _ _ _ _ _
      rw [round_running _ hi, round_running _ hi, hturn]
      simp only [ih, Turn.untraced, Round.untraced, TickEvent.unexecuted_append]
      rfl
    · rw [round_waiting _ hi, round_waiting _ hi, ih]
      rfl

theorem runTick_untraced (s : Scheduler) (field : Field) :
    (s.setTrace false).runTick field =
      ((s.runTick field).1.untraced, (s.runTick field).2.1.setTrace false,
        (s.runTick field).2.2) := by
  unfold runTick
  simp only [setTrace, round_untraced]
  rfl

theorem resume_setTrace (s : Scheduler) (on : Bool) (id : Nat) :
    (s.setTrace on).resume id = ((s.resume id).1, (s.resume id).2.setTrace on) := by
  have hget : (s.setTrace on).get? id = s.get? id := rfl
  simp only [resume, hget]
  cases s.get? id with
  | none => rfl
  | some i =>
    dsimp only
    cases i.status <;> rfl

theorem cancel_setTrace (s : Scheduler) (on : Bool) (id : Nat) :
    (s.setTrace on).cancel id = ((s.cancel id).1, (s.cancel id).2.setTrace on) := by
  have hget : (s.setTrace on).get? id = s.get? id := rfl
  simp only [cancel, hget]
  cases s.get? id <;> rfl

theorem restore_setTrace (s : Scheduler) (on : Bool) (saved : SchedulerSnapshot)
    (editions : InstanceSnapshot → Option Edition) :
    (s.setTrace on).restore saved editions =
      ((s.restore saved editions).1, (s.restore saved editions).2.setTrace on) := by
  unfold restore
  cases instancesOf editions saved.instances <;> rfl

end Scheduler

namespace Session

/-! ## Sessions without their traces -/

def untraced (s : Session) : Session :=
  { s with scheduler := s.scheduler.setTrace false, tracer := .disabled }

/-- What an operation comes to, without the trace. -/
def withoutTrace (outcome : Reply × Session) : Reply × Session :=
  (outcome.1.untraced, outcome.2.untraced)

theorem untraced_releaseTimer (s : Session) (id : Nat) :
    (s.untraced.releaseTimer id).untraced = (s.releaseTimer id).untraced :=
  rfl

theorem untraced_releaseTimers (s : Session) (ids : List Nat) :
    (ids.foldl releaseTimer s.untraced).untraced = (ids.foldl releaseTimer s).untraced := by
  induction ids generalizing s with
  | nil => rfl
  | cons id ids ih =>
    rw [List.foldl_cons, List.foldl_cons, ← ih, untraced_releaseTimer, ih]

theorem untraced_load (s : Session) (name : String) (source : List UInt8) :
    withoutTrace (s.untraced.perform (.load name source)) =
      withoutTrace (s.perform (.load name source)) := by
  have hdecoder : s.untraced.decoder = s.decoder := rfl
  have hscripts : s.untraced.scripts = s.scripts := rfl
  simp only [perform, loadScript, hdecoder]
  cases decode s.decoder name source with
  | error e => rfl
  | ok program =>
    simp only [record, hscripts]
    cases s.scripts[name]? <;> rfl

theorem untraced_spawn (s : Session) (script : String) (owner : EntityId) :
    withoutTrace (s.untraced.perform (.spawn script owner)) =
      withoutTrace (s.perform (.spawn script owner)) := by
  have hscripts : s.untraced.scripts = s.scripts := rfl
  have hfield : s.untraced.field = s.field := rfl
  simp only [perform, spawn, hscripts, hfield]
  cases s.scripts[script]? with
  | none => rfl
  | some loaded =>
    dsimp only
    cases s.field.entity owner <;> rfl

theorem untraced_resume (s : Session) (id : Nat) :
    withoutTrace (s.untraced.perform (.resume id)) = withoutTrace (s.perform (.resume id)) := by
  have hscheduler : s.untraced.scheduler = s.scheduler.setTrace false := rfl
  simp only [perform, resume, hscheduler, Scheduler.resume_setTrace]
  rcases s.scheduler.resume id with ⟨e | _, scheduler⟩ <;> rfl

theorem untraced_cancel (s : Session) (id : Nat) :
    withoutTrace (s.untraced.perform (.cancel id)) = withoutTrace (s.perform (.cancel id)) := by
  have hscheduler : s.untraced.scheduler = s.scheduler.setTrace false := rfl
  simp only [perform, cancel, hscheduler, Scheduler.cancel_setTrace]
  rcases s.scheduler.cancel id with ⟨e | i, scheduler⟩ <;> rfl

theorem untraced_restore (s : Session) (saved : SessionSnapshot) :
    withoutTrace (s.untraced.perform (.restore saved)) =
      withoutTrace (s.perform (.restore saved)) := by
  have hscheduler : s.untraced.scheduler = s.scheduler.setTrace false := rfl
  have hrestoring : s.untraced.restoring saved = s.restoring saved := rfl
  simp only [perform, restore_eq, hrestoring, hscheduler, Scheduler.restore_setTrace]
  cases s.restoring saved with
  | error e => rfl
  | ok r =>
    dsimp only
    rcases s.scheduler.restore saved.scheduler r.edition? with ⟨e | _, scheduler⟩ <;> rfl

/-- The tick of a session of which the timers that are due have ended. -/
def turns (s : Session) : Reply × Session :=
  let (report, scheduler, field) := s.scheduler.runTick s.field
  (.report report,
    { s with
      scheduler := scheduler
      field := field
      timers := timersAfter report s.timers
      tracer := s.tracer.recordReport report })

theorem untraced_turns (s : Session) : withoutTrace s.untraced.turns = withoutTrace s.turns := by
  have htick : s.untraced.scheduler.runTick s.untraced.field =
      ((s.scheduler.runTick s.field).1.untraced, (s.scheduler.runTick s.field).2.1.setTrace false,
        (s.scheduler.runTick s.field).2.2) := Scheduler.runTick_untraced s.scheduler s.field
  unfold turns
  rw [htick]
  generalize s.scheduler.runTick s.field = result
  obtain ⟨report, scheduler, field⟩ := result
  have hreport : report.untraced.untraced = report.untraced := report.untraced_untraced
  have htimers : timersAfter report.untraced s.timers = timersAfter report s.timers := by
    unfold timersAfter
    rw [report.suspended_untraced]
    rfl
  show (Reply.report report.untraced.untraced, { s.untraced with
      scheduler := scheduler.setTrace false
      field := field
      timers := timersAfter report.untraced s.timers }) = _
  rw [hreport, htimers]
  rfl

theorem untraced_tick (s : Session) :
    withoutTrace (s.untraced.perform .tick) = withoutTrace (s.perform .tick) := by
  have hreleased := untraced_releaseTimers s s.dueTimers
  calc withoutTrace (s.untraced.perform .tick)
      = withoutTrace (s.dueTimers.foldl releaseTimer s.untraced).turns := rfl
    _ = withoutTrace (s.dueTimers.foldl releaseTimer s).turns := by
      rw [← untraced_turns, hreleased, untraced_turns]
    _ = withoutTrace (s.perform .tick) := rfl

/-- **Step.** What an operation comes to does not depend on the trace. -/
theorem perform_untraced (s : Session) (op : Operation) :
    withoutTrace (s.untraced.perform op) = withoutTrace (s.perform op) := by
  cases op with
  | load name source => exact untraced_load s name source
  | spawn script owner => exact untraced_spawn s script owner
  | tick => exact untraced_tick s
  | resume id => exact untraced_resume s id
  | cancel id => exact untraced_cancel s id
  | restore saved => exact untraced_restore s saved
  -- The others neither look at the scheduler's settings nor at the tracer.
  | _ => rfl

end Session

/-! ## Deeds -/

/-- A change to the trace alone. -/
inductive Adjustment
  | setTracing (on : Bool)
  | withTracer (tracer : Tracer)
  | setFocus (focus : Option Nat)
  | setFormat (format : TraceFormat)
  | clear
  /-- Any other change to the tracer that the session lends out. -/
  | lend (change : Tracer → Tracer)

/-- What a host does to a session: an operation, other decoder settings, a change to the field that
the session lends out, or a change to the trace alone. -/
inductive Deed
  | operation (op : Operation)
  | decoder (config : DecoderConfig)
  | lend (change : Field → Field)
  | adjust (adjustment : Adjustment)

/-- The deed changes the trace alone. -/
def Deed.isAdjustment : Deed → Bool
  | adjust _ => true
  | operation _ | decoder _ | lend _ => false

/-- The deeds that do not change the trace alone. -/
def Deed.apartFromTrace (deeds : List Deed) : List Deed :=
  deeds.filter fun d => !d.isAdjustment

namespace Session

def adjust (s : Session) : Adjustment → Session
  | .setTracing on => s.setTracing on
  | .withTracer tracer => s.withTracer tracer
  | .setFocus focus => { s with tracer := s.tracer.setFocus focus }
  | .setFormat format => { s with tracer := s.tracer.setFormat format }
  | .clear => { s with tracer := s.tracer.clear }
  | .lend change => { s with tracer := change s.tracer }

def carryOut (s : Session) : Deed → Reply × Session
  | .operation op => s.perform op
  | .decoder config => (.done, s.withDecoder config)
  | .lend change => (.done, { s with field := change s.field })
  | .adjust adjustment => (.done, s.adjust adjustment)

def following (s : Session) : List Deed → Session
  | [] => s
  | deed :: rest => (s.carryOut deed).2.following rest

/-- What is there to be seen of a session besides its trace. -/
structure Sight where
  field : Field
  scheduler : SchedulerSnapshot
  scripts : Std.ExtTreeMap String LoadedScript
  timers : Std.ExtTreeMap Nat UInt64
deriving DecidableEq

def sight (s : Session) : Sight :=
  ⟨s.field, s.scheduler.snapshot, s.scripts, s.timers⟩

/-- The replies to some deeds, without the instructions that they show, each with what is there to
be seen after it. Changes to the trace are passed over. -/
def course (s : Session) : List Deed → List (Reply × Sight)
  | [] => []
  | deed :: rest =>
    let (reply, t) := s.carryOut deed
    if deed.isAdjustment then t.course rest else (reply.untraced, t.sight) :: t.course rest

theorem untraced_adjust (s : Session) (adjustment : Adjustment) :
    (s.adjust adjustment).untraced = s.untraced := by
  cases adjustment <;> rfl

section

variable {s t : Session} (h : s.untraced = t.untraced)

include h

theorem sight_congr : s.sight = t.sight := by
  show s.untraced.sight = t.untraced.sight
  rw [h]

theorem carryOut_congr (deed : Deed) :
    withoutTrace (s.carryOut deed) = withoutTrace (t.carryOut deed) := by
  cases deed with
  | operation op =>
    show withoutTrace (s.perform op) = withoutTrace (t.perform op)
    rw [← perform_untraced s, h, perform_untraced t]
  | decoder config => exact congrArg (fun u => (Reply.done, u.withDecoder config)) h
  | lend change =>
    exact congrArg (fun u : Session => (Reply.done, { u with field := change u.field })) h
  | adjust adjustment =>
    show (Reply.done, (s.adjust adjustment).untraced) = (Reply.done, (t.adjust adjustment).untraced)
    rw [untraced_adjust, untraced_adjust, h]

/-- **Run.** The same deeds, done to sessions that differ in their traces only. -/
theorem course_congr (deeds : List Deed) :
    s.course deeds = t.course deeds ∧
      (s.following deeds).untraced = (t.following deeds).untraced := by
  induction deeds generalizing s t with
  | nil => exact ⟨rfl, h⟩
  | cons deed rest ih =>
    obtain ⟨hreply, hnext⟩ := Prod.mk.inj (carryOut_congr h deed)
    obtain ⟨hcourse, hend⟩ := ih hnext
    refine ⟨?_, hend⟩
    rw [course, course]
    dsimp only
    rw [hreply, hcourse, sight_congr hnext]

end

/-- **Run.** Changes to the trace can be left out. -/
theorem course_apartFromTrace (s : Session) (deeds : List Deed) :
    s.course deeds = s.course (Deed.apartFromTrace deeds) ∧
      (s.following deeds).untraced = (s.following (Deed.apartFromTrace deeds)).untraced := by
  induction deeds generalizing s with
  | nil => exact ⟨rfl, rfl⟩
  | cons deed rest ih =>
    obtain ⟨hcourse, hend⟩ := ih (s.carryOut deed).2
    cases deed with
    | adjust adjustment =>
      obtain ⟨hsame, hsameEnd⟩ :=
        course_congr (untraced_adjust s adjustment) (Deed.apartFromTrace rest)
      exact ⟨hcourse.trans hsame, hend.trans hsameEnd⟩
    | operation op => exact ⟨congrArg (_ :: ·) hcourse, hend⟩
    | decoder config => exact ⟨congrArg (_ :: ·) hcourse, hend⟩
    | lend change => exact ⟨congrArg (_ :: ·) hcourse, hend⟩

/-- **Tracing is inert.** Two hosts do the same to sessions that differ only in the tracer and in
whether instructions are reported, and each of them changes its trace where it likes. They get the
same replies, apart from the reports that an instruction runs, and after each deed and at the end
they see the same field, scheduler, scripts and timers. -/
theorem tracing_inert {s t : Session} (h : s.untraced = t.untraced) {deeds deeds' : List Deed}
    (hdeeds : Deed.apartFromTrace deeds = Deed.apartFromTrace deeds') :
    s.course deeds = t.course deeds' ∧ (s.following deeds).sight = (t.following deeds').sight := by
  obtain ⟨hs, hsend⟩ := course_apartFromTrace s deeds
  obtain ⟨ht, htend⟩ := course_apartFromTrace t deeds'
  obtain ⟨hsame, hsameEnd⟩ := course_congr h (Deed.apartFromTrace deeds)
  rw [hdeeds] at hs hsend hsame hsameEnd
  exact ⟨(hs.trans hsame).trans ht.symm,
    sight_congr ((hsend.trans hsameEnd).trans htend.symm)⟩

/-- A case in which one host turns tracing on and off, and the other traces instructions from the
start, with room for two records, and changes the focus and the rendering. The reports of the tick
differ as they are. -/
theorem tracing_inert_waiting :
    let s := ofSeed 7
    let t := s.withTracer (.ofConfig { enabled := true, capacity := 2, kinds := ["instruction"] })
    let start : List Deed := [.lend fun f => (f.spawnEntity "npc").2,
      .operation (.load "door" [0x03, 0x00, 0x07, 0x00, 0x00, 0x00, 0x23, 0x00]),
      .operation (.spawn "door" ⟨0, 1⟩)]
    let deeds := start ++ [.adjust (.setTracing true), .adjust (.setTracing false),
      .operation .tick, .operation .snapshot]
    let deeds' := .adjust (.setFocus (some 2)) :: start ++ [.operation .tick, .adjust .clear,
      .adjust (.setFormat .json), .operation .snapshot]
    s.untraced = t.untraced ∧ s.course deeds = t.course deeds' ∧
      (s.following deeds).sight = (t.following deeds').sight ∧
      (s.following deeds).scheduler.instances.map Instance.status = [.suspended (.timer 3)] ∧
      ((s.following start).perform .tick).1 ≠ ((t.following start).perform .tick).1 := by
  intro s t start deeds deeds'
  have hstart : s.untraced = t.untraced := rfl
  have hdeeds : Deed.apartFromTrace deeds = Deed.apartFromTrace deeds' := rfl
  obtain ⟨hcourse, hsight⟩ := tracing_inert hstart hdeeds
  exact ⟨hstart, hcourse, hsight, by decide, by decide⟩

end Session

end FieldEngine
