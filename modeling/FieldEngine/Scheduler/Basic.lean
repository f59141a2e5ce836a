import FieldEngine.Error
import FieldEngine.Scheduler.HostEvent
import FieldEngine.Scheduler.Report

/-!
# Scheduling

Many instances share one field. In a tick every running instance gets a turn, in the order of
registration: it runs until it waits, ends, faults, or has used its quota of instructions.
Suspended instances wait for host events. Instance numbers are handed out in order; only a restore
sets the next one back.
-/

namespace FieldEngine

structure SchedulerConfig where
  /-- Most instructions of one instance in a tick. -/
  quota : Nat := 256
  /-- Most pending calls of one instance. -/
  maxCallDepth : Nat := 16
  /-- Report every instruction. -/
  traceInstructions : Bool := false
deriving DecidableEq

/-- Set the quota; a turn has at least one instruction. -/
def SchedulerConfig.withQuota (c : SchedulerConfig) (quota : Nat) : SchedulerConfig :=
  { c with quota := max quota 1 }

/-- Instances in the order of registration, and the counters. -/
structure Scheduler where
  config : SchedulerConfig
  instances : List Instance
  /-- The number of the next instance; numbers never run out. -/
  nextId : Nat
  /-- Ticks so far; the count wraps around. -/
  tick : UInt64
deriving DecidableEq

structure SchedulerSnapshot where
  tick : UInt64
  nextId : Nat
  instances : List InstanceSnapshot
deriving DecidableEq

/-! ## One turn -/

/-- What a turn of an instance comes to. -/
structure Turn where
  events : List TickEvent
  executed : Nat
  status : Status
  state : ExecState

/-- The turn of an instance with a quota. -/
def Machine.turn (m : Machine) (traced : Bool) (id : Nat) : (quota : Nat) → ExecState → Turn
  | 0, s => ⟨[.quotaExhausted id], 0, .running, s⟩
  | quota + 1, s =>
    let pc := s.cursor.pc
    let shown : List TickEvent :=
      match m.program.get? pc with
      | some instruction =>
        if traced then [.executed id ((m.program.offsetOf? pc).getD 0) instruction.text] else []
      | none => []
    let counted := if (m.program.get? pc).isSome then 1 else 0
    match m.step s with
    | (.ok .continue, t) =>
      let rest := turn m traced id quota t
      { rest with events := shown ++ rest.events, executed := counted + rest.executed }
    | (.ok (.suspend reason), t) =>
      ⟨shown ++ [.suspended id reason], counted, .suspended reason, t⟩
    | (.ok .halt, t) => ⟨shown ++ [.halted id], counted, .halted, t⟩
    | (.error fault, t) => ⟨shown ++ [.faulted id fault], counted, .faulted fault, t⟩

namespace Scheduler

def empty (config : SchedulerConfig) : Scheduler :=
  ⟨config, [], 1, 0⟩

/-! ## Queries -/

def get? (s : Scheduler) (id : Nat) : Option Instance :=
  s.instances.find? fun i => i.id == id

def status? (s : Scheduler) (id : Nat) : Option Status :=
  (s.get? id).map Instance.status

def suspended (s : Scheduler) : List (Nat × WaitReason) :=
  s.instances.filterMap fun i => i.status.reason?.map fun reason => (i.id, reason)

def setTrace (s : Scheduler) (on : Bool) : Scheduler :=
  { s with config := { s.config with traceInstructions := on } }

/-! ## Registration -/

/-- Register an instance; it first runs in the next tick. -/
def spawn (s : Scheduler) (edition : Edition) (owner : EntityId) : Nat × Scheduler :=
  (s.nextId,
    { s with
      instances := s.instances ++ [.start s.nextId edition owner]
      nextId := s.nextId + 1 })

def cancel (s : Scheduler) (id : Nat) : Except Error Instance × Scheduler :=
  match s.get? id with
  | none => (.error (.of (.unknownInstance id)), s)
  | some i => (.ok i, { s with instances := s.instances.eraseP fun j => j.id == id })

def cancelOwnedBy (s : Scheduler) (owner : EntityId) : List Nat × Scheduler :=
  let (removed, kept) := s.instances.partition fun i => i.owner == owner
  (removed.map Instance.id, { s with instances := kept })

def cancelAll (s : Scheduler) : Nat × Scheduler :=
  (s.instances.length, { s with instances := [] })

def reap (s : Scheduler) : List Instance × Scheduler :=
  let (done, live) := s.instances.partition fun i => i.status.isTerminal
  (done, { s with instances := live })

/-! ## Waits -/

/-- The event ends the wait of the instance. -/
def isReleased (event : HostEvent) (i : Instance) : Bool :=
  match i.status with
  | .suspended reason => event.releases i.id reason
  | .running | .halted | .faulted _ => false

/-- Deliver a host event: every instance that waits for it runs again. -/
def notify (s : Scheduler) (event : HostEvent) : List Nat × Scheduler :=
  ((s.instances.filter (isReleased event)).map Instance.id,
    { s with
      instances := s.instances.map fun i =>
        if isReleased event i then { i with status := .running } else i })

/-- The instances with the first of a number changed. -/
def updateFirst (id : Nat) (f : Instance → Instance) : List Instance → List Instance
  | [] => []
  | i :: rest => if i.id == id then f i :: rest else i :: updateFirst id f rest

/-- Release one instance, whatever it waits for. -/
def resume (s : Scheduler) (id : Nat) : Except Error Unit × Scheduler :=
  match s.get? id with
  | none => (.error (.of (.unknownInstance id)), s)
  | some i =>
    match i.status with
    | .suspended _ =>
      (.ok (), { s with
        instances := updateFirst id (fun j => { j with status := .running }) s.instances })
    | .running | .halted | .faulted _ => (.error (.of (.notSuspended id)), s)

/-! ## Ticks -/

/-- What the turns of a list of instances come to. -/
structure Round where
  instances : List Instance
  field : Field
  executed : Nat
  events : List TickEvent

/-- The turns of instances, one after the other. -/
def round (config : SchedulerConfig) : List Instance → Field → Round
  | [], field => ⟨[], field, 0, []⟩
  | i :: rest, field =>
    if i.status = .running then
      let machine : Machine := ⟨i.program, i.owner, config.maxCallDepth⟩
      let turn := machine.turn config.traceInstructions i.id config.quota ⟨i.cursor, field⟩
      let later := round config rest turn.state.field
      { instances :=
          { i with cursor := turn.state.cursor, status := turn.status } :: later.instances
        field := later.field
        executed := turn.executed + later.executed
        events := turn.events ++ later.events }
    else
      let later := round config rest field
      { later with instances := i :: later.instances }

def runTick (s : Scheduler) (field : Field) : TickReport × Scheduler × Field :=
  let r := round s.config s.instances field
  (⟨s.tick + 1, r.executed, r.events⟩, { s with instances := r.instances, tick := s.tick + 1 },
    r.field)

/-! ## Saving -/

def snapshot (s : Scheduler) : SchedulerSnapshot :=
  ⟨s.tick, s.nextId, s.instances.map Instance.snapshot⟩

/-- The saved instances with the programs that `editions` gives them. -/
def instancesOf (editions : InstanceSnapshot → Option Edition) :
    List InstanceSnapshot → Except Error (List Instance)
  | [] => .ok []
  | saved :: rest =>
    match editions saved with
    | none => .error (.of (.unknownScript saved.script))
    | some edition => (instancesOf editions rest).map (Instance.ofSnapshot edition saved :: ·)

/-- Replace all instances and the counters by saved ones. -/
def restore (s : Scheduler) (saved : SchedulerSnapshot)
    (editions : InstanceSnapshot → Option Edition) : Except Error Unit × Scheduler :=
  match instancesOf editions saved.instances with
  | .error e => (.error e, s)
  | .ok instances =>
    let s := { s with instances }
    let s := { s with tick := saved.tick }
    let s := { s with nextId := saved.nextId }
    (.ok (), s)

end Scheduler

end FieldEngine
