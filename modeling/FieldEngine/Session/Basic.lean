import FieldEngine.Script.Decoder
import FieldEngine.Script.Listing
import FieldEngine.Session.Snapshot
import FieldEngine.Trace.Tracer

/-!
# Sessions

A session runs scripts on a field: it registers decoded scripts by name, starts instances, keeps
the release tick of every instance that waits for a timer, and traces what happens. A script that
is loaded again replaces the registered one; instances that run the replaced edition keep it, and
the session remembers its bytes as long as some instance runs it.
-/

namespace FieldEngine

/-- A registered or replaced script. -/
structure LoadedScript where
  source : List UInt8
  edition : Edition
deriving DecidableEq

structure Session where
  field : Field
  scheduler : Scheduler
  decoder : DecoderConfig
  /-- The registered scripts by name. -/
  scripts : Std.ExtTreeMap String LoadedScript
  /-- Replaced scripts that instances still run. -/
  retired : List LoadedScript
  /-- The release tick of each instance that waits for a timer. -/
  timers : Std.ExtTreeMap Nat UInt64
  tracer : Tracer
  /-- The serial number of the next edition. -/
  nextSerial : Nat
deriving DecidableEq

namespace Session

/-! ## Setup -/

def ofField (field : Field) : Session where
  field := field
  scheduler := .empty {}
  decoder := {}
  scripts := ∅
  retired := []
  timers := ∅
  tracer := .disabled
  nextSerial := 0

def ofSeed (seed : UInt64) : Session :=
  ofField (.ofSeed seed)

/-- Decode with other settings from now on. -/
def withDecoder (s : Session) (decoder : DecoderConfig) : Session :=
  { s with decoder }

/-- Start over with a scheduler of other settings; instances and their timers are dropped. -/
def withScheduler (s : Session) (config : SchedulerConfig) : Session :=
  { s with scheduler := .empty config, timers := ∅, retired := [] }

/-- Trace with another tracer; instructions are reported while it is enabled. -/
def withTracer (s : Session) (tracer : Tracer) : Session :=
  { s with tracer, scheduler := s.scheduler.setTrace tracer.isEnabled }

/-- Turn tracing on or off, instructions included. -/
def setTracing (s : Session) (on : Bool) : Session :=
  { s with tracer := s.tracer.setEnabled on, scheduler := s.scheduler.setTrace on }

def record (s : Session) (event : TraceEvent) : Session :=
  { s with tracer := s.tracer.record event }

/-! ## Scripts -/

def program? (s : Session) (name : String) : Option Program :=
  s.scripts[name]?.map fun script => script.edition.program

/-- The names of the registered scripts, sorted. -/
def scriptNames (s : Session) : List String :=
  s.scripts.keys

/-- Some instance runs the edition of the script. -/
def isRun (s : Session) (script : LoadedScript) : Bool :=
  s.scheduler.instances.any fun i => i.edition.serial == script.edition.serial

/-- Forget the replaced scripts that no instance runs. -/
def pruneRetired (s : Session) : Session :=
  { s with retired := s.retired.filter s.isRun }

/-- Decode a script and register it under a name. On failure nothing but the trace changes. -/
def loadScript (s : Session) (name : String) (source : List UInt8) :
    Except Error Program × Session :=
  match decode s.decoder name source with
  | .error e =>
    (.error ⟨.decode e, some ⟨some name, e.offset?⟩⟩, s.record (.decodeFailed name e))
  | .ok program =>
    let s := s.record (.scriptLoaded name program.size)
    let loaded : LoadedScript := ⟨source, ⟨s.nextSerial, program⟩⟩
    let registered : Session :=
      { s with scripts := s.scripts.insert name loaded, nextSerial := s.nextSerial + 1 }
    match s.scripts[name]? with
    | none => (.ok program, registered)
    | some replaced =>
      (.ok program, { registered with retired := s.retired ++ [replaced] }.pruneRetired)

def disassemble (s : Session) (name : String) : Except Error String :=
  match s.program? name with
  | some program => .ok (Listing.withHeader program)
  | none => .error (.of (.unknownScript name))

/-! ## Instances -/

def createEntity (s : Session) (name : String) : EntityId × Session :=
  let (id, field) := s.field.spawnEntity name
  (id, { s with field })

/-- Start an instance of a registered script on a live entity. -/
def spawn (s : Session) (script : String) (owner : EntityId) : Except Error Nat × Session :=
  match s.scripts[script]? with
  | none => (.error (.of (.unknownScript script)), s)
  | some loaded =>
    match s.field.entity owner with
    | .error fault => (.error (.of (.fault fault)), s)
    | .ok _ =>
      let (id, scheduler) := s.scheduler.spawn loaded.edition owner
      (.ok id, { s with scheduler }.record (.spawned id script owner))

/-- End the timer of an instance. -/
def releaseTimer (s : Session) (id : Nat) : Session :=
  let event : HostEvent := .timerElapsed id
  let (released, scheduler) := s.scheduler.notify event
  { s with scheduler, timers := s.timers.erase id }.record (.notified event released)

/-- The instances whose timers end with the coming tick, in the order of their numbers. -/
def dueTimers (s : Session) : List Nat :=
  (s.timers.toList.filter fun e => e.2 ≤ s.scheduler.tick + 1).map Prod.fst

/-- The timers after the waits that a tick began. A wait lasts at least one tick. -/
def timersAfter (report : TickReport) (timers : Std.ExtTreeMap Nat UInt64) :
    Std.ExtTreeMap Nat UInt64 :=
  report.suspended.foldl (fun timers (id, reason) =>
    match reason with
    | .timer frames => timers.insert id (report.tick + .ofNat (max frames.toInt.toNat 1))
    | .dialogue _ _ | .animation _ _ => timers) timers

/-- One tick: timers that are due end first, then every running instance gets its turn. -/
def tick (s : Session) : TickReport × Session :=
  let s := s.dueTimers.foldl releaseTimer s
  let (report, scheduler, field) := s.scheduler.runTick s.field
  (report,
    { s with
      scheduler := scheduler
      field := field
      timers := timersAfter report s.timers
      tracer := s.tracer.recordReport report })

def run : (ticks : Nat) → Session → List TickReport × Session
  | 0, s => ([], s)
  | n + 1, s =>
    let (report, s) := s.tick
    let (reports, s) := run n s
    (report :: reports, s)

/-- The session without the timers of some instances. -/
def dropTimers (s : Session) (ids : List Nat) : Session :=
  { s with timers := ids.foldl (fun timers id => timers.erase id) s.timers }

/-- Deliver a host event; the answer lists the released instances. -/
def notify (s : Session) (event : HostEvent) : List Nat × Session :=
  let (released, scheduler) := s.scheduler.notify event
  (released, ({ s with scheduler }.dropTimers released).record (.notified event released))

/-- Release one instance, whatever it waits for. -/
def resume (s : Session) (id : Nat) : Except Error Unit × Session :=
  match s.scheduler.resume id with
  | (.error e, scheduler) => (.error e, { s with scheduler })
  | (.ok (), scheduler) => (.ok (), ({ s with scheduler }.dropTimers [id]).record (.resumed id))

def cancel (s : Session) (id : Nat) : Except Error Instance × Session :=
  match s.scheduler.cancel id with
  | (.error e, scheduler) => (.error e, { s with scheduler })
  | (.ok removed, scheduler) =>
    (.ok removed, (({ s with scheduler }.dropTimers [id]).pruneRetired).record (.cancelled id))

/-- Trace the removal of instances. -/
def recordCancelled (s : Session) (ids : List Nat) : Session :=
  { s with tracer := s.tracer.recordAll (ids.map .cancelled) }

def cancelOwnedBy (s : Session) (owner : EntityId) : List Nat × Session :=
  let (removed, scheduler) := s.scheduler.cancelOwnedBy owner
  (removed, (({ s with scheduler }.dropTimers removed).recordCancelled removed).pruneRetired)

/-- Remove every instance; the answer is their number. -/
def cancelAll (s : Session) : Nat × Session :=
  let ids := s.scheduler.instances.map Instance.id
  let (count, scheduler) := s.scheduler.cancelAll
  (count, { s with scheduler, timers := ∅, retired := [] }.recordCancelled ids)

def reap (s : Session) : List Instance × Session :=
  let (done, scheduler) := s.scheduler.reap
  (done, ({ s with scheduler }.dropTimers (done.map Instance.id)).pruneRetired)

/-! ## Saving -/

/-- The bytes of the edition that an instance runs. -/
def sourceOf? (s : Session) (i : Instance) : Option (List UInt8) :=
  ((s.scripts.toList.map Prod.snd ++ s.retired).find? fun script =>
    script.edition.serial == i.edition.serial).map LoadedScript.source

/-- The instance runs the registered edition of its script. -/
def runsRegistered (s : Session) (i : Instance) : Bool :=
  match s.scripts[i.program.name]? with
  | some script => script.edition.serial == i.edition.serial
  | none => false

def snapshot (s : Session) : SessionSnapshot where
  field := s.field
  scheduler := s.scheduler.snapshot
  scripts := s.scripts.toList.map fun (name, script) => (name, script.source)
  detached := s.scheduler.instances.filterMap fun i =>
    if s.runsRegistered i then none else (s.sourceOf? i).map fun source => (i.id, source)
  timers := s.timers.toList

/-! ## Restoring -/

/-- Scripts decoded while a session is restored. -/
structure Restoring where
  nextSerial : Nat
  scripts : Std.ExtTreeMap String LoadedScript
  retired : List LoadedScript
  /-- The scripts of instances that do not run the registered one. -/
  detached : Std.ExtTreeMap Nat LoadedScript

namespace Restoring

/-- Decode saved bytes as a new edition. -/
def decodeSaved (r : Restoring) (decoder : DecoderConfig) (name : String) (source : List UInt8) :
    Except Error LoadedScript :=
  match decode decoder name source with
  | .ok program => .ok ⟨source, ⟨r.nextSerial, program⟩⟩
  | .error e => .error ⟨.decode e, some ⟨some name, none⟩⟩

/-- Take in a registered script. -/
def addScript (decoder : DecoderConfig) (r : Restoring) (saved : String × List UInt8) :
    Except Error Restoring := do
  let script ← r.decodeSaved decoder saved.1 saved.2
  .ok { r with nextSerial := r.nextSerial + 1, scripts := r.scripts.insert saved.1 script }

/-- Take in the script of an instance that does not run the registered one. Instances with the
same name and bytes share an edition; an unknown instance is passed over. -/
def addDetached (decoder : DecoderConfig) (instances : List InstanceSnapshot) (r : Restoring)
    (saved : Nat × List UInt8) : Except Error Restoring :=
  match instances.find? fun i => i.id == saved.1 with
  | none => .ok r
  | some i =>
    let shared := r.retired.find? fun script =>
      script.source == saved.2 && script.edition.program.name == i.script
    match shared with
    | some script => .ok { r with detached := r.detached.insert saved.1 script }
    | none => do
      let script ← r.decodeSaved decoder i.script saved.2
      .ok { r with
        nextSerial := r.nextSerial + 1
        retired := r.retired ++ [script]
        detached := r.detached.insert saved.1 script }

/-- The edition for a saved instance. -/
def edition? (r : Restoring) (i : InstanceSnapshot) : Option Edition :=
  (r.detached[i.id]?.or r.scripts[i.script]?).map LoadedScript.edition

end Restoring

/-- Replace the session by a saved one. Settings, trace and serial numbers stay its own. The
scheduler is restored in a copy, which takes the place of the old one only if that succeeds. -/
def restore (s : Session) (saved : SessionSnapshot) : Except Error Unit × Session :=
  match saved.scripts.foldlM (Restoring.addScript s.decoder) ⟨s.nextSerial, ∅, [], ∅⟩ with
  | .error e => (.error e, s)
  | .ok r =>
    match saved.detached.foldlM (Restoring.addDetached s.decoder saved.scheduler.instances) r with
    | .error e => (.error e, s)
    | .ok r =>
      match s.scheduler.restore saved.scheduler r.edition? with
      | (.error e, _) => (.error e, s)
      | (.ok (), scheduler) =>
        let s := { s with scheduler }
        let s := { s with scripts := r.scripts, nextSerial := r.nextSerial }
        let s := { s with retired := r.retired }
        let s := { s with field := saved.field }
        let s := { s with timers := .ofList saved.timers }
        (.ok (), s)

end Session

end FieldEngine
