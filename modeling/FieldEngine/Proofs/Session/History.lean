import FieldEngine.Session.Basic

/-!
# Histories of sessions

What a host can do to a session, as data: `Session.perform` carries out one operation and gives the
host's answer, `Session.trail` a sequence of them with all that can be observed after each. The
session after an operation is the one that the operation leaves, also if it fails.

`Session.Uniform` is every session that some history leads to with decoder settings that were fixed
before the first script. A session also lends out its field and its tracer for the host to change as
it likes; `Session.Attained` has these changes too. `Session.InTime` are those of them in whose
histories no deadline overflows.

An instance in a reply is given without the serial number of its edition (`Instance.plain`): serial
numbers only tell loadings apart, and no reply shows them.
-/

namespace FieldEngine

/-! ## Serial numbers left out -/

/-- The edition without its serial number. -/
def Edition.plain (e : Edition) : Edition :=
  { e with serial := 0 }

def Instance.plain (i : Instance) : Instance :=
  { i with edition := i.edition.plain }

def LoadedScript.plain (l : LoadedScript) : LoadedScript :=
  { l with edition := l.edition.plain }

/-! ## Operations -/

/-- What the host does to the field by itself. -/
inductive HostEdit
  | place (name : String)
  | remove (id : EntityId)
  | write (bank : Bank) (index : UInt16) (value : Int32)
  | setFlag (index : UInt16) (value : Bool)
  | setPassable (id : EntityId) (passable : Bool)
  | draw (count : Nat)
deriving DecidableEq

/-- What the host can do to a session. -/
inductive Operation
  | edit (edit : HostEdit)
  | load (name : String) (source : List UInt8)
  | spawn (script : String) (owner : EntityId)
  | tick
  | notify (event : HostEvent)
  | resume (id : Nat)
  | cancel (id : Nat)
  | cancelOwnedBy (owner : EntityId)
  | cancelAll
  | reap
  | snapshot
  | restore (saved : SessionSnapshot)
  | withScheduler (config : SchedulerConfig)
  | withTracer (tracer : Tracer)
  | setTracing (on : Bool)
deriving DecidableEq

inductive Reply
  | done
  | failed (error : Error)
  | fault (fault : Fault)
  | entity (id : EntityId)
  | record (record : EntityRecord)
  | bytes (bytes : List UInt8)
  | program (program : Program)
  | number (n : Nat)
  | ids (ids : List Nat)
  | report (report : TickReport)
  | instances (instances : List Instance)
  | saved (snapshot : SessionSnapshot)
deriving DecidableEq

/-- The reply to an operation that may fail. -/
def Reply.ofResult {α : Type} (reply : α → Reply) : Except Error α → Reply
  | .ok a => reply a
  | .error e => .failed e

/-- The reply to a change of the field that may fault. -/
def Reply.ofChange {α : Type} (reply : α → Reply) : Except Fault α → Reply
  | .ok a => reply a
  | .error f => .fault f

def Field.edit (f : Field) : HostEdit → Reply × Field
  | .place name => (f.spawnEntity name).map .entity id
  | .remove target => (f.despawnEntity target).map (.ofChange .record) id
  | .write bank index value => (f.write bank index value).map (.ofChange fun () => .done) id
  | .setFlag index value => (f.setFlag index value).map (.ofChange fun () => .done) id
  | .setPassable target passable =>
    (f.setPassable target passable).map (.ofChange fun () => .done) id
  | .draw count => (f.randomBytes count).map .bytes id

namespace Session

def perform (s : Session) : Operation → Reply × Session
  | .edit edit =>
    let (reply, field) := s.field.edit edit
    (reply, { s with field })
  | .load name source => (s.loadScript name source).map (.ofResult .program) id
  | .spawn script owner => (s.spawn script owner).map (.ofResult .number) id
  | .tick => (s.tick).map .report id
  | .notify event => (s.notify event).map .ids id
  | .resume target => (s.resume target).map (.ofResult fun () => .done) id
  | .cancel target => (s.cancel target).map (.ofResult fun i => .instances [i.plain]) id
  | .cancelOwnedBy owner => (s.cancelOwnedBy owner).map .ids id
  | .cancelAll => s.cancelAll.map .number id
  | .reap => s.reap.map (fun done => .instances (done.map Instance.plain)) id
  | .snapshot => (.saved s.snapshot, s)
  | .restore saved => (s.restore saved).map (.ofResult fun () => .done) id
  | .withScheduler config => (.done, s.withScheduler config)
  | .withTracer tracer => (.done, s.withTracer tracer)
  | .setTracing on => (.done, s.setTracing on)

/-! ## Histories -/

/-- What the host can see of a session, its trace apart. -/
structure Observation where
  field : Field
  scheduler : SchedulerSnapshot
  scriptNames : List String
  timers : List (Nat × UInt64)
deriving DecidableEq

def observe (s : Session) : Observation :=
  ⟨s.field, s.scheduler.snapshot, s.scriptNames, s.timers.toList⟩

def after (s : Session) : List Operation → Session
  | [] => s
  | op :: ops => (s.perform op).2.after ops

/-- The replies to some operations, each with what the host sees after it. -/
def trail (s : Session) : List Operation → List (Reply × Observation)
  | [] => []
  | op :: ops =>
    let (reply, t) := s.perform op
    (reply, t.observe) :: t.trail ops

/-- The sessions that a host can bring about; only snapshots of such sessions are restored, and
other decoder settings are taken only while there are no scripts. -/
inductive Uniform : Session → Prop
  | start (field : Field) : Uniform (.ofField field)
  | decoder {s : Session} (config : DecoderConfig) :
      Uniform s → s.scripts = ∅ → s.retired = [] → Uniform (s.withDecoder config)
  | step {s : Session} (op : Operation) :
      Uniform s → (∀ saved, op ≠ .restore saved) → Uniform (s.perform op).2
  | restore {s saved : Session} :
      Uniform s → Uniform saved → Uniform (s.perform (.restore saved.snapshot)).2

/-- The session has no scripts. -/
def Blank (s : Session) : Prop :=
  s.scripts = ∅ ∧ s.retired = []

/-- The sessions that a host can bring about if it also puts any field and any tracer in place.
Other decoder settings are taken only where `may` allows it. -/
inductive Attained (may : Session → Prop) : Session → Prop
  | start (field : Field) : Attained may (.ofField field)
  | lend {s : Session} (field : Field) (tracer : Tracer) :
      Attained may s → Attained may { s with field, tracer }
  | decoder {s : Session} (config : DecoderConfig) :
      Attained may s → may s → Attained may (s.withDecoder config)
  | step {s : Session} (op : Operation) :
      Attained may s → (∀ saved, op ≠ .restore saved) → Attained may (s.perform op).2
  | restore {s saved : Session} :
      Attained may s → Attained may saved → Attained may (s.perform (.restore saved.snapshot)).2

/-- The deadlines that the coming tick sets are numbers of 64 bits. -/
def Timely (s : Session) : Prop :=
  ∀ id frames, (id, .timer frames) ∈ s.tick.1.suspended →
    s.tick.1.tick.toNat + max frames.toInt.toNat 1 < UInt64.size

/-- The sessions that a host can bring about in this way while no deadline overflows. -/
inductive InTime (may : Session → Prop) : Session → Prop
  | start (field : Field) : InTime may (.ofField field)
  | lend {s : Session} (field : Field) (tracer : Tracer) :
      InTime may s → InTime may { s with field, tracer }
  | decoder {s : Session} (config : DecoderConfig) :
      InTime may s → may s → InTime may (s.withDecoder config)
  | step {s : Session} (op : Operation) :
      InTime may s → (∀ saved, op ≠ .restore saved) → (op = .tick → s.Timely) →
        InTime may (s.perform op).2
  | restore {s saved : Session} :
      InTime may s → InTime may saved → InTime may (s.perform (.restore saved.snapshot)).2

theorem InTime.attained {may : Session → Prop} {s : Session} (h : s.InTime may) :
    s.Attained may := by
  induction h with
  | start field => exact .start field
  | lend field tracer _ ih => exact .lend field tracer ih
  | decoder config _ hmay ih => exact .decoder config ih hmay
  | step op _ hop _ ih => exact .step op ih hop
  | restore _ _ ih ihsaved => exact .restore ih ihsaved

/-- Deadlines are far from an overflow as long as tick numbers are. -/
theorem Timely.of_tick {s : Session} (h : s.tick.1.tick.toNat + 0x80000000 < UInt64.size) :
    s.Timely := by
  intro id frames _
  have hframes := frames.toInt_lt
  omega

theorem Uniform.attained {s : Session} (h : s.Uniform) : s.Attained Blank := by
  induction h with
  | start field => exact .start field
  | decoder config _ hscripts hretired ih => exact .decoder config ih ⟨hscripts, hretired⟩
  | step op _ hop ih => exact .step op ih hop
  | restore _ _ ih ihsaved => exact .restore ih ihsaved

theorem Attained.after {may : Session → Prop} {s : Session} (hs : s.Attained may)
    (ops : List Operation) (h : ∀ op ∈ ops, ∀ saved, op ≠ .restore saved) :
    (s.after ops).Attained may := by
  induction ops generalizing s with
  | nil => exact hs
  | cons op ops ih =>
    exact ih (hs.step op (h op List.mem_cons_self))
      fun op' h' => h op' (List.mem_cons_of_mem _ h')

end Session

end FieldEngine
