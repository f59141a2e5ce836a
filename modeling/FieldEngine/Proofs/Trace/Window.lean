import Mathlib.Data.List.DropRight
import FieldEngine.Trace.Tracer

/-!
# The trace as a window

A ledger (`TraceLedger`) writes down, without a buffer, what a tracer is to remember: every event
that was kept, in order, and which of them came before the last clearing. An event is kept if
tracing was enabled and the filters in force then let it pass. The buffer is a window on the ledger:
the latest of the events since the last clearing, each numbered by its place among all events that
were ever kept (`Tracer.Shows`). One push moves the window by one, whatever the capacity:

    (b.push tick timestamp event).2.toList = (b.toList ++ [new]).rtake b.capacity   (toList_push)
    t.Shows room l → (t.perform request).Shows room (l.enter request)  (Shows.perform)

Main statement: `trace_window`.
-/

namespace FieldEngine

/-! ## Requests and the ledger -/

/-- What a host can ask of a tracer, and the passing of time. -/
inductive TraceRequest
  | record (event : TraceEvent)
  | recordReport (report : TickReport)
  | setEnabled (enabled : Bool)
  | setFocus (focus : Option Nat)
  | clear
  | setFormat (format : TraceFormat)
  | setEcho (echo : Bool)
  | takeEchoed
  | setClock (nanoseconds : Nat)

def Tracer.perform (t : Tracer) : TraceRequest → Tracer
  | .record event => t.record event
  | .recordReport report => t.recordReport report
  | .setEnabled enabled => t.setEnabled enabled
  | .setFocus focus => t.setFocus focus
  | .clear => t.clear
  | .setFormat format => t.setFormat format
  | .setEcho echo => t.setEcho echo
  | .takeEchoed => t.takeEchoed.2
  | .setClock nanoseconds => { t with clock := nanoseconds }

def Tracer.after (t : Tracer) (requests : List TraceRequest) : Tracer :=
  requests.foldl perform t

/-- All events that were kept, and the settings now in force. -/
structure TraceLedger where
  config : TracerConfig
  /-- Kept before the last clearing, oldest first. -/
  cleared : List TraceEvent
  /-- Kept since the last clearing, oldest first. -/
  recent : List TraceEvent

/-- **What the filters let pass.** Where kinds are named, an event of one of them; where an instance
is followed, an event of that instance or a boundary of a tick. -/
theorem TracerConfig.keeps_iff (c : TracerConfig) (event : TraceEvent) :
    c.keeps event = true ↔ (c.kinds = [] ∨ event.kind ∈ c.kinds) ∧
      ∀ id, c.focus = some id → event.isTickBoundary = true ∨ event.instanceId? = some id := by
  unfold keeps
  rw [Bool.and_eq_true, Bool.or_eq_true, List.isEmpty_iff, List.contains_iff_mem]
  apply and_congr_right
  intro _
  cases c.focus with
  | none => simp
  | some id => simp

namespace TraceLedger

/-- Nothing has been kept. -/
def start (config : TracerConfig) : TraceLedger :=
  ⟨config, [], []⟩

/-- An event is kept now. -/
def accepts (l : TraceLedger) (event : TraceEvent) : Bool :=
  l.config.enabled && l.config.keeps event

/-- Write down those of some events that are kept. -/
def keep (l : TraceLedger) (events : List TraceEvent) : TraceLedger :=
  { l with recent := l.recent ++ events.filter l.accepts }

def enter (l : TraceLedger) : TraceRequest → TraceLedger
  | .record event => l.keep [event]
  | .recordReport report => l.keep (Tracer.reportEvents report)
  | .setEnabled enabled => { l with config := { l.config with enabled } }
  | .setFocus focus => { l with config := { l.config with focus } }
  | .clear => { l with cleared := l.cleared ++ l.recent, recent := [] }
  | .setFormat format => { l with config := { l.config with format } }
  | .setEcho echo => { l with config := { l.config with echo } }
  | .takeEchoed | .setClock _ => l

def after (l : TraceLedger) (requests : List TraceRequest) : TraceLedger :=
  requests.foldl enter l

/-- The number of events that were ever kept. -/
def total (l : TraceLedger) : Nat :=
  l.cleared.length + l.recent.length

/-- The events since the last clearing, each with the number of events that were kept before it. -/
def numbered (l : TraceLedger) : List (TraceEvent × Nat) :=
  l.recent.zipIdx l.cleared.length

theorem keep_nil (l : TraceLedger) : l.keep [] = l := by
  simp [keep]

theorem keep_cons (l : TraceLedger) (event : TraceEvent) (events : List TraceEvent) :
    l.keep (event :: events) = (l.keep [event]).keep events := by
  unfold keep
  rw [List.append_assoc, List.filter_cons, List.filter_singleton]
  cases l.accepts event <;> rfl

theorem keep_disabled {l : TraceLedger} (h : ¬l.config.enabled = true) (events : List TraceEvent) :
    l.keep events = l := by
  have hnone : events.filter l.accepts = [] := by
    simp [accepts, h]
  rw [keep, hnone, List.append_nil]

end TraceLedger

/-! ## The end of a list -/

section

variable {α β : Type}

theorem map_rtake (f : α → β) (l : List α) (n : Nat) : (l.rtake n).map f = (l.map f).rtake n := by
  rw [List.rtake, List.rtake, List.map_drop, List.length_map]

theorem length_rtake (l : List α) (n : Nat) : (l.rtake n).length = min n l.length := by
  rw [List.rtake, List.length_drop]
  omega

/-- What has left the end of a list does not come back when the list grows. -/
theorem rtake_rtake_append (l m : List α) (n : Nat) :
    (l.rtake n ++ m).rtake n = (l ++ m).rtake n := by
  simp only [List.rtake, List.length_append, List.length_drop]
  rw [← List.drop_append_of_le_length (by omega), List.drop_drop]
  congr 1
  omega

theorem toList_extract_size (a : Array α) (start : Nat) :
    (a.extract start a.size).toList = a.toList.drop start := by
  rw [Array.toList_extract, List.extract_eq_take_drop, List.take_of_length_le]
  rw [List.length_drop, Array.length_toList]

end

/-! ## Buffers -/

namespace TraceBuffer

theorem length_toList (b : TraceBuffer) : b.toList.length = b.size :=
  Array.length_toList

theorem recent_eq (b : TraceBuffer) (count : Nat) : b.recent count = b.toList.rtake count := by
  rw [recent, List.rtake, length_toList]
  exact toList_extract_size b.records (b.size - count)

/-- **One push** moves the window by one record; without capacity there is nothing to be seen. -/
theorem toList_push (b : TraceBuffer) (tick timestamp : Nat) (event : TraceEvent) :
    (b.push tick timestamp event).2.toList =
      (b.toList ++ [TraceRecord.mk b.nextId tick timestamp event]).rtake b.capacity := by
  show (if b.capacity = 0 then #[] else _).toList = _
  by_cases hzero : b.capacity = 0
  · rw [if_pos hzero, hzero, List.rtake_zero]
  obtain ⟨room, hroom⟩ := Nat.exists_eq_succ_of_ne_zero hzero
  rw [if_neg hzero, Array.toList_push, hroom, List.rtake_concat_succ, List.rtake, length_toList]
  split
  · rw [Nat.sub_eq_zero_of_le (by omega), List.drop_zero]
    rfl
  · rw [Nat.succ_sub_succ]
    exact congrArg (· ++ _) (toList_extract_size b.records (b.size - room))

end TraceBuffer

/-! ## The window -/

namespace Tracer

/-- The tracer shows the end of a ledger: as many of the latest events as there is room for. -/
structure Shows (t : Tracer) (room : Nat) (l : TraceLedger) : Prop where
  config : t.config = l.config
  capacity : t.buffer.capacity = room
  nextId : t.buffer.nextId = l.total
  window : t.buffer.toList.map (fun r => (r.event, r.id)) = l.numbered.rtake room

/-- A push keeps the event, whether it is echoed or not. -/
theorem push_eq (t : Tracer) (event : TraceEvent) :
    ∃ echoed, t.push event =
      { t with buffer := (t.buffer.push t.tick t.clock event).2, echoed := echoed } := by
  unfold push
  dsimp only
  split
  · exact ⟨_, rfl⟩
  · exact ⟨t.echoed, rfl⟩

variable {t : Tracer} {room : Nat} {l : TraceLedger}

theorem Shows.push (h : t.Shows room l) (event : TraceEvent) :
    (t.push event).Shows room { l with recent := l.recent ++ [event] } := by
  obtain ⟨echoed, hpush⟩ := t.push_eq event
  rw [hpush]
  refine ⟨h.config, h.capacity, ?_, ?_⟩
  · show t.buffer.nextId + 1 = _
    rw [h.nextId, TraceLedger.total, TraceLedger.total, List.length_append]
    rfl
  · show List.map _ (t.buffer.push t.tick t.clock event).2.toList = _
    rw [TraceBuffer.toList_push, map_rtake, List.map_append, h.window, h.capacity,
      List.map_singleton, h.nextId, rtake_rtake_append, TraceLedger.numbered, TraceLedger.numbered,
      List.zipIdx_append]
    rfl

theorem Shows.record (h : t.Shows room l) (event : TraceEvent) :
    (t.record event).Shows room (l.keep [event]) := by
  rw [Tracer.record, TraceLedger.keep, List.filter_singleton, TraceLedger.accepts, h.config]
  cases l.config.enabled && l.config.keeps event with
  | true => exact h.push event
  | false =>
    show t.Shows room { l with recent := l.recent ++ [] }
    rw [List.append_nil]
    exact h

theorem Shows.recordAll (h : t.Shows room l) (events : List TraceEvent) :
    (t.recordAll events).Shows room (l.keep events) := by
  induction events generalizing t l with
  | nil =>
    rw [TraceLedger.keep_nil]
    exact h
  | cons event events ih =>
    rw [TraceLedger.keep_cons]
    exact ih (h.record event)

theorem Shows.recordReport (h : t.Shows room l) (report : TickReport) :
    (t.recordReport report).Shows room (l.keep (reportEvents report)) := by
  unfold Tracer.recordReport
  split
  · have hstamped : { t with tick := report.tick.toNat }.Shows room l :=
      ⟨h.config, h.capacity, h.nextId, h.window⟩
    exact hstamped.recordAll _
  · rename_i hdisabled
    rw [TraceLedger.keep_disabled (by rw [← h.config]; exact hdisabled)]
    exact h

/-- **Step.** After a request the tracer shows the ledger with the request written down. -/
theorem Shows.perform (h : t.Shows room l) (request : TraceRequest) :
    (t.perform request).Shows room (l.enter request) := by
  cases request with
  | record event => exact h.record event
  | recordReport report => exact h.recordReport report
  | setEnabled enabled =>
    exact ⟨congrArg ({ · with enabled }) h.config, h.capacity, h.nextId, h.window⟩
  | setFocus focus =>
    exact ⟨congrArg ({ · with focus }) h.config, h.capacity, h.nextId, h.window⟩
  | clear =>
    refine ⟨h.config, h.capacity, ?_, ?_⟩
    · show t.buffer.nextId = _
      rw [h.nextId, TraceLedger.total, TraceLedger.total, TraceLedger.enter, List.length_append]
      rfl
    · show [] = List.rtake [] room
      rw [List.rtake_nil]
  | setFormat format =>
    exact ⟨congrArg ({ · with format }) h.config, h.capacity, h.nextId, h.window⟩
  | setEcho echo =>
    exact ⟨congrArg ({ · with echo }) h.config, h.capacity, h.nextId, h.window⟩
  | takeEchoed => exact ⟨h.config, h.capacity, h.nextId, h.window⟩
  | setClock nanoseconds => exact ⟨h.config, h.capacity, h.nextId, h.window⟩

/-- **Run.** -/
theorem Shows.after (h : t.Shows room l) (requests : List TraceRequest) :
    (t.after requests).Shows room (l.after requests) := by
  induction requests generalizing t l with
  | nil => exact h
  | cons request rest ih => exact ih (h.perform request)

theorem shows_ofConfig (config : TracerConfig) :
    (ofConfig config).Shows config.capacity (.start config) :=
  ⟨rfl, rfl, rfl, (List.rtake_nil _).symm⟩

/-! ## Numbers -/

/-- What is there later is there now, or has a number that is not used yet. -/
structure Later (t u : Tracer) : Prop where
  nextId : t.buffer.nextId ≤ u.buffer.nextId
  fresh : ∀ r ∈ u.buffer.toList, r ∈ t.buffer.toList ∨ t.buffer.nextId ≤ r.id

theorem Later.of_buffer {t u : Tracer} (h : u.buffer = t.buffer) : t.Later u := by
  constructor
  · rw [h]
  · rw [h]
    exact fun r hr => .inl hr

theorem Later.trans {t u w : Tracer} (h : t.Later u) (h' : u.Later w) : t.Later w where
  nextId := Nat.le_trans h.nextId h'.nextId
  fresh r hr := by
    rcases h'.fresh r hr with hr | hr
    · exact h.fresh r hr
    · exact .inr (Nat.le_trans h.nextId hr)

theorem later_record (t : Tracer) (event : TraceEvent) : t.Later (t.record event) := by
  unfold record
  split
  · obtain ⟨echoed, hpush⟩ := t.push_eq event
    rw [hpush]
    refine ⟨Nat.le_succ _, fun r hr => ?_⟩
    have hmem : r ∈ t.buffer.toList ++ [TraceRecord.mk t.buffer.nextId t.tick t.clock event] := by
      apply List.mem_of_mem_drop
      rw [← List.rtake, ← TraceBuffer.toList_push]
      exact hr
    rcases List.mem_append.1 hmem with hold | hnew
    · exact .inl hold
    · rw [List.mem_singleton.1 hnew]
      exact .inr (Nat.le_refl _)
  · exact .of_buffer rfl

theorem later_recordAll (t : Tracer) (events : List TraceEvent) : t.Later (t.recordAll events) := by
  induction events generalizing t with
  | nil => exact .of_buffer rfl
  | cons event events ih => exact (t.later_record event).trans (ih _)

theorem later_perform (t : Tracer) (request : TraceRequest) : t.Later (t.perform request) := by
  cases request with
  | record event => exact t.later_record event
  | recordReport report =>
    show t.Later (t.recordReport report)
    unfold recordReport
    split
    · have hstamped : t.Later { t with tick := report.tick.toNat } := .of_buffer rfl
      exact hstamped.trans (later_recordAll _ _)
    · exact .of_buffer rfl
  | clear => exact ⟨Nat.le_refl _, nofun⟩
  | _ => exact .of_buffer rfl

theorem later_after (t : Tracer) (requests : List TraceRequest) : t.Later (t.after requests) := by
  induction requests generalizing t with
  | nil => exact .of_buffer rfl
  | cons request rest ih => exact (t.later_perform request).trans (ih _)

end Tracer

open Tracer in
/-- **The trace is a window.** After any requests to a tracer of any capacity and any filters, the
buffer holds the latest events that were kept since the last clearing, in order and as many as there
is room for. An event is kept if tracing is on, its kind is one of those that are named, if any are,
and it concerns the instance that is followed, if one is, or is a boundary of a tick. Each has for
its number how many events were kept before it in the whole life of the tracer. Asked for its `n`
most recent records, the buffer gives its last `n`, or all if it has fewer. Whatever follows, a
number that has been used is never that of another record. -/
theorem trace_window (config : TracerConfig) (requests : List TraceRequest) :
    let t := (ofConfig config).after requests
    let ledger := (TraceLedger.start config).after requests
    t.config = ledger.config ∧
    (∀ event, ledger.accepts event = true ↔ ledger.config.enabled = true ∧
      (ledger.config.kinds = [] ∨ event.kind ∈ ledger.config.kinds) ∧
      ∀ id, ledger.config.focus = some id →
        event.isTickBoundary = true ∨ event.instanceId? = some id) ∧
    t.buffer.toList.map (fun r => (r.event, r.id)) = ledger.numbered.rtake config.capacity ∧
    t.buffer.size = min config.capacity ledger.recent.length ∧
    (∀ n, t.buffer.recent n = t.buffer.toList.rtake n ∧
      (t.buffer.recent n).length = min n t.buffer.size) ∧
    ∀ more, ∀ r ∈ (t.after more).buffer.toList, r ∈ t.buffer.toList ∨ ledger.total ≤ r.id := by
  intro t ledger
  have hshows : t.Shows config.capacity ledger := (shows_ofConfig config).after requests
  refine ⟨hshows.config, ?_, hshows.window, ?_, ?_, ?_⟩
  · intro event
    rw [TraceLedger.accepts, Bool.and_eq_true, TracerConfig.keeps_iff]
  · have hlength := congrArg List.length hshows.window
    rw [List.length_map, TraceBuffer.length_toList, length_rtake] at hlength
    rw [hlength, TraceLedger.numbered, List.length_zipIdx]
  · intro n
    refine ⟨t.buffer.recent_eq n, ?_⟩
    rw [t.buffer.recent_eq, length_rtake, TraceBuffer.length_toList]
  · intro more r hr
    rw [← hshows.nextId]
    exact (t.later_after more).fresh r hr

open Tracer in
/-- A case with room for two records. The filters change while events come in, one is kept before a
clearing and three after it, so the window has the numbers two and three. A tracer without room
numbers its events all the same. One that keeps two kinds only has one event left, which is neither
of another kind nor of another instance. -/
theorem trace_window_two :
    let requests : List TraceRequest := [.record (.resumed 1), .setEnabled true,
      .record (.resumed 1), .clear, .setFocus (some 7), .record (.cancelled 1),
      .recordReport ⟨4, 0, [.halted 1, .quotaExhausted 7]⟩]
    let t := (ofConfig { capacity := 2 }).after requests
    let none := (ofConfig { capacity := 0 }).after requests
    let picky := (ofConfig { capacity := 2, kinds := ["resumed", "tick-end"] }).after requests
    let later := t.after [.clear, .setFocus .none, .record (.halted 9)]
    t.buffer.toList.map (fun r => (r.event, r.id)) = [(.preempted 7, 2), (.tickEnd 4 0, 3)] ∧
      t.buffer.size = 2 ∧ (t.buffer.recent 1).length = 1 ∧
      none.buffer.size = 0 ∧ none.buffer.nextId = 4 ∧
      picky.buffer.toList.map (fun r => (r.event, r.id)) = [(.tickEnd 4 0, 1)] ∧
      (∃ r ∈ later.buffer.toList, r.event = .halted 9 ∧ (r ∈ t.buffer.toList ∨ 4 ≤ r.id)) := by
  intro requests t none picky later
  obtain ⟨-, -, hwindow, hsize, hrecent, hfresh⟩ := trace_window { capacity := 2 } requests
  obtain ⟨-, -, -, hnone, -, -⟩ := trace_window { capacity := 0 } requests
  obtain ⟨-, -, hpicky, -, -, -⟩ :=
    trace_window { capacity := 2, kinds := ["resumed", "tick-end"] } requests
  refine ⟨hwindow, hsize, (hrecent 1).2, hnone, rfl, hpicky, ?_⟩
  have hmem : ⟨4, 4, 0, .halted 9⟩ ∈ later.buffer.toList := by decide
  exact ⟨_, hmem, rfl, hfresh _ _ hmem⟩

end FieldEngine
