import FieldEngine.Proofs.Session.Timers
import FieldEngine.Proofs.Session.Tracing
import FieldEngine.Proofs.Trace.Window

/-!
# The ticks on trace records

The number of the current tick is kept twice: the scheduler counts the ticks, and the tracer has the
tick that it stamps on new records. Only a tick that runs while tracing is enabled copies the one to
the other. A session is punctual (`Session.Punctual`) if the two agree while tracing is enabled.

What a deed does to the trace and to the count of ticks is said once, by the kinds of deeds:

* most operations write some events down and leave the count alone (`notes_perform`);
* a tick may write down that timers end, then it counts on and writes down its report
  (`perform_tick_notes`);
* a restore and a new scheduler set the count and leave the trace alone (`perform_restore_tracer`).

So the deeds that make a punctual session unpunctual are known exactly (`Session.Skews`): tracing is
turned on after the count has moved, or the count is set to another number while tracing is on.

Main statement: `stamps_punctual`.
-/

namespace FieldEngine

/-! ## Growing buffers -/

namespace TraceBuffer

/-- The buffer `c` holds the latest of the records of `b` and of new ones, all of which have `p`. -/
def Grown (b : TraceBuffer) (p : TraceRecord → Prop) (c : TraceBuffer) : Prop :=
  ∃ fresh, c.toList <:+ b.toList ++ fresh ∧ ∀ r ∈ fresh, p r

variable {b c d : TraceBuffer} {p : TraceRecord → Prop}

theorem Grown.refl (b : TraceBuffer) (p : TraceRecord → Prop) : b.Grown p b :=
  ⟨[], ⟨[], (List.append_nil _).symm⟩, nofun⟩

theorem Grown.trans (h : b.Grown p c) (h' : c.Grown p d) : b.Grown p d := by
  obtain ⟨fresh, ⟨dropped, hc⟩, hfresh⟩ := h
  obtain ⟨later, ⟨dropped', hd⟩, hlater⟩ := h'
  refine ⟨fresh ++ later, ⟨dropped ++ dropped', ?_⟩, ?_⟩
  · rw [List.append_assoc, hd, ← List.append_assoc, hc, List.append_assoc]
  · intro r hr
    rcases List.mem_append.1 hr with hr | hr
    · exact hfresh r hr
    · exact hlater r hr

theorem Grown.mem (h : b.Grown p c) {r : TraceRecord} (hr : r ∈ c.toList) :
    r ∈ b.toList ∨ p r := by
  obtain ⟨fresh, hsuffix, hfresh⟩ := h
  exact (List.mem_append.1 (hsuffix.subset hr)).imp_right (hfresh r)

theorem grown_push {tick timestamp : Nat} {event : TraceEvent}
    (h : p ⟨b.nextId, tick, timestamp, event⟩) : b.Grown p (b.push tick timestamp event).2 := by
  refine ⟨[⟨b.nextId, tick, timestamp, event⟩], ?_, fun r hr => List.mem_singleton.1 hr ▸ h⟩
  rw [toList_push]
  exact List.drop_suffix _ _

theorem grown_clear (b : TraceBuffer) (p : TraceRecord → Prop) : b.Grown p b.clear :=
  ⟨[], List.nil_suffix, nofun⟩

end TraceBuffer

namespace Tracer

/-- What a tracer writes down while it is enabled carries its tick. -/
def Stamps (t : Tracer) (r : TraceRecord) : Prop :=
  t.isEnabled = true ∧ r.tick = t.tick

/-- An event changes nothing but the records and the lines that are echoed. -/
theorem record_eq (t : Tracer) (event : TraceEvent) :
    ∃ buffer echoed, t.record event = { t with buffer := buffer, echoed := echoed } := by
  unfold record
  split
  · obtain ⟨echoed, hpush⟩ := t.push_eq event
    exact ⟨_, echoed, hpush⟩
  · exact ⟨t.buffer, t.echoed, rfl⟩

theorem recordAll_eq (t : Tracer) (events : List TraceEvent) :
    ∃ buffer echoed, t.recordAll events = { t with buffer := buffer, echoed := echoed } := by
  induction events generalizing t with
  | nil => exact ⟨t.buffer, t.echoed, rfl⟩
  | cons event events ih =>
    obtain ⟨_, _, hfirst⟩ := t.record_eq event
    obtain ⟨buffer, echoed, hrest⟩ := ih (t.record event)
    refine ⟨buffer, echoed, hrest.trans ?_⟩
    rw [hfirst]

theorem recordAll_tick (t : Tracer) (events : List TraceEvent) :
    (t.recordAll events).tick = t.tick := by
  obtain ⟨_, _, h⟩ := t.recordAll_eq events
  rw [h]

theorem recordAll_isEnabled (t : Tracer) (events : List TraceEvent) :
    (t.recordAll events).isEnabled = t.isEnabled := by
  obtain ⟨_, _, h⟩ := t.recordAll_eq events
  rw [h]
  rfl

theorem stamps_record (t : Tracer) (event : TraceEvent) :
    (t.record event).Stamps = t.Stamps := by
  obtain ⟨_, _, h⟩ := t.record_eq event
  rw [h]
  rfl

theorem grown_record (t : Tracer) (event : TraceEvent) :
    t.buffer.Grown t.Stamps (t.record event).buffer := by
  unfold record
  split
  · rename_i hkept
    obtain ⟨echoed, hpush⟩ := t.push_eq event
    rw [hpush]
    exact TraceBuffer.grown_push ⟨(Bool.and_eq_true_iff.1 hkept).1, rfl⟩
  · exact .refl _ _

theorem grown_recordAll (t : Tracer) (events : List TraceEvent) :
    t.buffer.Grown t.Stamps (t.recordAll events).buffer := by
  induction events generalizing t with
  | nil => exact .refl _ _
  | cons event events ih =>
    have hrest := ih (t.record event)
    rw [stamps_record] at hrest
    exact (t.grown_record event).trans hrest

theorem recordReport_isEnabled (t : Tracer) (report : TickReport) :
    (t.recordReport report).isEnabled = t.isEnabled := by
  unfold recordReport
  split
  · exact recordAll_isEnabled _ _
  · rfl

/-- Only a report moves the tick, and only while the tracer is enabled. -/
theorem recordReport_tick (t : Tracer) (report : TickReport) :
    (t.recordReport report).tick =
      if t.isEnabled = true then report.tick.toNat else t.tick := by
  unfold recordReport isEnabled
  split
  · exact recordAll_tick _ _
  · rfl

theorem grown_recordReport (t : Tracer) (report : TickReport) :
    t.buffer.Grown (fun r => t.isEnabled = true ∧ r.tick = report.tick.toNat)
      (t.recordReport report).buffer := by
  unfold recordReport
  split
  · exact grown_recordAll { t with tick := report.tick.toNat } _
  · exact .refl _ _

end Tracer

namespace Session

/-! ## What deeds do to the trace and to the count of ticks -/

/-- Some events are written down, and the count of ticks stays. -/
def Notes (s t : Session) : Prop :=
  ∃ events, t.tracer = s.tracer.recordAll events ∧ t.scheduler.tick = s.scheduler.tick

theorem Notes.refl (s : Session) : s.Notes s :=
  ⟨[], rfl, rfl⟩

theorem Notes.trans {s t u : Session} (h : s.Notes t) (h' : t.Notes u) : s.Notes u := by
  obtain ⟨events, htracer, htick⟩ := h
  obtain ⟨later, htracer', htick'⟩ := h'
  refine ⟨events ++ later, ?_, htick'.trans htick⟩
  rw [htracer', htracer, Tracer.recordAll, Tracer.recordAll, Tracer.recordAll, List.foldl_append]

theorem Notes.isEnabled {s t : Session} (h : s.Notes t) :
    t.tracer.isEnabled = s.tracer.isEnabled := by
  obtain ⟨events, htracer, -⟩ := h
  rw [htracer, Tracer.recordAll_isEnabled]

theorem Notes.stamp {s t : Session} (h : s.Notes t) : t.tracer.tick = s.tracer.tick := by
  obtain ⟨events, htracer, -⟩ := h
  rw [htracer, Tracer.recordAll_tick]

theorem Notes.count {s t : Session} (h : s.Notes t) : t.scheduler.tick = s.scheduler.tick := by
  obtain ⟨events, -, htick⟩ := h
  exact htick

theorem Notes.grown {s t : Session} (h : s.Notes t) :
    s.tracer.buffer.Grown s.tracer.Stamps t.tracer.buffer := by
  obtain ⟨events, htracer, -⟩ := h
  rw [htracer]
  exact s.tracer.grown_recordAll events

theorem notes_load (s : Session) (name : String) (source : List UInt8) :
    s.Notes (s.loadScript name source).2 := by
  unfold loadScript
  split
  · exact ⟨[_], rfl, rfl⟩
  · dsimp only
    split
    · exact ⟨[_], rfl, rfl⟩
    · exact ⟨[_], rfl, rfl⟩

theorem notes_spawn {s t : Session} {script : String} {owner : EntityId} {id : Nat}
    (h : s.spawn script owner = (.ok id, t)) : s.Notes t := by
  obtain ⟨loaded, -, -, rfl⟩ := spawn_ok h
  exact ⟨[_], rfl, rfl⟩

theorem notes_resume {s t : Session} {id : Nat} (h : s.resume id = (.ok (), t)) : s.Notes t := by
  obtain ⟨scheduler, hr, rfl⟩ := resume_ok h
  refine ⟨[.resumed id], rfl, ?_⟩
  show scheduler.tick = s.scheduler.tick
  rw [(Scheduler.resume_ok hr).2]

theorem notes_cancel {s t : Session} {id : Nat} {i : Instance} (h : s.cancel id = (.ok i, t)) :
    s.Notes t := by
  obtain ⟨scheduler, hc, rfl⟩ := cancel_ok h
  refine ⟨[.cancelled id], rfl, ?_⟩
  show scheduler.tick = s.scheduler.tick
  rw [(Scheduler.cancel_ok hc).2]

end Session

/-- The operation neither sets nor moves the count of ticks and leaves the tracer's settings. -/
def Operation.isQuiet : Operation → Bool
  | .tick | .restore _ | .withScheduler _ | .withTracer _ | .setTracing _ => false
  | .edit _ | .load _ _ | .spawn _ _ | .notify _ | .resume _ | .cancel _ | .cancelOwnedBy _
  | .cancelAll | .reap | .snapshot => true

namespace Session

theorem notes_perform (s : Session) {op : Operation} (h : op.isQuiet = true) :
    s.Notes (s.perform op).2 := by
  cases op with
  | edit edit => exact ⟨[], rfl, rfl⟩
  | load name source => exact s.notes_load name source
  | spawn script owner =>
    rw [perform]
    rcases (s.spawn_harmless script owner).cases with ⟨e, hs⟩ | ⟨id, t, hs⟩ <;> rw [hs]
    · exact .refl s
    · exact notes_spawn hs
  | notify event => exact ⟨[_], rfl, rfl⟩
  | resume id =>
    rw [perform]
    rcases (s.resume_harmless id).cases with ⟨e, hr⟩ | ⟨_, t, hr⟩ <;> rw [hr]
    · exact .refl s
    · exact notes_resume hr
  | cancel id =>
    rw [perform]
    rcases (s.cancel_harmless id).cases with ⟨e, hc⟩ | ⟨i, t, hc⟩ <;> rw [hc]
    · exact .refl s
    · exact notes_cancel hc
  | cancelOwnedBy owner => exact ⟨List.map .cancelled _, rfl, rfl⟩
  | cancelAll => exact ⟨List.map .cancelled _, rfl, rfl⟩
  | reap => exact ⟨[], rfl, rfl⟩
  | snapshot => exact .refl s
  | tick => cases h
  | restore saved => cases h
  | withScheduler config => cases h
  | withTracer tracer => cases h
  | setTracing on => cases h

theorem notes_releaseTimers (s : Session) (ids : List Nat) :
    s.Notes (ids.foldl releaseTimer s) := by
  induction ids generalizing s with
  | nil => exact .refl s
  | cons id ids ih =>
    have hfirst : s.Notes (s.releaseTimer id) := ⟨[_], rfl, rfl⟩
    exact hfirst.trans (ih _)

theorem notes_released (s : Session) : s.Notes s.released :=
  s.notes_releaseTimers s.dueTimers

/-- A tick counts on and reports the new count; timers end before that, under the old one. -/
theorem perform_tick_notes (s : Session) :
    ∃ report : TickReport, report.tick = s.scheduler.tick + 1 ∧
      (s.perform .tick).2.scheduler.tick = s.scheduler.tick + 1 ∧
      (s.perform .tick).2.tracer = s.released.tracer.recordReport report := by
  obtain ⟨hreport, -, hcount, -⟩ := s.tick_eq
  exact ⟨s.tick.1, congrArg TickReport.tick hreport, hcount, rfl⟩

/-- A tick that is traced moves the tick of the tracer to its own number. -/
theorem stamp_tick (s : Session) :
    (s.perform .tick).2.tracer.tick =
      if s.tracer.isEnabled = true then (s.scheduler.tick + 1).toNat else s.tracer.tick := by
  obtain ⟨report, hreport, -, htracer⟩ := s.perform_tick_notes
  rw [htracer, Tracer.recordReport_tick, s.notes_released.isEnabled, s.notes_released.stamp,
    hreport]

/-- A restore leaves the trace alone, whether it succeeds or not. -/
theorem perform_restore_tracer (s : Session) (saved : SessionSnapshot) :
    (s.perform (.restore saved)).2.tracer = s.tracer := by
  rw [perform, restore_eq]
  cases s.restoring saved with
  | error e => rfl
  | ok r =>
    dsimp only
    rcases s.scheduler.restore saved.scheduler r.edition? with ⟨e | _, scheduler⟩ <;> rfl

/-! ## Punctual sessions -/

/-- While tracing is enabled, the tick stamped on new records is the count of ticks. -/
def Punctual (s : Session) : Prop :=
  s.tracer.isEnabled = true → s.tracer.tick = s.scheduler.tick.toNat

/-- The deed moves the count of ticks and the stamp of an enabled tracer apart. -/
def Skews (s : Session) : Deed → Prop
  | .operation (.setTracing on) | .adjust (.setTracing on) =>
    on = true ∧ s.tracer.tick ≠ s.scheduler.tick.toNat
  | .operation (.restore saved) =>
    s.tracer.isEnabled = true ∧ (∃ t, s.restore saved = (.ok (), t)) ∧
      saved.scheduler.tick ≠ s.scheduler.tick
  | .operation (.withScheduler _) => s.tracer.isEnabled = true ∧ s.scheduler.tick ≠ 0
  | .operation (.withTracer tracer) | .adjust (.withTracer tracer) =>
    tracer.isEnabled = true ∧ tracer.tick ≠ s.scheduler.tick.toNat
  | .adjust (.lend change) =>
    (change s.tracer).isEnabled = true ∧ (change s.tracer).tick ≠ s.scheduler.tick.toNat
  | _ => False

/-- No deed of a run is one of those that `p` speaks of, in the session that it finds. -/
def Avoids (s : Session) (p : Session → Deed → Prop) : List Deed → Prop
  | [] => True
  | deed :: rest => ¬p s deed ∧ (s.carryOut deed).2.Avoids p rest

theorem punctual_ofField (field : Field) : (ofField field).Punctual :=
  fun _ => rfl

theorem Notes.punctual {s t : Session} (h : s.Notes t) (hs : s.Punctual) : t.Punctual := by
  intro henabled
  rw [h.isEnabled] at henabled
  rw [h.stamp, hs henabled, h.count]

/-- A tick puts every session right: an enabled tracer copies the count, another stamps nothing. -/
theorem punctual_tick (s : Session) : (s.perform .tick).2.Punctual := by
  intro henabled
  obtain ⟨report, -, hcount, htracer⟩ := s.perform_tick_notes
  rw [htracer, Tracer.recordReport_isEnabled, s.notes_released.isEnabled] at henabled
  rw [stamp_tick, if_pos henabled, hcount]

variable {s : Session}

theorem punctual_restore_iff (hs : s.Punctual) (saved : SessionSnapshot) :
    (s.perform (.restore saved)).2.Punctual ↔ ¬s.Skews (.operation (.restore saved)) := by
  have htracer := s.perform_restore_tracer saved
  rw [Punctual, Skews, htracer]
  rw [perform]
  rcases (s.restore_harmless saved).cases with ⟨e, h⟩ | ⟨_, t, h⟩ <;> rw [h]
  · refine iff_of_true hs ?_
    rintro ⟨-, ⟨t, ht⟩, -⟩
    cases ht
  · obtain ⟨r, -, -, hrestored⟩ := restore_ok h
    show (_ → s.tracer.tick = t.scheduler.tick.toNat) ↔ _
    rw [hrestored.tick]
    constructor
    · rintro hpunctual ⟨henabled, -, hmoved⟩
      exact hmoved (UInt64.toNat_inj.1 ((hpunctual henabled).symm.trans (hs henabled)))
    · intro hsame henabled
      by_contra hne
      refine hsame ⟨henabled, ⟨t, rfl⟩, fun he => hne ?_⟩
      rw [he]
      exact hs henabled

/-- **Step.** Of the deeds done to a punctual session, exactly those that skew it end its
punctuality. -/
theorem punctual_carryOut_iff (hs : s.Punctual) (deed : Deed) :
    (s.carryOut deed).2.Punctual ↔ ¬s.Skews deed := by
  cases deed with
  | operation op =>
    cases op with
    | tick => exact iff_of_true s.punctual_tick not_false
    | restore saved => exact punctual_restore_iff hs saved
    | withScheduler config =>
      show (s.tracer.isEnabled = true → s.tracer.tick = 0) ↔ ¬(_ ∧ _)
      rw [not_and_not_right]
      refine forall_congr' fun henabled => ?_
      rw [hs henabled]
      exact UInt64.toNat_inj (b := 0)
    | withTracer tracer => exact not_and_not_right.symm
    | setTracing on => exact not_and_not_right.symm
    | _ => exact iff_of_true ((s.notes_perform rfl).punctual hs) not_false
  | decoder config => exact iff_of_true hs not_false
  | lend change => exact iff_of_true hs not_false
  | adjust adjustment =>
    cases adjustment with
    | setTracing on => exact not_and_not_right.symm
    | withTracer tracer => exact not_and_not_right.symm
    | lend change => exact not_and_not_right.symm
    -- The focus, the rendering and the records are not what is compared.
    | _ => exact iff_of_true hs not_false

/-- **Run.** A session stays punctual through a run exactly if no deed of it skews. -/
theorem punctual_following_iff (hs : s.Punctual) (deeds : List Deed) :
    (∀ n, (s.following (deeds.take n)).Punctual) ↔ s.Avoids Skews deeds := by
  induction deeds generalizing s with
  | nil =>
    refine iff_of_true (fun n => ?_) trivial
    rw [List.take_nil]
    exact hs
  | cons deed rest ih =>
    constructor
    · intro h
      have hnext : (s.carryOut deed).2.Punctual := h 1
      exact ⟨(punctual_carryOut_iff hs deed).1 hnext, (ih hnext).1 fun n => h (n + 1)⟩
    · rintro ⟨hdeed, hrest⟩ n
      cases n with
      | zero => exact hs
      | succ n => exact (ih ((punctual_carryOut_iff hs deed).2 hdeed)).2 hrest n

end Session

/-! ## Records -/

/-- The deed puts another tracer in place, or changes it in some unknown way. -/
def Deed.replacesTracer : Deed → Bool
  | .operation (.withTracer _) | .adjust (.withTracer _) | .adjust (.lend _) => true
  | _ => false

namespace Session

variable {s : Session}

/-- A tick that is traced adds records under its own number, after those of the timers. -/
theorem grown_tick (s : Session) :
    s.released.tracer.buffer.Grown
      (fun r => s.tracer.isEnabled = true ∧ r.tick = (s.scheduler.tick + 1).toNat)
      (s.perform .tick).2.tracer.buffer := by
  obtain ⟨report, hreport, -, htracer⟩ := s.perform_tick_notes
  have hgrown := s.released.tracer.grown_recordReport report
  rw [s.notes_released.isEnabled, hreport] at hgrown
  rw [htracer]
  exact hgrown

/-- Any other deed leaves the tick of the tracer, and the records that it adds carry that tick. -/
theorem kept_carryOut (s : Session) {deed : Deed} (hkept : deed.replacesTracer = false)
    (hdeed : deed ≠ .operation .tick) :
    (s.carryOut deed).2.tracer.tick = s.tracer.tick ∧
      s.tracer.buffer.Grown s.tracer.Stamps (s.carryOut deed).2.tracer.buffer := by
  have hsame : s.tracer.buffer.Grown s.tracer.Stamps s.tracer.buffer := .refl _ _
  cases deed with
  | operation op =>
    cases op with
    | tick => exact absurd rfl hdeed
    | restore saved =>
      show (s.perform (.restore saved)).2.tracer.tick = _ ∧ _
      rw [carryOut, perform_restore_tracer]
      exact ⟨rfl, hsame⟩
    | withTracer tracer => cases hkept
    | withScheduler config => exact ⟨rfl, hsame⟩
    | setTracing on => exact ⟨rfl, hsame⟩
    | _ => exact ⟨(s.notes_perform rfl).stamp, (s.notes_perform rfl).grown⟩
  | decoder config => exact ⟨rfl, hsame⟩
  | lend change => exact ⟨rfl, hsame⟩
  | adjust adjustment =>
    cases adjustment with
    | withTracer tracer => cases hkept
    | lend change => cases hkept
    | clear => exact ⟨rfl, s.tracer.buffer.grown_clear _⟩
    | _ => exact ⟨rfl, hsame⟩

theorem Punctual.tick_of_new (hs : s.Punctual) {deed : Deed} (hkept : deed.replacesTracer = false)
    {r : TraceRecord} (hr : r ∈ (s.carryOut deed).2.tracer.buffer.toList)
    (hnew : r ∉ s.tracer.buffer.toList) :
    r.tick = s.scheduler.tick.toNat ∨
      deed = .operation .tick ∧ r.tick = (s.scheduler.tick + 1).toNat := by
  have hstamped : s.tracer.Stamps r → r.tick = s.scheduler.tick.toNat :=
    fun h => h.2.trans (hs h.1)
  by_cases hdeed : deed = .operation .tick
  · subst hdeed
    rcases s.grown_tick.mem hr with hearly | hlate
    · exact .inl (hstamped ((s.notes_released.grown.mem hearly).resolve_left hnew))
    · exact .inr ⟨rfl, hlate.2⟩
  · have hgrown := (s.kept_carryOut hkept hdeed).2
    exact .inl (hstamped ((hgrown.mem hr).resolve_left hnew))

/-- **Records carry the count of ticks** as long as nothing skews. A session that starts is
punctual, and so is every session that has just run a tick. From a punctual session on, whatever is
done to it, the tick stamped on new records is the count of ticks at every point where tracing is
enabled, exactly if tracing is never turned on when the count has moved on from the last tick that
was traced, and no restore and no new scheduler sets another count while tracing is on. The records
that a deed adds to a punctual session carry the count that the deed finds; those of a tick, apart
from the timers that end at its beginning, the count that it leaves. -/
theorem stamps_punctual (field : Field) (s : Session) (deeds : List Deed) :
    (ofField field).Punctual ∧ (s.perform .tick).2.Punctual ∧
    (s.Punctual →
      ((∀ n, (s.following (deeds.take n)).Punctual) ↔ s.Avoids Skews deeds) ∧
      ∀ deed : Deed, deed.replacesTracer = false →
        ∀ r ∈ (s.carryOut deed).2.tracer.buffer.toList, r ∉ s.tracer.buffer.toList →
          r.tick = s.scheduler.tick.toNat ∨
            deed = .operation .tick ∧ r.tick = (s.scheduler.tick + 1).toNat) := by
  refine ⟨punctual_ofField field, s.punctual_tick, fun hs => ⟨punctual_following_iff hs deeds, ?_⟩⟩
  intro deed hdeed r hr hnew
  exact hs.tick_of_new hdeed hr hnew

/-- A case in which tracing is turned off and on again after a tick, the session as it is then is
restored, and a script is loaded. -/
theorem stamps_punctual_interrupted :
    let s := ofSeed 7
    let saved := (s.following [.operation (.setTracing true), .operation .tick]).snapshot
    let deeds : List Deed := [.operation (.setTracing true), .operation .tick,
      .adjust (.setTracing false), .adjust (.setTracing true), .operation (.restore saved)]
    let t := s.following deeds
    s.Punctual ∧ s.Avoids Skews deeds ∧ (∀ n, (s.following (deeds.take n)).Punctual) ∧
      t.tracer.isEnabled = true ∧ t.tracer.tick = 1 ∧ t.scheduler.tick = 1 ∧
      ∃ r ∈ (t.perform (.load "a" [])).2.tracer.buffer.toList,
        r ∉ t.tracer.buffer.toList ∧ r.tick = 1 := by
  intro s saved deeds t
  have hs : s.Punctual := punctual_ofField _
  have hcount : t.scheduler.tick = 1 := by decide
  have havoids : s.Avoids Skews deeds :=
    ⟨fun h => h.2 rfl, not_false, fun h => absurd h.1 (by decide), fun h => absurd h.2 (by decide),
      fun h => absurd h.2.2 (by decide), trivial⟩
  have hpunctual := ((stamps_punctual s.field s deeds).2.2 hs).1.2 havoids
  have ht : t.Punctual := hpunctual 5
  let r : TraceRecord := ⟨2, 1, 0, .scriptLoaded "a" 0⟩
  have hr : r ∈ (t.perform (.load "a" [])).2.tracer.buffer.toList := by decide
  have hnew : r ∉ t.tracer.buffer.toList := by decide
  have htick :=
    ((stamps_punctual s.field t deeds).2.2 ht).2 (.operation (.load "a" [])) rfl r hr hnew
  refine ⟨hs, havoids, hpunctual, by decide, ht (by decide), hcount, r, hr, hnew, ?_⟩
  rcases htick with htick | ⟨hload, -⟩
  · rw [htick, hcount]
    rfl
  · cases hload

/-- Two sessions that are traced without being punctual. Tracing that is turned on after the first
tick stamps the number zero on a script loaded then; a traced session that goes back to its start
stamps the number of a tick that is still to come. -/
theorem stamps_behind_and_ahead :
    let late := (ofSeed 0).following [.operation .tick, .operation (.setTracing true)]
    let back := (ofSeed 0).following [.operation (.setTracing true), .operation .tick,
      .operation (.restore (ofSeed 0).snapshot)]
    let load : Operation := .load "a" []
    (late.tracer.isEnabled = true ∧ late.tracer.tick = 0 ∧ late.scheduler.tick = 1 ∧
      (late.perform load).2.tracer.buffer.toList.map TraceRecord.tick = [0]) ∧
    (back.tracer.isEnabled = true ∧ back.tracer.tick = 1 ∧ back.scheduler.tick = 0 ∧
      (back.perform load).2.tracer.buffer.toList.map TraceRecord.tick = [1, 1, 1]) := by
  decide

end Session

end FieldEngine
