import FieldEngine.Proofs.Session.Timers

/-!
# Host events between ticks

An instance that waits is released by one event and no other (`Instance.awaited?`), and a release
makes it run, so that no event concerns it any more. What a number of events does is therefore told
by the set of them, not by their order: the instances that await one of them run,

    (s.deliver events).2.scheduler = s.scheduler with its instances released     (deliver_scheduler)
    (s.deliver events).2.timers[id]? = none for these, and as before for others     (deliver_timers)
    (s.deliver events).1 = what each event would release first, if they differ    (deliver_released)

and an event that comes again finds nothing to release, unless a tick or a restore has come between
(`repeated_notify`). Main statement: `host_events_commute`.
-/

namespace FieldEngine

/-! ## The event that ends a wait -/

def Instance.awaited? (i : Instance) : Option HostEvent :=
  match i.status with
  | .suspended (.timer _) => some (.timerElapsed i.id)
  | .suspended (.dialogue channel _) => some (.dialogueClosed channel)
  | .suspended (.animation entity animation) => some (.animationFinished entity animation)
  | .running | .halted | .faulted _ => none

namespace Scheduler

theorem isReleased_iff {event : HostEvent} {i : Instance} :
    isReleased event i = true ↔ i.awaited? = some event := by
  unfold isReleased Instance.awaited?
  cases i.status with
  | running | halted | faulted f => simp
  | suspended reason =>
    cases reason with
    | timer frames =>
      cases event with
      | timerElapsed target =>
        simp only [HostEvent.releases, beq_iff_eq, Option.some.injEq, HostEvent.timerElapsed.injEq]
        exact eq_comm
      | _ => simp [HostEvent.releases]
    | dialogue channel message =>
      cases event with
      | dialogueClosed closed =>
        simp only [HostEvent.releases, beq_iff_eq, Option.some.injEq,
          HostEvent.dialogueClosed.injEq]
        exact eq_comm
      | _ => simp [HostEvent.releases]
    | animation entity number =>
      cases event with
      | animationFinished e n =>
        simp only [HostEvent.releases, Bool.and_eq_true, beq_iff_eq, Option.some.injEq,
          HostEvent.animationFinished.injEq]
        exact and_congr eq_comm eq_comm
      | _ => simp [HostEvent.releases]

/-- An instance waits for one event only. -/
theorem isReleased_unique {event other : HostEvent} {i : Instance} (h : isReleased event i = true)
    (hother : isReleased other i = true) : event = other := by
  rw [isReleased_iff] at h hother
  exact Option.some.inj (h.symm.trans hother)

/-- The instance after some events: if it waits for one of them, it runs. -/
def release (events : List HostEvent) (i : Instance) : Instance :=
  if events.any (isReleased · i) then { i with status := .running } else i

theorem release_id (events : List HostEvent) (i : Instance) : (release events i).id = i.id := by
  unfold release
  split <;> rfl

/-- The events have released all that they can; others find what they would have found before. -/
theorem isReleased_release (events : List HostEvent) (event : HostEvent) (i : Instance) :
    isReleased event (release events i) = true ↔ isReleased event i = true ∧ event ∉ events := by
  unfold release
  split
  · rename_i hany
    obtain ⟨other, hmem, hother⟩ := List.any_eq_true.1 hany
    rw [Session.isReleased_running rfl]
    constructor
    · exact nofun
    · rintro ⟨hevent, hnot⟩
      -- an instance waits for one event only
      have heq : other = event := isReleased_unique hother hevent
      exact absurd (heq ▸ hmem) hnot
  · rename_i hany
    constructor
    · intro hevent
      exact ⟨hevent, fun hmem => hany (List.any_eq_true.2 ⟨event, hmem, hevent⟩)⟩
    · exact And.left

theorem release_cons (event : HostEvent) (events : List HostEvent) (i : Instance) :
    release events (release [event] i) = release (event :: events) i := by
  by_cases h : isReleased event i = true
  · have hfirst : release [event] i = { i with status := .running } := by simp [release, h]
    have hlater : events.any (isReleased · { i with status := .running }) = false := by
      simp [Session.isReleased_running]
    rw [hfirst, release, if_neg (by rw [hlater]; exact Bool.false_ne_true), release, List.any_cons,
      h, Bool.true_or, if_pos rfl]
  · have hfirst : release [event] i = i := by simp [release, h]
    rw [hfirst, release, release, List.any_cons, Bool.eq_false_iff.2 h, Bool.false_or]

theorem release_congr {events order : List HostEvent} (h : ∀ event, event ∈ order ↔ event ∈ events)
    (i : Instance) : release order i = release events i := by
  have hany : order.any (isReleased · i) = events.any (isReleased · i) := by
    rw [Bool.eq_iff_iff, List.any_eq_true, List.any_eq_true]
    simp only [h]
  rw [release, release, hany]

/-- Instances that wait for another event are found as before. -/
theorem filter_release {events : List HostEvent} {event : HostEvent} (h : event ∉ events)
    (l : List Instance) :
    ((l.map (release events)).filter (isReleased event)).map Instance.id =
      (l.filter (isReleased event)).map Instance.id := by
  have hsame : isReleased event ∘ release events = isReleased event := by
    funext i
    rw [Function.comp_apply, Bool.eq_iff_iff, isReleased_release]
    exact and_iff_left h
  rw [List.filter_map, List.map_map, hsame]
  apply List.map_congr_left
  intro i _
  exact release_id events i

/-- The numbers of the instances that wait for one of the events. -/
def awaiting (s : Scheduler) (events : List HostEvent) : List Nat :=
  (s.instances.filter fun i => events.any (isReleased · i)).map Instance.id

theorem mem_awaiting {s : Scheduler} {events : List HostEvent} {id : Nat} :
    id ∈ s.awaiting events ↔
      ∃ i ∈ s.instances, i.id = id ∧ ∃ event ∈ events, isReleased event i = true := by
  simp only [awaiting, List.mem_map, List.mem_filter, List.any_eq_true]
  constructor
  · rintro ⟨i, ⟨hi, hreleased⟩, hid⟩
    exact ⟨i, hi, hid, hreleased⟩
  · rintro ⟨i, hi, hid, hreleased⟩
    exact ⟨i, ⟨hi, hreleased⟩, hid⟩

theorem notify_eq (s : Scheduler) (event : HostEvent) :
    s.notify event = ((s.instances.filter (isReleased event)).map Instance.id,
      { s with instances := s.instances.map (release [event]) }) := by
  simp [notify, release]

end Scheduler

namespace Session

/-! ## A number of events -/

/-- Deliver events one after the other; the answer lists what each has released. -/
def deliver (s : Session) : List HostEvent → List (HostEvent × List Nat) × Session
  | [] => ([], s)
  | event :: events =>
    let (released, t) := s.notify event
    let (answers, u) := t.deliver events
    ((event, released) :: answers, u)

theorem notify_scheduler (s : Session) (event : HostEvent) :
    (s.notify event).2.scheduler =
      { s.scheduler with instances := s.scheduler.instances.map (Scheduler.release [event]) } :=
  congrArg Prod.snd (s.scheduler.notify_eq event)

/-- An event releases what does not wait for one of those that came before it. -/
theorem notify_released {s t : Session} {events : List HostEvent}
    (h : t.scheduler.instances = s.scheduler.instances.map (Scheduler.release events))
    {event : HostEvent} (hevent : event ∉ events) : (t.notify event).1 = (s.notify event).1 := by
  show (t.scheduler.instances.filter _).map _ = _
  rw [h, Scheduler.filter_release hevent]
  rfl

/-- An instance that waits for one of the events is released by the first, or waits on. -/
theorem mem_awaiting_cons {s : Session} {event : HostEvent} {events : List HostEvent} {id : Nat} :
    id ∈ s.scheduler.awaiting (event :: events) ↔
      id ∈ (s.notify event).1 ∨ id ∈ (s.notify event).2.scheduler.awaiting events := by
  rw [notify_scheduler, Scheduler.mem_awaiting, Scheduler.mem_awaiting]
  constructor
  · rintro ⟨i, hi, rfl, other, hother, hreleased⟩
    by_cases hnow : Scheduler.isReleased event i = true
    · exact .inl (List.mem_map_of_mem (List.mem_filter.2 ⟨hi, hnow⟩))
    · have hne : other ≠ event := by
        rintro rfl
        exact hnow hreleased
      have hlater : Scheduler.isReleased other (Scheduler.release [event] i) = true :=
        (Scheduler.isReleased_release _ _ _).2 ⟨hreleased, by rwa [List.mem_singleton]⟩
      exact .inr ⟨_, List.mem_map_of_mem hi, Scheduler.release_id _ i, other,
        (List.mem_cons.1 hother).resolve_left hne, hlater⟩
  · rintro (hnow | ⟨j, hj, rfl, other, hother, hreleased⟩)
    · obtain ⟨i, hi, rfl⟩ := List.mem_map.1 hnow
      obtain ⟨hi, hreleased⟩ := List.mem_filter.1 hi
      exact ⟨i, hi, rfl, event, List.mem_cons_self, hreleased⟩
    · obtain ⟨i, hi, rfl⟩ := List.mem_map.1 hj
      exact ⟨i, hi, (Scheduler.release_id _ i).symm, other, List.mem_cons_of_mem _ hother,
        ((Scheduler.isReleased_release _ _ _).1 hreleased).1⟩

/-- **The scheduler after some events**: what waits for one of them runs. -/
theorem deliver_scheduler (s : Session) (events : List HostEvent) :
    (s.deliver events).2.scheduler =
      { s.scheduler with instances := s.scheduler.instances.map (Scheduler.release events) } := by
  induction events generalizing s with
  | nil =>
    have hsame : Scheduler.release [] = id := by
      funext i
      simp [Scheduler.release]
    rw [hsame, List.map_id]
    rfl
  | cons event events ih =>
    show ((s.notify event).2.deliver events).2.scheduler = _
    rw [ih, notify_scheduler]
    simp only [List.map_map]
    congr 2
    funext i
    exact Scheduler.release_cons event events i

/-- **What each of different events releases**: what it would release if it came first. -/
theorem deliver_released (s : Session) {events : List HostEvent} (h : events.Nodup) :
    (s.deliver events).1 = events.map fun event => (event, (s.notify event).1) := by
  induction events generalizing s with
  | nil => rfl
  | cons event events ih =>
    obtain ⟨hnot, hrest⟩ := List.nodup_cons.1 h
    show (event, (s.notify event).1) :: ((s.notify event).2.deliver events).1 = _
    rw [ih (s.notify event).2 hrest, List.map_cons]
    congr 1
    apply List.map_congr_left
    intro other hother
    have hne : other ∉ [event] := by
      rw [List.mem_singleton]
      rintro rfl
      exact hnot hother
    rw [notify_released (congrArg Scheduler.instances (notify_scheduler s event)) hne]

/-- **The timers after some events**: those of the instances that wait for one of them are gone. -/
theorem deliver_timers (s : Session) (events : List HostEvent) (id : Nat) :
    (s.deliver events).2.timers[id]? =
      if id ∈ s.scheduler.awaiting events then none else s.timers[id]? := by
  induction events generalizing s with
  | nil => simp [deliver, Scheduler.awaiting]
  | cons event events ih =>
    show ((s.notify event).2.deliver events).2.timers[id]? = _
    have htimers : (s.notify event).2.timers[id]? =
        if id ∈ (s.notify event).1 then none else s.timers[id]? :=
      OrderedMap.getElem?_foldl_erase _ _ _
    rw [ih, htimers]
    by_cases hnow : id ∈ (s.notify event).1
    · rw [if_pos hnow, if_pos (mem_awaiting_cons.2 (.inl hnow)), ite_self]
    · rw [if_neg hnow]
      simp only [mem_awaiting_cons, hnow, false_or]

/-! ## An event that comes again -/

/-- Until the next tick, instances only begin to run or go. -/
theorem mem_perform {s : Session} {op : Operation} (htick : op ≠ .tick)
    (hrestore : ∀ saved, op ≠ .restore saved) {j : Instance}
    (hj : j ∈ (s.perform op).2.scheduler.instances) :
    j ∈ s.scheduler.instances ∨ j.status = .running := by
  cases op with
  | tick => exact absurd rfl htick
  | restore saved => exact absurd rfl (hrestore saved)
  | load name source =>
    have hsame : (s.loadScript name source).2.scheduler = s.scheduler := by
      cases hd : decode s.decoder name source with
      | error e =>
        rw [loadScript_error s hd]
        rfl
      | ok program => exact (loadScript_ok s hd).2.scheduler
    change j ∈ (s.loadScript name source).2.scheduler.instances at hj
    exact .inl (hsame ▸ hj)
  | spawn script owner =>
    rw [perform] at hj
    rcases (s.spawn_harmless script owner).cases with ⟨e, hs⟩ | ⟨id, t, hs⟩ <;> rw [hs] at hj
    · exact .inl hj
    · change j ∈ t.scheduler.instances at hj
      obtain ⟨name, loaded, owner, -, hinstances⟩ := (Spawned.of_spawn hs).instances
      rw [hinstances] at hj
      rcases List.mem_append.1 hj with hj | hj
      · exact .inl hj
      · rw [List.mem_singleton.1 hj]
        exact .inr rfl
  | notify event =>
    obtain ⟨i, hi, rfl⟩ := List.mem_map.1 hj
    split
    · exact .inr rfl
    · exact .inl hi
  | resume id =>
    rw [perform, Session.resume] at hj
    rcases (s.scheduler.resume_harmless id).cases with ⟨e, hr⟩ | ⟨_, scheduler, hr⟩ <;>
      rw [hr] at hj
    · exact .inl hj
    · change j ∈ scheduler.instances at hj
      rw [(Scheduler.resume_ok hr).2] at hj
      rcases Scheduler.of_mem_updateFirst hj with hj | ⟨i, -, rfl⟩
      · exact .inl hj
      · exact .inr rfl
  | cancel id =>
    rw [perform] at hj
    rcases (s.cancel_harmless id).cases with ⟨e, hc⟩ | ⟨i, t, hc⟩ <;> rw [hc] at hj
    · exact .inl hj
    · exact .inl ((Removed.cancel hc).instances.subset hj)
  | cancelOwnedBy owner => exact .inl ((Removed.cancelOwnedBy s owner).instances.subset hj)
  | reap => exact .inl ((Removed.reap s).instances.subset hj)
  | cancelAll => cases hj
  | withScheduler config => cases hj
  | edit edit => exact .inl hj
  | snapshot => exact .inl hj
  | withTracer tracer => exact .inl hj
  | setTracing on => exact .inl hj

/-- No instance waits for the event. -/
def Unawaited (s : Session) (event : HostEvent) : Prop :=
  ∀ i ∈ s.scheduler.instances, Scheduler.isReleased event i = false

theorem Unawaited.after {s : Session} {event : HostEvent} (hs : s.Unawaited event)
    {ops : List Operation} (h : ∀ op ∈ ops, op ≠ .tick ∧ ∀ saved, op ≠ .restore saved) :
    (s.after ops).Unawaited event := by
  induction ops generalizing s with
  | nil => exact hs
  | cons op ops ih =>
    obtain ⟨htick, hrestore⟩ := h op List.mem_cons_self
    refine ih ?_ fun op' h' => h op' (List.mem_cons_of_mem op h')
    intro j hj
    rcases mem_perform htick hrestore hj with hj | hrunning
    · exact hs j hj
    · exact isReleased_running hrunning event

/-- An event that comes again before the next tick releases nothing. -/
theorem repeated_notify (s : Session) (event : HostEvent) {ops : List Operation}
    (h : ∀ op ∈ ops, op ≠ .tick ∧ ∀ saved, op ≠ .restore saved) :
    (((s.notify event).2.after ops).notify event).1 = [] := by
  have hnow : (s.notify event).2.Unawaited event := by
    intro j hj
    rw [notify_scheduler] at hj
    obtain ⟨i, -, rfl⟩ := List.mem_map.1 hj
    rw [Bool.eq_false_iff, Ne, Scheduler.isReleased_release]
    exact fun hreleased => hreleased.2 List.mem_cons_self
  have hlater := hnow.after h
  show (List.filter _ _).map _ = []
  rw [List.filter_eq_nil_iff.2 fun i hi => Bool.eq_false_iff.1 (hlater i hi)]
  rfl

/-- **Host events between two ticks commute.** Whatever the session and whatever the order in which
different events are delivered: the scheduler and the timers after them are the same, and each event
releases the instances that it would release if it came first. An event that comes again before the
next tick releases nothing, whatever else the host does in between, save that it puts a saved
session in place of this one. -/
theorem host_events_commute (s : Session) {events order : List HostEvent} (hdistinct : events.Nodup)
    (hperm : order.Perm events) :
    (s.deliver order).2.scheduler = (s.deliver events).2.scheduler ∧
    (s.deliver order).2.timers = (s.deliver events).2.timers ∧
    (s.deliver order).1 = order.map (fun event => (event, (s.notify event).1)) ∧
    ∀ (event : HostEvent) (ops : List Operation),
      (∀ op ∈ ops, op ≠ .tick ∧ ∀ saved, op ≠ .restore saved) →
      (((s.notify event).2.after ops).notify event).1 = [] := by
  have hmem : ∀ event, event ∈ order ↔ event ∈ events := fun event => hperm.mem_iff
  refine ⟨?_, ?_, deliver_released s (hperm.nodup_iff.2 hdistinct), ?_⟩
  · rw [deliver_scheduler, deliver_scheduler, funext (Scheduler.release_congr hmem)]
  · apply Std.ExtTreeMap.ext_getElem?
    intro id
    have hawaiting : id ∈ s.scheduler.awaiting order ↔ id ∈ s.scheduler.awaiting events := by
      simp only [Scheduler.mem_awaiting, hmem]
    simp only [deliver_timers, hawaiting]
  · intro event ops h
    exact repeated_notify s event h

/-- A case of three instances that wait for a timer, a message window and an animation. -/
theorem host_events_commute_three :
    let s := (ofSeed 7).after [.edit (.place "npc"),
      .load "wait" [0x03, 0x00, 0x07, 0x00, 0x00, 0x00, 0x23, 0x00],
      .load "talk" [0x05, 0x00, 0x07, 0x00, 0x06, 0x00, 0x07, 0x00, 0x00, 0x00, 0x24, 0x00],
      .load "wave" [0x09, 0x00, 0x25, 0x00],
      .spawn "wait" ⟨0, 1⟩, .spawn "talk" ⟨0, 1⟩, .spawn "wave" ⟨0, 1⟩, .tick]
    let events : List HostEvent :=
      [.timerElapsed 1, .dialogueClosed 5, .animationFinished ⟨0, 1⟩ 9]
    s.timers.toList = [(1, 4)] ∧
    (s.deliver events.reverse).2.scheduler = (s.deliver events).2.scheduler ∧
    (s.deliver events.reverse).2.timers = (s.deliver events).2.timers ∧
    (s.deliver events.reverse).1 =
      [(.animationFinished ⟨0, 1⟩ 9, [3]), (.dialogueClosed 5, [2]), (.timerElapsed 1, [1])] ∧
    (((s.notify (.dialogueClosed 5)).2.after
      [.spawn "talk" ⟨0, 1⟩, .notify (.timerElapsed 1)]).notify (.dialogueClosed 5)).1 = [] := by
  intro s events
  obtain ⟨hscheduler, htimers, hreleased, hagain⟩ :=
    host_events_commute s (show events.Nodup by decide) events.reverse_perm
  refine ⟨by decide, hscheduler, htimers, ?_, hagain _ _ (by simp)⟩
  rw [hreleased]
  decide

end Session

end FieldEngine
