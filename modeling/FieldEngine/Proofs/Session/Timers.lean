import FieldEngine.Proofs.Scheduler.Turns
import FieldEngine.Proofs.Session.Provenance

/-!
# Timers end on time

The deadline of a wait is kept by the session, the wait itself by the scheduler. Once an instance
waits for a timer, both stay as they are as long as nobody releases or removes the instance
(`Session.Waits`), and the tick that the deadline names releases it and gives it its turn:

    s.Waits i frames deadline → op.Spares i → before the deadline →
      (s.perform op).2.Waits i frames deadline                            (waits_perform)
    s.Waits i frames (s.scheduler.tick + 1) → s.GivesTurn i               (givesTurn_of_due)
    a wait that a tick begins ends after max frames 1 ticks               (timer_on_time)
-/

namespace FieldEngine

/-! ## Waiting -/

/-- The operation neither releases the instance nor removes it. -/
def Operation.Spares (i : Instance) : Operation → Prop
  | .resume id | .cancel id => id ≠ i.id
  | .notify event => event ≠ .timerElapsed i.id
  | .cancelOwnedBy owner => owner ≠ i.owner
  | .cancelAll | .restore _ | .withScheduler _ => False
  | .edit _ | .load _ _ | .spawn _ _ | .tick | .reap | .snapshot | .withTracer _
  | .setTracing _ => True

def Operation.ticks : Operation → Nat
  | .tick => 1
  | _ => 0

/-- The reply does not report on an instance. -/
def Reply.Silent (id : Nat) : Reply → Prop
  | .report r => ∀ e ∈ r.events, e.instanceId ≠ id
  | .done | .failed _ | .fault _ | .entity _ | .record _ | .bytes _ | .program _ | .number _
  | .ids _ | .instances _ | .saved _ => True

namespace Session

/-- The instance waits for a timer that ends at a tick. -/
structure Waits (s : Session) (i : Instance) (frames : Int32) (deadline : UInt64) : Prop where
  mem : i ∈ s.scheduler.instances
  status : i.status = .suspended (.timer frames)
  timer : s.timers[i.id]? = some deadline

/-- The session after the timers that end with the coming tick. -/
def released (s : Session) : Session :=
  s.dueTimers.foldl releaseTimer s

/-- The coming tick releases the instance and gives it its turn, on the field as the instances
before it leave it; the report holds just the events of that turn, of which there is at least
one. -/
def GivesTurn (s : Session) (i : Instance) : Prop :=
  ∃ before after,
    s.released.scheduler.instances = before ++ { i with status := .running } :: after ∧
    let field := (Scheduler.round s.scheduler.config before s.field).field
    let turn := Scheduler.turnOf s.scheduler.config i field
    s.tick.2.scheduler.get? i.id = some (i.afterTurn turn) ∧
    s.tick.1.events.filter (fun e => e.instanceId == i.id) = turn.events ∧
    turn.events ≠ []

/-- Numbers tell instances apart. -/
theorem Ordered.eq_of_id {s : Session} (hs : s.Ordered) {i j : Instance}
    (hi : i ∈ s.scheduler.instances) (hj : j ∈ s.scheduler.instances) (h : j.id = i.id) :
    j = i :=
  Scheduler.eq_of_id hs.ordered hi hj h

/-! ## Releasing -/

/-- Only its own event ends the wait for a timer. -/
theorem isReleased_timer {i : Instance} {frames : Int32}
    (h : i.status = .suspended (.timer frames)) (event : HostEvent) :
    Scheduler.isReleased event i = decide (event = .timerElapsed i.id) := by
  unfold Scheduler.isReleased
  rw [h]
  cases event with
  | dialogueClosed channel => rfl
  | animationFinished entity animation => rfl
  | timerElapsed id =>
    show (id == i.id) = _
    rw [Bool.eq_iff_iff]
    simp

theorem isReleased_running {i : Instance} (h : i.status = .running) (event : HostEvent) :
    Scheduler.isReleased event i = false := by
  unfold Scheduler.isReleased
  rw [h]

/-- An instance that none of the events releases stays as it is. -/
theorem mem_releaseTimers {s : Session} {i : Instance} (ids : List Nat)
    (hi : i ∈ s.scheduler.instances)
    (h : ∀ id ∈ ids, Scheduler.isReleased (.timerElapsed id) i = false) :
    i ∈ (ids.foldl releaseTimer s).scheduler.instances := by
  induction ids generalizing s with
  | nil => exact hi
  | cons id ids ih =>
    have hmem := Scheduler.mem_notify hi (.timerElapsed id)
    rw [h id List.mem_cons_self] at hmem
    exact ih hmem fun other hother => h other (List.mem_cons_of_mem id hother)

/-- An instance that waits for one of the timers runs again. -/
theorem running_mem_releaseTimers {s : Session} {i : Instance} {frames : Int32} {ids : List Nat}
    (hi : i ∈ s.scheduler.instances) (hstatus : i.status = .suspended (.timer frames))
    (hid : i.id ∈ ids) :
    { i with status := .running } ∈ (ids.foldl releaseTimer s).scheduler.instances := by
  induction ids generalizing s with
  | nil => cases hid
  | cons id ids ih =>
    have hmem := Scheduler.mem_notify hi (.timerElapsed id)
    rw [isReleased_timer hstatus] at hmem
    by_cases h : id = i.id
    · rw [if_pos (by simp [h])] at hmem
      exact mem_releaseTimers ids hmem fun _ _ => isReleased_running rfl _
    · rw [if_neg (by simp [h])] at hmem
      rcases List.mem_cons.1 hid with hself | hid
      · exact absurd hself.symm h
      · exact ih hmem hid

theorem releaseTimers_timers (s : Session) (ids : List Nat) :
    (ids.foldl releaseTimer s).timers = ids.foldl (fun timers id => timers.erase id) s.timers := by
  induction ids generalizing s with
  | nil => rfl
  | cons id ids ih => exact ih (s.releaseTimer id)

/-- Releasing leaves the field, the settings and the clock as they are. -/
theorem releaseTimers_rest (s : Session) (ids : List Nat) :
    (ids.foldl releaseTimer s).field = s.field ∧
      (ids.foldl releaseTimer s).scheduler.config = s.scheduler.config ∧
      (ids.foldl releaseTimer s).scheduler.tick = s.scheduler.tick := by
  induction ids generalizing s with
  | nil => exact ⟨rfl, rfl, rfl⟩
  | cons id ids ih => exact ih (s.releaseTimer id)

theorem mem_dueTimers (s : Session) (id : Nat) :
    id ∈ s.dueTimers ↔ ∃ deadline, s.timers[id]? = some deadline ∧
      deadline ≤ s.scheduler.tick + 1 := by
  unfold dueTimers
  rw [List.mem_map]
  constructor
  · rintro ⟨⟨id, deadline⟩, hmem, rfl⟩
    obtain ⟨hmem, hle⟩ := List.mem_filter.1 hmem
    exact ⟨deadline, Std.ExtTreeMap.mem_toList_iff_getElem?_eq_some.1 hmem, by simpa using hle⟩
  · rintro ⟨deadline, hget, hle⟩
    refine ⟨(id, deadline), List.mem_filter.2 ⟨?_, by simpa using hle⟩, rfl⟩
    exact Std.ExtTreeMap.mem_toList_iff_getElem?_eq_some.2 hget

/-! ## The timers after a tick -/

theorem toNat_add_of_lt {a : UInt64} {n : Nat} (h : a.toNat + n < UInt64.size) :
    (a + .ofNat n).toNat = a.toNat + n := by
  have hn : n < UInt64.size := Nat.lt_of_le_of_lt (Nat.le_add_left n _) h
  rw [UInt64.toNat_add, UInt64.toNat_ofNat', Nat.mod_eq_of_lt hn, Nat.mod_eq_of_lt h]

theorem mem_suspended {r : TickReport} {id : Nat} {reason : WaitReason} :
    (id, reason) ∈ r.suspended ↔ .suspended id reason ∈ r.events := by
  unfold TickReport.suspended
  rw [List.mem_filterMap]
  constructor
  · rintro ⟨e, he, h⟩
    cases e <;> simp at h
    obtain ⟨rfl, rfl⟩ := h
    exact he
  · intro h
    exact ⟨_, h, rfl⟩

/-- The timers after waits that began in a tick. -/
def addWaits (tick : UInt64) (timers : Std.ExtTreeMap Nat UInt64)
    (waits : List (Nat × WaitReason)) : Std.ExtTreeMap Nat UInt64 :=
  waits.foldl (fun timers (id, reason) =>
    match reason with
    | .timer frames => timers.insert id (tick + .ofNat (max frames.toInt.toNat 1))
    | .dialogue _ _ | .animation _ _ => timers) timers

theorem timersAfter_eq (report : TickReport) (timers : Std.ExtTreeMap Nat UInt64) :
    timersAfter report timers = addWaits report.tick timers report.suspended := rfl

/-- The deadline of an instance that began no wait stays. -/
theorem addWaits_of_not_mem (tick : UInt64) (timers : Std.ExtTreeMap Nat UInt64) {id : Nat}
    {waits : List (Nat × WaitReason)} (h : ∀ reason, (id, reason) ∉ waits) :
    (addWaits tick timers waits)[id]? = timers[id]? := by
  induction waits generalizing timers with
  | nil => rfl
  | cons wait waits ih =>
    obtain ⟨other, reason⟩ := wait
    have hne : other ≠ id := by
      rintro rfl
      exact h reason List.mem_cons_self
    have hrest := fun timers => ih timers fun r hr => h r (List.mem_cons_of_mem _ hr)
    cases reason with
    | timer frames =>
      refine (hrest (timers.insert other _)).trans ?_
      rw [OrderedMap.getElem?_insert, if_neg hne]
    | dialogue channel message => exact hrest timers
    | animation entity number => exact hrest timers

/-- The deadline of an instance that began to wait for a timer counts from the tick. -/
theorem addWaits_of_mem (tick : UInt64) (timers : Std.ExtTreeMap Nat UInt64) {id : Nat}
    {frames : Int32} {waits : List (Nat × WaitReason)}
    (hall : ∀ reason, (id, reason) ∈ waits → reason = .timer frames)
    (h : (id, .timer frames) ∈ waits) :
    (addWaits tick timers waits)[id]? = some (tick + .ofNat (max frames.toInt.toNat 1)) := by
  induction waits generalizing timers with
  | nil => cases h
  | cons wait waits ih =>
    by_cases hrest : (id, .timer frames) ∈ waits
    · exact ih _ (fun r hr => hall r (List.mem_cons_of_mem _ hr)) hrest
    · obtain rfl : (id, WaitReason.timer frames) = wait := by
        rcases List.mem_cons.1 h with h | h
        · exact h
        · exact absurd h hrest
      have hnone : ∀ reason, (id, reason) ∉ waits := by
        intro reason hr
        rw [hall reason (List.mem_cons_of_mem _ hr)] at hr
        exact hrest hr
      refine (addWaits_of_not_mem tick (timers.insert id _) hnone).trans ?_
      rw [OrderedMap.getElem?_insert, if_pos rfl]

/-! ## One tick -/

/-- The round of a tick: what the instances do after the timers that are due have ended. -/
def tickRound (s : Session) : Scheduler.Round :=
  Scheduler.round s.scheduler.config s.released.scheduler.instances s.field

theorem tick_eq (s : Session) :
    s.tick.1 = ⟨s.scheduler.tick + 1, s.tickRound.executed, s.tickRound.events⟩ ∧
      s.tick.2.scheduler.instances = s.tickRound.instances ∧
      s.tick.2.scheduler.tick = s.scheduler.tick + 1 ∧
      s.tick.2.timers = addWaits (s.scheduler.tick + 1) s.released.timers s.tick.1.suspended := by
  obtain ⟨hfield, hconfig, hclock⟩ := releaseTimers_rest s s.dueTimers
  have hround : Scheduler.round s.released.scheduler.config s.released.scheduler.instances
      s.released.field = s.tickRound := by
    unfold tickRound released
    rw [hfield, hconfig]
  have hreport : s.tick.1 = ⟨s.scheduler.tick + 1, s.tickRound.executed, s.tickRound.events⟩ := by
    rw [← hround, ← hclock]
    rfl
  refine ⟨hreport, ?_, ?_, ?_⟩
  · rw [← hround]
    rfl
  · rw [← hclock]
    rfl
  · rw [← hclock]
    exact timersAfter_eq s.tick.1 s.released.timers

theorem released_timers (s : Session) (id : Nat) :
    s.released.timers[id]? = if id ∈ s.dueTimers then none else s.timers[id]? := by
  unfold released
  rw [releaseTimers_timers, OrderedMap.getElem?_foldl_erase]

theorem Ordered.released {s : Session} (hs : s.Ordered) : s.released.Ordered :=
  hs.transition (.steady (.releaseTimers s s.dueTimers))

theorem Ordered.tick {s : Session} (hs : s.Ordered) : s.tick.2.Ordered :=
  hs.transition (.steady (.tick s))

/-- Before the deadline a tick leaves the instance as it is and does not report on it. -/
theorem waits_tick {s : Session} {i : Instance} {frames : Int32} {deadline : UInt64}
    (hs : s.Ordered) (h : s.Waits i frames deadline)
    (hdeadline : s.scheduler.tick + 1 < deadline) :
    s.tick.2.Waits i frames deadline ∧ ∀ e ∈ s.tick.1.events, e.instanceId ≠ i.id := by
  obtain ⟨hreport, hinstances, -, htimers⟩ := s.tick_eq
  have hdue : i.id ∉ s.dueTimers := by
    rw [mem_dueTimers]
    rintro ⟨other, hget, hle⟩
    rw [← Option.some.inj (h.timer.symm.trans hget)] at hle
    exact UInt64.not_le.2 hdeadline hle
  have hmem : i ∈ s.released.scheduler.instances := by
    apply mem_releaseTimers _ h.mem
    intro id hid
    rw [isReleased_timer h.status, decide_eq_false_iff_not]
    rintro heq
    rw [HostEvent.timerElapsed.inj heq] at hid
    exact hdue hid
  have hwaiting : i.status ≠ .running := by
    rw [h.status]
    exact nofun
  have hsilent : ∀ e ∈ s.tick.1.events, e.instanceId ≠ i.id := by
    intro e he heq
    rw [hreport] at he
    obtain ⟨j, hj, hrunning, hid⟩ := Scheduler.round_instanceId he
    rw [hs.released.eq_of_id hmem hj (hid.symm.trans heq)] at hrunning
    exact hwaiting hrunning
  refine ⟨⟨?_, h.status, ?_⟩, hsilent⟩
  · rw [hinstances]
    exact Scheduler.mem_round_of_waiting hmem hwaiting
  · rw [htimers, addWaits_of_not_mem, released_timers, if_neg hdue, h.timer]
    intro reason hreason
    exact hsilent _ (mem_suspended.1 hreason) rfl

/-- In the tick of the deadline the instance is released and gets its turn. -/
theorem givesTurn_of_due {s : Session} {i : Instance} {frames : Int32} {deadline : UInt64}
    (hs : s.Ordered) (h : s.Waits i frames deadline)
    (hdeadline : deadline ≤ s.scheduler.tick + 1) : s.GivesTurn i := by
  obtain ⟨hreport, hinstances, -, -⟩ := s.tick_eq
  have hdue : i.id ∈ s.dueTimers := (mem_dueTimers s i.id).2 ⟨deadline, h.timer, hdeadline⟩
  have hmem : { i with status := .running } ∈ s.released.scheduler.instances :=
    running_mem_releaseTimers h.mem h.status hdue
  obtain ⟨before, after, hsplit⟩ := List.append_of_mem hmem
  refine ⟨before, after, hsplit, ?_⟩
  let field := (Scheduler.round s.scheduler.config before s.field).field
  let turn := Scheduler.turnOf s.scheduler.config i field
  let later := Scheduler.round s.scheduler.config after turn.state.field
  have hturn : turn.Reports i.id := Scheduler.turnOf_reports _ _ _
  have hround : s.tickRound.instances =
        (Scheduler.round s.scheduler.config before s.field).instances ++
          i.afterTurn turn :: later.instances ∧
      s.tickRound.events =
        (Scheduler.round s.scheduler.config before s.field).events ++
          (turn.events ++ later.events) := by
    unfold tickRound
    rw [hsplit]
    exact Scheduler.round_split s.scheduler.config (i := { i with status := .running }) rfl before
      after s.field
  -- The numbers are in order, so the turns before and after are those of other instances.
  have hordered := hs.released.ordered
  rw [hsplit, List.map_append, List.map_cons, List.pairwise_append, List.pairwise_cons] at hordered
  obtain ⟨-, ⟨hafter, -⟩, hbefore⟩ := hordered
  refine ⟨?_, ?_, hturn.nonempty⟩
  · apply hs.tick.get?_eq (i := i.afterTurn turn)
    rw [hinstances, hround.1]
    exact List.mem_append_right _ List.mem_cons_self
  · have hfirst : ∀ e ∈ (Scheduler.round s.scheduler.config before s.field).events,
        ¬(e.instanceId == i.id) = true := by
      intro e he heq
      obtain ⟨j, hj, -, hid⟩ := Scheduler.round_instanceId he
      have hlt : j.id < i.id := hbefore _ (List.mem_map_of_mem hj) _ List.mem_cons_self
      rw [hid, beq_iff_eq] at heq
      omega
    have hlater : ∀ e ∈ later.events, ¬(e.instanceId == i.id) = true := by
      intro e he heq
      obtain ⟨j, hj, -, hid⟩ := Scheduler.round_instanceId he
      have hlt : i.id < j.id := hafter _ (List.mem_map_of_mem hj)
      rw [hid, beq_iff_eq] at heq
      omega
    have hown : ∀ e ∈ turn.events, (e.instanceId == i.id) = true := by
      intro e he
      rw [hturn.instanceId e he, beq_self_eq_true]
    rw [hreport, hround.2, List.filter_append, List.filter_append,
      List.filter_eq_nil_iff.2 hfirst, List.filter_eq_nil_iff.2 hlater,
      List.filter_eq_self.2 hown, List.nil_append, List.append_nil]

/-- A wait for a timer that a tick reports is kept with its deadline. -/
theorem waits_of_suspended {s : Session} {id : Nat} {frames : Int32} (hs : s.Ordered)
    (h : (id, .timer frames) ∈ s.tick.1.suspended) :
    0 ≤ frames.toInt ∧ ∃ i, i.id = id ∧
      s.tick.2.Waits i frames (s.tick.1.tick + .ofNat (max frames.toInt.toNat 1)) := by
  obtain ⟨hreport, hinstances, -, htimers⟩ := s.tick_eq
  -- Each wait in the report is the wait of an instance after the tick, and numbers are unique.
  have hwait : ∀ reason, (id, reason) ∈ s.tick.1.suspended →
      (∃ j ∈ s.tick.2.scheduler.instances, j.id = id ∧ j.status = .suspended reason) ∧
        ∀ frames, reason = .timer frames → 0 ≤ frames.toInt := by
    intro reason hreason
    rw [mem_suspended, hreport] at hreason
    rw [hinstances]
    exact Scheduler.round_suspended hreason
  obtain ⟨⟨i, hi, rfl, hstatus⟩, hframes⟩ := hwait _ h
  refine ⟨hframes frames rfl, i, rfl, hi, hstatus, ?_⟩
  rw [htimers, hreport]
  apply addWaits_of_mem _ _ ?_ (hreport ▸ h)
  intro reason hreason
  obtain ⟨⟨j, hj, hid, hj'⟩, -⟩ := hwait reason (hreport ▸ hreason)
  rw [hs.tick.eq_of_id hi hj hid, hstatus] at hj'
  exact (Status.suspended.inj hj').symm

/-! ## Other operations -/

theorem dropTimers_timers (s : Session) (ids : List Nat) (id : Nat) :
    (s.dropTimers ids).timers[id]? = if id ∈ ids then none else s.timers[id]? :=
  OrderedMap.getElem?_foldl_erase ids s.timers id

/-- A number of other instances is not that of the instance. -/
theorem Ordered.id_not_mem {s : Session} (hs : s.Ordered) {i : Instance}
    (hi : i ∈ s.scheduler.instances) {p : Instance → Bool} (h : p i = false) :
    i.id ∉ (s.scheduler.instances.filter p).map Instance.id := by
  intro hmem
  obtain ⟨j, hj, hid⟩ := List.mem_map.1 hmem
  obtain ⟨hj, hp⟩ := List.mem_filter.1 hj
  rw [hs.eq_of_id hi hj hid, h] at hp
  cases hp

section

variable {s : Session} {i : Instance} {frames : Int32} {deadline : UInt64}

/-- Dropping the timers of others. -/
theorem Waits.drop (h : s.Waits i frames deadline) {t : Session} {ids : List Nat}
    (hmem : i ∈ t.scheduler.instances) (htimers : t.timers = (s.dropTimers ids).timers)
    (hids : i.id ∉ ids) : t.Waits i frames deadline := by
  refine ⟨hmem, h.status, ?_⟩
  rw [htimers, dropTimers_timers, if_neg hids]
  exact h.timer

theorem waits_notify (hs : s.Ordered) (h : s.Waits i frames deadline) {event : HostEvent}
    (hevent : event ≠ .timerElapsed i.id) : (s.notify event).2.Waits i frames deadline := by
  have hkept : Scheduler.isReleased event i = false := by
    rw [isReleased_timer h.status, decide_eq_false_iff_not]
    exact hevent
  have hmem := Scheduler.mem_notify h.mem event
  rw [hkept] at hmem
  exact h.drop hmem rfl (hs.id_not_mem h.mem hkept)

theorem waits_resume (h : s.Waits i frames deadline) {id : Nat} (hid : id ≠ i.id) {t : Session}
    (ht : s.resume id = (.ok (), t)) :
    t.Waits i frames deadline ∧ t.scheduler.tick = s.scheduler.tick := by
  obtain ⟨scheduler, hr, rfl⟩ := resume_ok ht
  obtain ⟨-, rfl⟩ := Scheduler.resume_ok hr
  have hids : i.id ∉ [id] := by
    rw [List.mem_singleton]
    exact hid.symm
  exact ⟨h.drop (Scheduler.mem_updateFirst h.mem hid _) rfl hids, rfl⟩

theorem waits_cancel (h : s.Waits i frames deadline) {id : Nat} (hid : id ≠ i.id) {j : Instance}
    {t : Session} (ht : s.cancel id = (.ok j, t)) :
    t.Waits i frames deadline ∧ t.scheduler.tick = s.scheduler.tick := by
  obtain ⟨scheduler, hc, rfl⟩ := cancel_ok ht
  obtain ⟨-, rfl⟩ := Scheduler.cancel_ok hc
  have hids : i.id ∉ [id] := by
    rw [List.mem_singleton]
    exact hid.symm
  refine ⟨h.drop ?_ rfl hids, rfl⟩
  exact (List.mem_eraseP_of_neg (by rw [beq_iff_eq]; exact hid.symm)).2 h.mem

theorem waits_cancelOwnedBy (hs : s.Ordered) (h : s.Waits i frames deadline)
    {owner : EntityId} (howner : owner ≠ i.owner) :
    (s.cancelOwnedBy owner).2.Waits i frames deadline := by
  have hkept : (i.owner == owner) = false := by
    rw [beq_eq_false_iff_ne]
    exact howner.symm
  unfold cancelOwnedBy
  rw [Scheduler.cancelOwnedBy_eq]
  refine h.drop ?_ rfl (hs.id_not_mem h.mem hkept)
  exact List.mem_filter.2 ⟨h.mem, by rw [hkept]; rfl⟩

theorem waits_reap (hs : s.Ordered) (h : s.Waits i frames deadline) :
    s.reap.2.Waits i frames deadline := by
  have hkept : i.status.isTerminal = false := by
    rw [h.status]
    rfl
  unfold reap
  rw [Scheduler.reap_eq]
  refine h.drop ?_ rfl (hs.id_not_mem h.mem hkept)
  exact List.mem_filter.2 ⟨h.mem, by rw [hkept]; rfl⟩

theorem waits_load (h : s.Waits i frames deadline) (name : String) (source : List UInt8) :
    (s.loadScript name source).2.Waits i frames deadline ∧
      (s.loadScript name source).2.scheduler.tick = s.scheduler.tick := by
  cases hd : decode s.decoder name source with
  | error e =>
    rw [loadScript_error s hd]
    exact ⟨⟨h.mem, h.status, h.timer⟩, rfl⟩
  | ok program =>
    have hl := (loadScript_ok s hd).2
    refine ⟨⟨?_, h.status, ?_⟩, ?_⟩
    · rw [hl.scheduler]
      exact h.mem
    · rw [hl.timers]
      exact h.timer
    · rw [hl.scheduler]

theorem waits_spawn (h : s.Waits i frames deadline) {script : String} {owner : EntityId} {id : Nat}
    {t : Session} (ht : s.spawn script owner = (.ok id, t)) :
    t.Waits i frames deadline ∧ t.scheduler.tick = s.scheduler.tick := by
  obtain ⟨loaded, -, -, rfl⟩ := spawn_ok ht
  exact ⟨⟨List.mem_append_left _ h.mem, h.status, h.timer⟩, rfl⟩

/-- The reply to an edit reports on no instance. -/
theorem silent_edit (f : Field) (edit : HostEdit) (id : Nat) : (f.edit edit).1.Silent id := by
  have hchange : ∀ {α : Type} {reply : α → Reply}, (∀ a, (reply a).Silent id) →
      ∀ r : Except Fault α, (Reply.ofChange reply r).Silent id := by
    intro α reply h r
    cases r with
    | error fault => trivial
    | ok a => exact h a
  cases edit with
  | place name => trivial
  | remove _ | write _ _ _ | setFlag _ _ | setPassable _ _ =>
    refine hchange ?_ _
    exact fun _ => trivial
  | draw count => trivial

/-- **One operation.** The instance goes on waiting, the clock counts the ticks only, and the reply
does not report on the instance. -/
theorem waits_perform (hs : s.Ordered) (h : s.Waits i frames deadline) {op : Operation}
    (hop : op.Spares i) (hdeadline : s.scheduler.tick.toNat + op.ticks < deadline.toNat) :
    (s.perform op).2.Waits i frames deadline ∧
      (s.perform op).2.scheduler.tick.toNat = s.scheduler.tick.toNat + op.ticks ∧
      (s.perform op).1.Silent i.id := by
  cases op with
  | edit edit => exact ⟨⟨h.mem, h.status, h.timer⟩, rfl, silent_edit s.field edit i.id⟩
  | load name source =>
    obtain ⟨hw, hclock⟩ := waits_load h name source
    refine ⟨hw, congrArg UInt64.toNat hclock, ?_⟩
    rw [perform]
    rcases s.loadScript name source with ⟨e | program, t⟩ <;> trivial
  | spawn script owner =>
    rw [perform]
    rcases (s.spawn_harmless script owner).cases with ⟨e, hspawn⟩ | ⟨id, t, hspawn⟩ <;> rw [hspawn]
    · exact ⟨h, rfl, trivial⟩
    · obtain ⟨hw, hclock⟩ := waits_spawn h hspawn
      exact ⟨hw, congrArg UInt64.toNat hclock, trivial⟩
  | tick =>
    -- the deadline is a number of 64 bits, so the coming tick is one
    have hcoming : (s.scheduler.tick + 1).toNat = s.scheduler.tick.toNat + 1 :=
      toNat_add_of_lt (n := 1) (Nat.lt_trans hdeadline deadline.toNat_lt)
    obtain ⟨hw, hsilent⟩ := waits_tick hs h (UInt64.lt_iff_toNat_lt.2 (hcoming ▸ hdeadline))
    exact ⟨hw, (congrArg UInt64.toNat s.tick_eq.2.2.1).trans hcoming, hsilent⟩
  | notify event => exact ⟨waits_notify hs h hop, rfl, trivial⟩
  | resume id =>
    rw [perform]
    rcases (s.resume_harmless id).cases with ⟨e, hresume⟩ | ⟨_, t, hresume⟩ <;> rw [hresume]
    · exact ⟨h, rfl, trivial⟩
    · obtain ⟨hw, hclock⟩ := waits_resume h hop hresume
      exact ⟨hw, congrArg UInt64.toNat hclock, trivial⟩
  | cancel id =>
    rw [perform]
    rcases (s.cancel_harmless id).cases with ⟨e, hcancel⟩ | ⟨j, t, hcancel⟩ <;> rw [hcancel]
    · exact ⟨h, rfl, trivial⟩
    · obtain ⟨hw, hclock⟩ := waits_cancel h hop hcancel
      exact ⟨hw, congrArg UInt64.toNat hclock, trivial⟩
  | cancelOwnedBy owner => exact ⟨waits_cancelOwnedBy hs h hop, rfl, trivial⟩
  | cancelAll => exact hop.elim
  | reap => exact ⟨waits_reap hs h, rfl, trivial⟩
  | snapshot => exact ⟨h, rfl, trivial⟩
  | restore saved => exact hop.elim
  | withScheduler config => exact hop.elim
  | withTracer tracer => exact ⟨⟨h.mem, h.status, h.timer⟩, rfl, trivial⟩
  | setTracing on => exact ⟨⟨h.mem, h.status, h.timer⟩, rfl, trivial⟩

end

/-! ## Histories -/

theorem not_restore_of_spares {i : Instance} {op : Operation} (h : op.Spares i)
    (saved : SessionSnapshot) : op ≠ .restore saved := by
  rintro rfl
  exact h

def ticks : List Operation → Nat
  | [] => 0
  | op :: ops => op.ticks + ticks ops

/-- **Operations before the deadline.** The instance goes on waiting through all of them. -/
theorem waits_after {s : Session} {i : Instance} {frames : Int32} {deadline : UInt64}
    {may : Session → Prop} (hs : s.Attained may) (h : s.Waits i frames deadline)
    {ops : List Operation} (hops : ∀ op ∈ ops, op.Spares i)
    (hdeadline : s.scheduler.tick.toNat + ticks ops < deadline.toNat) :
    (s.after ops).Waits i frames deadline ∧
      (s.after ops).scheduler.tick.toNat = s.scheduler.tick.toNat + ticks ops ∧
      ∀ entry ∈ s.trail ops, entry.1.Silent i.id := by
  induction ops generalizing s with
  | nil => exact ⟨h, rfl, by simp [trail]⟩
  | cons op ops ih =>
    have hop := hops op List.mem_cons_self
    have hsum : ticks (op :: ops) = op.ticks + ticks ops := rfl
    rw [hsum] at hdeadline ⊢
    obtain ⟨hw, hclock, hsilent⟩ := waits_perform hs.ordered h hop (by omega)
    obtain ⟨hw', hclock', hsilent'⟩ := ih (hs.step op (not_restore_of_spares hop)) hw
      (fun op' hop' => hops op' (List.mem_cons_of_mem op hop')) (by omega)
    refine ⟨hw', ?_, ?_⟩
    · rw [after, hclock', hclock]
      omega
    · intro entry hentry
      rcases List.mem_cons.1 hentry with rfl | hentry
      · exact hsilent
      · exact hsilent' entry hentry

/-- **Timers end on time.** A wait for a timer that a tick begins has no negative number of frames.
As long as nobody else releases or removes the instance, it stays as it is and no report names it
until `max frames 1` ticks after that tick, and the last of these ticks releases it and gives it its
turn, provided that its number is one of 64 bits. The deadline in the session is that of this wait,
whatever waits came before it. -/
theorem timer_on_time {may : Session → Prop} {s : Session} (hs : s.Attained may) {id : Nat}
    {frames : Int32} (h : (id, .timer frames) ∈ s.tick.1.suspended)
    (hnumber : s.tick.1.tick.toNat + max frames.toInt.toNat 1 < UInt64.size) :
    0 ≤ frames.toInt ∧
    ∃ i, s.tick.2.scheduler.get? id = some i ∧ i.status = .suspended (.timer frames) ∧
      ∀ ops, (∀ op ∈ ops, op.Spares i) →
        let u := s.tick.2.after ops
        (ticks ops < max frames.toInt.toNat 1 →
          u.scheduler.get? id = some i ∧
          u.timers[id]? = some (s.tick.1.tick + .ofNat (max frames.toInt.toNat 1)) ∧
          ∀ entry ∈ s.tick.2.trail ops, entry.1.Silent id) ∧
        (ticks ops + 1 = max frames.toInt.toNat 1 →
          u.tick.1.tick.toNat = s.tick.1.tick.toNat + max frames.toInt.toNat 1 ∧
          u.GivesTurn i) := by
  obtain ⟨hframes, i, rfl, hwaits⟩ := waits_of_suspended hs.ordered h
  have hafter : s.tick.2.Attained may := hs.step .tick nofun
  have hclock : s.tick.2.scheduler.tick = s.tick.1.tick := by
    rw [s.tick_eq.1, s.tick_eq.2.2.1]
  have hdeadline := toNat_add_of_lt hnumber
  refine ⟨hframes, i, hafter.ordered.get?_eq hwaits.mem, hwaits.status, fun ops hops => ?_⟩
  have hreach : (s.tick.2.after ops).Attained may :=
    hafter.after ops fun op hop => not_restore_of_spares (hops op hop)
  refine ⟨fun hlt => ?_, fun heq => ?_⟩
  · obtain ⟨hw, -, hsilent⟩ := waits_after hafter hwaits hops (by rw [hclock, hdeadline]; omega)
    exact ⟨hreach.ordered.get?_eq hw.mem, hw.timer, hsilent⟩
  · obtain ⟨hw, htick, -⟩ := waits_after hafter hwaits hops (by rw [hclock, hdeadline]; omega)
    have hlast : ((s.tick.2.after ops).scheduler.tick + 1).toNat =
        s.tick.1.tick.toNat + max frames.toInt.toNat 1 := by
      rw [hclock] at htick
      refine (toNat_add_of_lt (n := 1) ?_).trans ?_ <;> omega
    refine ⟨?_, givesTurn_of_due hreach.ordered hw ?_⟩
    · rw [(s.tick.2.after ops).tick_eq.1]
      exact hlast
    · rw [UInt64.le_iff_toNat_le, hlast]
      exact Nat.le_of_eq hdeadline

/-- A case in which an earlier wait of the instance was cut short; its deadline, tick 4, passes
during the later wait. -/
theorem timer_on_time_resumed :
    let s := (ofSeed 7).after [.edit (.place "npc"),
      .load "door" [0x03, 0x00, 0x07, 0x00, 0x00, 0x00, 0x23, 0x00,
        0x04, 0x00, 0x07, 0x00, 0x00, 0x00, 0x23, 0x00],
      .spawn "door" ⟨0, 1⟩, .tick, .resume 1]
    let u := s.tick.2.after [.tick, .reap, .tick, .tick]
    (1, .timer 4) ∈ s.tick.1.suspended ∧ s.tick.1.tick = 2 ∧
      ∃ i, s.tick.2.scheduler.get? 1 = some i ∧ u.scheduler.get? 1 = some i ∧
        u.tick.1.tick.toNat = 6 ∧ u.GivesTurn i := by
  intro s u
  have hs : s.Attained fun _ => True := Attained.after (.start _) _ (by simp)
  have hwait : (1, .timer 4) ∈ s.tick.1.suspended := by decide
  have htick : s.tick.1.tick = 2 := by decide
  obtain ⟨-, i, hget, -, hops⟩ := timer_on_time hs hwait (by rw [htick]; decide)
  obtain ⟨hbefore, hturn⟩ := hops [.tick, .reap, .tick, .tick] (by simp [Operation.Spares])
  obtain ⟨hkept, -, -⟩ := hbefore (by decide)
  obtain ⟨hclock, hgives⟩ := hturn (by decide)
  refine ⟨hwait, htick, i, hget, hkept, ?_, hgives⟩
  rw [hclock, htick]
  rfl

end Session

end FieldEngine
