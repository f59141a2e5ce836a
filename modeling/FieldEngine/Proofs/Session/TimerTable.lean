import FieldEngine.Proofs.Session.Timers

/-!
# The timer table

A wait for a timer stands in two places: the scheduler has it as the status of an instance, the
session has its deadline in the timer table. `Session.TimersAgree` says that the two agree and that
every deadline is still to come. Most operations end some of the waits and drop the timers of the
same instances (`TimersAgree.drop`); a tick also begins new ones (`timersAgree_tick`):

    s.TimersAgree → (s.perform op).2.TimersAgree                       (timersAgree_perform)
    s.InTime may → s.TimersAgree                                        (timer_table_agrees)

The numbers in the table are right also if deadlines overflow; that they are still to come is not,
so the deadlines that a tick sets are taken to be numbers of 64 bits (`Session.Timely`).
-/

namespace FieldEngine

/-- An instance in the list has the number and waits for a timer. -/
def Instance.Awaited (l : List Instance) (id : Nat) : Prop :=
  ∃ i ∈ l, i.id = id ∧ ∃ frames, i.status = .suspended (.timer frames)

namespace Session

/-- The numbers in the timer table are those of the instances that wait for a timer, and every
deadline is still to come. -/
structure TimersAgree (s : Session) : Prop where
  keys : ∀ id : Nat, id ∈ s.timers ↔ Instance.Awaited s.scheduler.instances id
  ahead : ∀ (id : Nat) (deadline : UInt64), s.timers[id]? = some deadline →
    s.scheduler.tick < deadline

/-! ## Which instances wait -/

section

variable {s : Session} {id : Nat}

/-- Removing instances ends their waits, and no others. -/
theorem awaited_filter (hs : s.Ordered) (p : Instance → Bool) :
    Instance.Awaited (s.scheduler.instances.filter fun i => !p i) id ↔
      id ∉ (s.scheduler.instances.filter p).map Instance.id ∧
        Instance.Awaited s.scheduler.instances id := by
  constructor
  · rintro ⟨i, hi, rfl, hwaits⟩
    obtain ⟨hi, hp⟩ := List.mem_filter.1 hi
    rw [Bool.not_eq_true'] at hp
    exact ⟨hs.id_not_mem hi hp, i, hi, rfl, hwaits⟩
  · rintro ⟨hnot, i, hi, rfl, hwaits⟩
    refine ⟨i, List.mem_filter.2 ⟨hi, ?_⟩, rfl, hwaits⟩
    rw [Bool.not_eq_true', ← Bool.not_eq_true]
    intro hp
    exact hnot (List.mem_map_of_mem (List.mem_filter.2 ⟨hi, hp⟩))

/-- Making instances run ends their waits, and no others. -/
theorem awaited_map (hs : s.Ordered) (p : Instance → Bool) :
    Instance.Awaited (s.scheduler.instances.map fun i =>
        if p i then { i with status := .running } else i) id ↔
      id ∉ (s.scheduler.instances.filter p).map Instance.id ∧
        Instance.Awaited s.scheduler.instances id := by
  constructor
  · rintro ⟨j, hj, rfl, frames, hstatus⟩
    obtain ⟨i, hi, rfl⟩ := List.mem_map.1 hj
    by_cases hp : p i
    · rw [if_pos hp] at hstatus
      cases hstatus
    · rw [if_neg hp] at hstatus ⊢
      rw [Bool.not_eq_true] at hp
      exact ⟨hs.id_not_mem hi hp, i, hi, rfl, frames, hstatus⟩
  · rintro ⟨hnot, i, hi, rfl, hwaits⟩
    have hp : ¬p i := fun hp => hnot (List.mem_map_of_mem (List.mem_filter.2 ⟨hi, hp⟩))
    refine ⟨i, List.mem_map.2 ⟨i, hi, ?_⟩, rfl, hwaits⟩
    rw [if_neg hp]

/-- Among the numbers that are awaited, those of the instances of one number are that number. -/
theorem not_mem_filter_id {l : List Instance} (target : Nat) (h : Instance.Awaited l id) :
    id ∉ (l.filter fun i => i.id == target).map Instance.id ↔ id ∉ [target] := by
  rw [List.mem_singleton]
  apply not_congr
  constructor
  · intro hmem
    obtain ⟨i, hi, rfl⟩ := List.mem_map.1 hmem
    exact beq_iff_eq.1 (List.mem_filter.1 hi).2
  · rintro rfl
    obtain ⟨i, hi, rfl, -⟩ := h
    exact List.mem_map_of_mem (List.mem_filter.2 ⟨hi, beq_self_eq_true _⟩)

end

/-! ## Waits that end -/

theorem mem_dropTimers (s : Session) (ids : List Nat) (id : Nat) :
    id ∈ (s.dropTimers ids).timers ↔ id ∉ ids ∧ id ∈ s.timers := by
  rw [Std.ExtTreeMap.mem_iff_isSome_getElem?, Std.ExtTreeMap.mem_iff_isSome_getElem?,
    dropTimers_timers]
  split
  · rename_i hid
    simp [hid]
  · rename_i hid
    simp [hid]

/-- Where some waits end and the timers of the same instances are dropped, the rest agrees. -/
theorem TimersAgree.drop {s t : Session} (hs : s.TimersAgree) (ids : List Nat)
    (hclock : t.scheduler.tick = s.scheduler.tick)
    (htimers : t.timers = (s.dropTimers ids).timers)
    (hwaits : ∀ id, Instance.Awaited t.scheduler.instances id ↔
      id ∉ ids ∧ Instance.Awaited s.scheduler.instances id) : t.TimersAgree where
  keys id := by rw [htimers, mem_dropTimers, hwaits, hs.keys]
  ahead id deadline h := by
    rw [htimers, dropTimers_timers] at h
    rw [hclock]
    split at h
    · cases h
    · exact hs.ahead id deadline h

/-- Where neither waits nor timers change, they go on to agree. -/
theorem TimersAgree.congr {s t : Session} (hs : s.TimersAgree)
    (hclock : t.scheduler.tick = s.scheduler.tick) (htimers : t.timers = s.timers)
    (hwaits : ∀ id, Instance.Awaited t.scheduler.instances id ↔
      Instance.Awaited s.scheduler.instances id) : t.TimersAgree := by
  refine hs.drop [] hclock htimers ?_
  intro id
  simp [hwaits]

theorem TimersAgree.of_empty {s : Session} (hinstances : s.scheduler.instances = [])
    (htimers : s.timers = ∅) : s.TimersAgree where
  keys id := by simp [Instance.Awaited, hinstances, htimers]
  ahead id deadline h := by simp [htimers] at h

theorem timersAgree_notify {s : Session} (hs : s.Ordered) (h : s.TimersAgree) (event : HostEvent) :
    (s.notify event).2.TimersAgree :=
  h.drop _ rfl rfl fun _ => awaited_map hs (Scheduler.isReleased event)

theorem timersAgree_resume {s t : Session} (hs : s.Ordered) (h : s.TimersAgree) {target : Nat}
    (ht : s.resume target = (.ok (), t)) : t.TimersAgree := by
  obtain ⟨scheduler, hr, rfl⟩ := resume_ok ht
  obtain ⟨-, rfl⟩ := Scheduler.resume_ok hr
  refine h.drop [target] rfl rfl ?_
  intro id
  show Instance.Awaited (Scheduler.updateFirst target _ s.scheduler.instances) id ↔ _
  rw [Scheduler.updateFirst_eq_map hs.ordered, awaited_map hs fun i => i.id == target]
  exact and_congr_left fun hawaited => not_mem_filter_id target hawaited

theorem timersAgree_cancel {s t : Session} (hs : s.Ordered) (h : s.TimersAgree) {target : Nat}
    {i : Instance} (ht : s.cancel target = (.ok i, t)) : t.TimersAgree := by
  obtain ⟨scheduler, hc, rfl⟩ := cancel_ok ht
  obtain ⟨-, rfl⟩ := Scheduler.cancel_ok hc
  refine h.drop [target] rfl rfl ?_
  intro id
  show Instance.Awaited (s.scheduler.instances.eraseP _) id ↔ _
  rw [Scheduler.eraseP_eq_filter hs.ordered, awaited_filter hs fun i => i.id == target]
  exact and_congr_left fun hawaited => not_mem_filter_id target hawaited

theorem timersAgree_cancelOwnedBy {s : Session} (hs : s.Ordered) (h : s.TimersAgree)
    (owner : EntityId) : (s.cancelOwnedBy owner).2.TimersAgree := by
  unfold cancelOwnedBy
  rw [Scheduler.cancelOwnedBy_eq]
  exact h.drop _ rfl rfl fun _ => awaited_filter hs fun i => i.owner == owner

theorem timersAgree_reap {s : Session} (hs : s.Ordered) (h : s.TimersAgree) :
    s.reap.2.TimersAgree := by
  unfold reap
  rw [Scheduler.reap_eq]
  exact h.drop _ rfl rfl fun _ => awaited_filter hs fun i => i.status.isTerminal

/-! ## Ticks -/

/-- The end of a timer ends the wait for it, and no other. -/
theorem awaited_releaseTimer {s : Session} (hs : s.Ordered) (target id : Nat) :
    Instance.Awaited (s.releaseTimer target).scheduler.instances id ↔
      id ≠ target ∧ Instance.Awaited s.scheduler.instances id := by
  refine (awaited_map hs (Scheduler.isReleased (.timerElapsed target))).trans ?_
  apply and_congr_left
  rintro ⟨i, hi, rfl, frames, hstatus⟩
  apply not_congr
  constructor
  · intro hmem
    obtain ⟨j, hj, hid⟩ := List.mem_map.1 hmem
    obtain ⟨hj, hreleased⟩ := List.mem_filter.1 hj
    rw [hs.eq_of_id hi hj hid, isReleased_timer hstatus, decide_eq_true_eq] at hreleased
    exact (HostEvent.timerElapsed.inj hreleased).symm
  · rintro rfl
    refine List.mem_map_of_mem (List.mem_filter.2 ⟨hi, ?_⟩)
    rw [isReleased_timer hstatus, decide_eq_true_eq]

theorem awaited_releaseTimers {s : Session} (hs : s.Ordered) (ids : List Nat) (id : Nat) :
    Instance.Awaited (ids.foldl releaseTimer s).scheduler.instances id ↔
      id ∉ ids ∧ Instance.Awaited s.scheduler.instances id := by
  induction ids generalizing s with
  | nil => simp
  | cons target ids ih =>
    have hordered : (s.releaseTimer target).Ordered :=
      hs.transition (.steady (.releaseTimer s target))
    rw [List.foldl_cons, ih hordered, awaited_releaseTimer hs, List.mem_cons, not_or,
      and_left_comm, and_assoc]

theorem mem_addWaits {tick : UInt64} {id : Nat} (timers : Std.ExtTreeMap Nat UInt64)
    (waits : List (Nat × WaitReason)) :
    id ∈ addWaits tick timers waits ↔ (∃ frames, (id, .timer frames) ∈ waits) ∨ id ∈ timers := by
  induction waits generalizing timers with
  | nil => simp [addWaits]
  | cons wait waits ih =>
    obtain ⟨other, reason⟩ := wait
    cases reason with
    | timer frames =>
      refine (ih (timers.insert other _)).trans ?_
      rw [Std.ExtTreeMap.mem_insert, Std.LawfulEqOrd.compare_eq_iff_eq, ← or_assoc]
      apply or_congr_left
      constructor
      · rintro (⟨later, hlater⟩ | rfl)
        · exact ⟨later, List.mem_cons_of_mem _ hlater⟩
        · exact ⟨frames, List.mem_cons_self⟩
      · rintro ⟨later, hlater⟩
        rcases List.mem_cons.1 hlater with heq | hlater
        · exact .inr (congrArg Prod.fst heq).symm
        · exact .inl ⟨later, hlater⟩
    | dialogue channel message =>
      refine (ih timers).trans ?_
      simp
    | animation entity number =>
      refine (ih timers).trans ?_
      simp

/-- A deadline was there before the tick, or it counts from the tick. -/
theorem addWaits_deadline {tick deadline : UInt64} {id : Nat} (timers : Std.ExtTreeMap Nat UInt64)
    {waits : List (Nat × WaitReason)} (h : (addWaits tick timers waits)[id]? = some deadline) :
    timers[id]? = some deadline ∨ ∃ frames, (id, .timer frames) ∈ waits ∧
      deadline = tick + .ofNat (max frames.toInt.toNat 1) := by
  induction waits generalizing timers with
  | nil => exact .inl h
  | cons wait waits ih =>
    obtain ⟨other, reason⟩ := wait
    have hrest : ∀ timers : Std.ExtTreeMap Nat UInt64,
        (addWaits tick timers waits)[id]? = some deadline →
        timers[id]? = some deadline ∨ ∃ frames, (id, .timer frames) ∈ (other, reason) :: waits ∧
          deadline = tick + .ofNat (max frames.toInt.toNat 1) := by
      intro timers h
      rcases ih timers h with h | ⟨frames, hmem, hdeadline⟩
      · exact .inl h
      · exact .inr ⟨frames, List.mem_cons_of_mem _ hmem, hdeadline⟩
    cases reason with
    | timer frames =>
      rcases hrest (timers.insert other _) h with hold | hnew
      · rw [OrderedMap.getElem?_insert] at hold
        split at hold
        · rename_i heq
          subst heq
          exact .inr ⟨frames, List.mem_cons_self, (Option.some.inj hold).symm⟩
        · exact .inl hold
      · exact .inr hnew
    | dialogue channel message => exact hrest timers h
    | animation entity number => exact hrest timers h

/-- After a tick an instance waits for a timer if the tick has reported that, or if it waited before
and its timer was not due. -/
theorem awaited_tick (s : Session) (id : Nat) :
    Instance.Awaited s.tick.2.scheduler.instances id ↔
      (∃ frames, (id, .timer frames) ∈ s.tick.1.suspended) ∨
        Instance.Awaited s.released.scheduler.instances id := by
  obtain ⟨hreport, hinstances, -, -⟩ := s.tick_eq
  have hsuspended : ∀ reason, (id, reason) ∈ s.tick.1.suspended ↔
      .suspended id reason ∈ s.tickRound.events := by
    intro reason
    rw [mem_suspended, hreport]
  rw [hinstances]
  constructor
  · rintro ⟨j, hj, rfl, frames, hstatus⟩
    rcases Scheduler.mem_round hj with ⟨hj, -⟩ | ⟨i, -, -, field, rfl, hevents⟩
    · exact .inr ⟨j, hj, rfl, frames, hstatus⟩
    · have hturn := Scheduler.turnOf_reports s.scheduler.config i field
      refine .inl ⟨frames, (hsuspended _).2 (hevents _ ?_)⟩
      exact hturn.reported (.timer frames) hstatus
  · rintro (⟨frames, hmem⟩ | ⟨i, hi, rfl, frames, hstatus⟩)
    · obtain ⟨⟨j, hj, hid, hstatus⟩, -⟩ := Scheduler.round_suspended ((hsuspended _).1 hmem)
      exact ⟨j, hj, hid, frames, hstatus⟩
    · refine ⟨i, Scheduler.mem_round_of_waiting hi ?_, rfl, frames, hstatus⟩
      rw [hstatus]
      exact nofun

theorem timersAgree_tick {s : Session} (hs : s.Ordered) (h : s.TimersAgree) (htimely : s.Timely) :
    s.tick.2.TimersAgree := by
  obtain ⟨hreport, -, hclock, htimers⟩ := s.tick_eq
  have hnumber : s.tick.1.tick = s.scheduler.tick + 1 := by rw [hreport]
  constructor
  · intro id
    have hreleased : id ∈ s.released.timers ↔ id ∉ s.dueTimers ∧ id ∈ s.timers := by
      unfold released
      rw [releaseTimers_timers]
      exact mem_dropTimers s s.dueTimers id
    rw [htimers, mem_addWaits, hreleased, awaited_tick, h.keys]
    unfold released
    rw [awaited_releaseTimers hs]
  · intro id deadline hdeadline
    rw [hclock]
    rw [htimers] at hdeadline
    rcases addWaits_deadline _ hdeadline with hold | ⟨frames, hmem, rfl⟩
    · -- a deadline that the tick leaves in the table was not due
      rw [released_timers] at hold
      split at hold
      · cases hold
      · rename_i hdue
        rw [mem_dueTimers, not_exists] at hdue
        exact UInt64.not_le.1 fun hle => hdue deadline ⟨hold, hle⟩
    · have hsum := htimely id frames hmem
      rw [hnumber] at hsum
      rw [UInt64.lt_iff_toNat_lt, toNat_add_of_lt hsum]
      omega

/-! ## All operations -/

theorem timersAgree_spawn {s t : Session} (h : s.TimersAgree) {script : String} {owner : EntityId}
    {id : Nat} (ht : s.spawn script owner = (.ok id, t)) : t.TimersAgree := by
  obtain ⟨loaded, -, -, rfl⟩ := spawn_ok ht
  refine h.congr rfl rfl ?_
  intro id
  show Instance.Awaited (s.scheduler.instances ++ [_]) id ↔ _
  constructor
  · rintro ⟨i, hi, rfl, frames, hstatus⟩
    rcases List.mem_append.1 hi with hi | hi
    · exact ⟨i, hi, rfl, frames, hstatus⟩
    · rw [List.mem_singleton.1 hi] at hstatus
      cases hstatus
  · rintro ⟨i, hi, hwaits⟩
    exact ⟨i, List.mem_append_left _ hi, hwaits⟩

theorem timersAgree_load {s : Session} (h : s.TimersAgree) (name : String)
    (source : List UInt8) : (s.loadScript name source).2.TimersAgree := by
  cases hd : decode s.decoder name source with
  | error e =>
    rw [loadScript_error s hd]
    exact h.congr rfl rfl fun _ => .rfl
  | ok program =>
    have hl := (loadScript_ok s hd).2
    refine h.congr ?_ hl.timers ?_
    · rw [hl.scheduler]
    · intro id
      rw [hl.scheduler]

/-- **One operation** keeps waits and timers in agreement. -/
theorem timersAgree_perform {s : Session} (hs : s.Ordered) (h : s.TimersAgree) (op : Operation)
    (hop : ∀ saved, op ≠ .restore saved) (htimely : op = .tick → s.Timely) :
    (s.perform op).2.TimersAgree := by
  cases op with
  | edit edit => exact h.congr rfl rfl fun _ => .rfl
  | load name source => exact timersAgree_load h name source
  | spawn script owner =>
    rw [perform]
    rcases (s.spawn_harmless script owner).cases with ⟨e, hspawn⟩ | ⟨id, t, hspawn⟩ <;> rw [hspawn]
    · exact h
    · exact timersAgree_spawn h hspawn
  | tick => exact timersAgree_tick hs h (htimely rfl)
  | notify event => exact timersAgree_notify hs h event
  | resume id =>
    rw [perform]
    rcases (s.resume_harmless id).cases with ⟨e, hresume⟩ | ⟨_, t, hresume⟩ <;> rw [hresume]
    · exact h
    · exact timersAgree_resume hs h hresume
  | cancel id =>
    rw [perform]
    rcases (s.cancel_harmless id).cases with ⟨e, hcancel⟩ | ⟨i, t, hcancel⟩ <;> rw [hcancel]
    · exact h
    · exact timersAgree_cancel hs h hcancel
  | cancelOwnedBy owner => exact timersAgree_cancelOwnedBy hs h owner
  | cancelAll => exact .of_empty rfl rfl
  | reap => exact timersAgree_reap hs h
  | snapshot => exact h
  | restore saved => exact absurd rfl (hop saved)
  | withScheduler config => exact .of_empty rfl rfl
  | withTracer tracer => exact h.congr rfl rfl fun _ => .rfl
  | setTracing on => exact h.congr rfl rfl fun _ => .rfl

/-- A snapshot has the waits, the timers and the clock of its session. -/
theorem TimersAgree.restored {s t saved : Session} {r : Restoring} (hsaved : saved.TimersAgree)
    (h : Restored s saved.snapshot r t) : t.TimersAgree := by
  refine hsaved.congr h.tick ?_ ?_
  · rw [h.timers]
    exact OrderedMap.ofList_toList saved.timers
  · have hmap : t.scheduler.instances.map (fun i => (i.id, i.status)) =
        saved.scheduler.instances.map fun i => (i.id, i.status) := by
      rw [h.map_instances _ (fun x => (x.id, x.status)) fun _ _ _ => rfl]
      simp only [snapshot, Scheduler.snapshot, List.map_map]
      rfl
    -- whether a number is awaited can be read off the numbers and statuses
    have hawaited : ∀ (l : List Instance) (id : Nat), Instance.Awaited l id ↔
        ∃ frames, (id, Status.suspended (.timer frames)) ∈ l.map fun i => (i.id, i.status) := by
      intro l id
      constructor
      · rintro ⟨i, hi, rfl, frames, hstatus⟩
        exact ⟨frames, List.mem_map.2 ⟨i, hi, by rw [hstatus]⟩⟩
      · rintro ⟨frames, hmem⟩
        obtain ⟨i, hi, heq⟩ := List.mem_map.1 hmem
        exact ⟨i, hi, congrArg Prod.fst heq, frames, congrArg Prod.snd heq⟩
    intro id
    rw [hawaited, hawaited, hmap]

/-- **The timer table agrees with the waits** in every session that a host can bring about while no
deadline overflows: its numbers are just those of the registered instances that wait for a timer,
and each deadline is later than the last tick. -/
theorem timer_table_agrees {may : Session → Prop} {s : Session} (h : s.InTime may) :
    s.TimersAgree := by
  induction h with
  | start field => exact .of_empty rfl rfl
  | lend field tracer _ ih => exact ih.congr rfl rfl fun _ => .rfl
  | decoder config _ _ ih => exact ih.congr rfl rfl fun _ => .rfl
  | step op hs hop htimely ih => exact timersAgree_perform hs.attained.ordered ih op hop htimely
  | restore _ _ ih ihsaved =>
    rename_i s saved _ _
    rcases s.perform_restore saved.snapshot with h | ⟨r, -, -, hres⟩
    · rw [h]
      exact ih
    · exact ihsaved.restored hres

/-- A case in which one of two waits was cut short and begun anew, and the session was saved and
restored in another one. -/
theorem timer_table_agrees_restored :
    let s := (ofSeed 7).after [.edit (.place "npc"),
      .load "door" [0x03, 0x00, 0x07, 0x00, 0x00, 0x00, 0x23, 0x00,
        0x04, 0x00, 0x07, 0x00, 0x00, 0x00, 0x23, 0x00],
      .spawn "door" ⟨0, 1⟩, .spawn "door" ⟨0, 1⟩, .tick, .resume 1, .tick]
    let u := ((ofSeed 0).perform (.restore s.snapshot)).2
    u.scheduler.tick = 2 ∧ u.timers.toList = [(1, 6), (2, 4)] ∧ u.TimersAgree := by
  intro s u
  have hs : s.InTime fun _ => True :=
    .step _ (.step _ (.step _ (.step _ (.step _ (.step _ (.step _ (.start _) nofun nofun)
      nofun nofun) nofun nofun) nofun nofun) nofun fun _ => .of_tick (by decide)) nofun nofun)
      nofun fun _ => .of_tick (by decide)
  have hu : u.InTime fun _ => True := .restore (.start _) hs
  exact ⟨by decide, by decide, timer_table_agrees hu⟩

end Session

end FieldEngine
