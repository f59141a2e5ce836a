import FieldEngine.Proofs.Scheduler.Turns

/-!
# Lives of instances

What a caller can ask of a scheduler, as data: `Scheduler.ask` carries out one request and gives the
answer, `Scheduler.after` and `Scheduler.answers` a sequence of them. `Scheduler.Reachable` is every
scheduler that some history leads to, restores of saved schedulers included.

One summary says all that a request can do to the instances: those that it strikes go, the others
keep their badges and, if they have ended, stay as they are, and a spawn adds one with the next
number. The rest follows from it and never looks at the operations:

    s.Ordered → s.Effect request (s.ask request).2                                   (ask_effect)
    s.Effect request t → s.Ordered → t.Ordered                                   (Effect.ordered)
    s.Gone id → (s.after requests).Gone id, and no answer mentions it                 (Gone.after)
    s.Reachable → s.Ordered ∧ ∀ requests, s.Lives requests                     (numbers_and_lives)

`Scheduler.Lives` speaks of a run without restores: a number that is handed out is registered until
one request removes it, and is never met again after that.
-/

namespace FieldEngine

/-! ## Requests -/

/-- What a caller can ask of a scheduler. -/
inductive Request
  | spawn (edition : Edition) (owner : EntityId)
  | tick (field : Field)
  | notify (event : HostEvent)
  | resume (id : Nat)
  | cancel (id : Nat)
  | cancelOwnedBy (owner : EntityId)
  | cancelAll
  | reap
  | snapshot
  | setTrace (on : Bool)
deriving DecidableEq

/-- The request asks for the removal of the instance. -/
def Request.strikes (i : Instance) : Request → Bool
  | cancel id => i.id == id
  | cancelOwnedBy owner => i.owner == owner
  | cancelAll => true
  | reap => i.status.isTerminal
  | spawn _ _ | tick _ | notify _ | resume _ | snapshot | setTrace _ => false

inductive Answer
  | done
  | failed (error : Error)
  | started (id : Nat)
  | report (report : TickReport) (field : Field)
  | ids (ids : List Nat)
  | count (n : Nat)
  | instances (instances : List Instance)
  | saved (snapshot : SchedulerSnapshot)
deriving DecidableEq

/-- The numbers of instances that an answer has in it. -/
def Answer.mentions : Answer → List Nat
  | done | failed _ | count _ => []
  | started id => [id]
  | report r _ => r.events.map TickEvent.instanceId
  | ids l => l
  | instances l => l.map Instance.id
  | saved snapshot => snapshot.instances.map InstanceSnapshot.id

namespace Scheduler

def ask (s : Scheduler) : Request → Answer × Scheduler
  | .spawn edition owner => (s.spawn edition owner).map .started id
  | .tick field =>
    let (report, t, field) := s.runTick field
    (.report report field, t)
  | .notify event => (s.notify event).map .ids id
  | .resume target =>
    match s.resume target with
    | (.ok (), t) => (.done, t)
    | (.error e, t) => (.failed e, t)
  | .cancel target =>
    match s.cancel target with
    | (.ok i, t) => (.instances [i], t)
    | (.error e, t) => (.failed e, t)
  | .cancelOwnedBy owner => (s.cancelOwnedBy owner).map .ids id
  | .cancelAll => s.cancelAll.map .count id
  | .reap => s.reap.map .instances id
  | .snapshot => (.saved s.snapshot, s)
  | .setTrace on => (.done, s.setTrace on)

def after (s : Scheduler) : List Request → Scheduler
  | [] => s
  | request :: rest => (s.ask request).2.after rest

def answers (s : Scheduler) : List Request → List Answer
  | [] => []
  | request :: rest => (s.ask request).1 :: (s.ask request).2.answers rest

def ids (s : Scheduler) : List Nat :=
  s.instances.map Instance.id

/-- The requests of a run that take the instance of a number away. -/
def removals (id : Nat) (s : Scheduler) : List Request → List Request
  | [] => []
  | request :: rest =>
    let t := (s.ask request).2
    if id ∈ s.ids ∧ id ∉ t.ids then request :: removals id t rest else removals id t rest

/-- The schedulers that a caller can bring about; only snapshots of such schedulers are restored,
with any programs. -/
inductive Reachable : Scheduler → Prop
  | start (config : SchedulerConfig) : Reachable (empty config)
  | step {s : Scheduler} (request : Request) : Reachable s → Reachable (s.ask request).2
  | restore {s saved : Scheduler} (editions : InstanceSnapshot → Option Edition) :
      Reachable s → Reachable saved → Reachable (s.restore saved.snapshot editions).2

/-- Instances are in the order of their numbers, all below the next one. -/
structure Ordered (s : Scheduler) : Prop where
  ordered : s.ids.Pairwise (· < ·)
  below : ∀ id ∈ s.ids, id < s.nextId

/-! ## What a request does -/

/-- The instance that a request registers. -/
def newcomers (s : Scheduler) : Request → List Instance
  | .spawn edition owner => [.start s.nextId edition owner]
  | _ => []

/-- What a request can do to the instances: those that it strikes go, the others keep their badges
and, if they have ended, stay as they are; a spawn adds one. -/
structure Effect (s : Scheduler) (request : Request) (t : Scheduler) : Prop where
  badges : t.instances.map Instance.badge =
    (s.instances.filter (fun i => !request.strikes i) ++ s.newcomers request).map Instance.badge
  ended : ∀ i ∈ s.instances, request.strikes i = false → i.status.isTerminal = true →
    i ∈ t.instances
  nextId : t.nextId = s.nextId + (s.newcomers request).length

/-- The effect of a request that only drops the instances it strikes. -/
theorem Effect.of_filter {s t : Scheduler} {request : Request}
    (hinstances : t.instances = s.instances.filter fun i => !request.strikes i)
    (hnew : s.newcomers request = []) (hnextId : t.nextId = s.nextId) : s.Effect request t where
  badges := by rw [hinstances, hnew, List.append_nil]
  ended i hi hstrikes _ := by
    rw [hinstances]
    exact List.mem_filter.2 ⟨hi, by rw [hstrikes]; rfl⟩
  nextId := by rw [hnextId, hnew]; rfl

/-- The effect of a request that strikes no instance. -/
theorem Effect.of_badges {s t : Scheduler} {request : Request}
    (hstrikes : ∀ i, request.strikes i = false) (hnew : s.newcomers request = [])
    (hbadges : t.instances.map Instance.badge = s.instances.map Instance.badge)
    (hended : ∀ i ∈ s.instances, i.status.isTerminal = true → i ∈ t.instances)
    (hnextId : t.nextId = s.nextId) : s.Effect request t where
  badges := by
    have hall : (s.instances.filter fun i => !request.strikes i) = s.instances := by
      rw [List.filter_eq_self]
      intro i _
      rw [hstrikes i]
      rfl
    rw [hall, hnew, List.append_nil, hbadges]
  ended i hi _ hterminal := hended i hi hterminal
  nextId := by rw [hnextId, hnew]; rfl

theorem Effect.of_same {s t : Scheduler} {request : Request}
    (hstrikes : ∀ i, request.strikes i = false) (hnew : s.newcomers request = [])
    (hinstances : t.instances = s.instances) (hnextId : t.nextId = s.nextId) :
    s.Effect request t :=
  .of_badges hstrikes hnew (by rw [hinstances]) (fun i hi _ => by rw [hinstances]; exact hi) hnextId

theorem isReleased_ended {i : Instance} (h : i.status.isTerminal = true) (event : HostEvent) :
    isReleased event i = false := by
  unfold isReleased
  cases hstatus : i.status with
  | suspended reason => rw [hstatus] at h; cases h
  | _ => rfl

theorem effect_spawn (s : Scheduler) (edition : Edition) (owner : EntityId) :
    s.Effect (.spawn edition owner) (s.spawn edition owner).2 where
  badges := by
    have hall : (s.instances.filter fun i => !(Request.spawn edition owner).strikes i) =
        s.instances := List.filter_eq_self.2 fun _ _ => rfl
    rw [hall]
    rfl
  ended i hi _ _ := List.mem_append_left _ hi
  nextId := rfl

theorem effect_tick (s : Scheduler) (field : Field) :
    s.Effect (.tick field) (s.runTick field).2.1 := by
  refine .of_badges (fun _ => rfl) rfl (badges_runTick s field) ?_ rfl
  intro i hi hterminal
  apply mem_round_of_waiting hi
  intro hrunning
  rw [hrunning] at hterminal
  cases hterminal

theorem effect_notify (s : Scheduler) (event : HostEvent) :
    s.Effect (.notify event) (s.notify event).2 := by
  refine .of_badges (fun _ => rfl) rfl (badges_notify s event) ?_ rfl
  intro i hi hterminal
  have hmem := mem_notify hi event
  rw [isReleased_ended hterminal] at hmem
  exact hmem

theorem effect_resume {s t : Scheduler} (hs : s.Ordered) {id : Nat}
    (h : s.resume id = (.ok (), t)) : s.Effect (.resume id) t := by
  obtain ⟨⟨j, reason, hget, hstatus⟩, rfl⟩ := resume_ok h
  refine .of_badges (fun _ => rfl) rfl (badges_resume h) ?_ rfl
  intro i hi hterminal
  refine mem_updateFirst hi ?_ _
  -- The instance that runs again waited, so it is not one that has ended.
  rintro rfl
  have hij : i = j := Option.some.inj ((get?_of_mem hs.ordered hi).symm.trans hget)
  rw [hij, hstatus] at hterminal
  cases hterminal

theorem effect_cancel {s t : Scheduler} (hs : s.Ordered) {id : Nat} {i : Instance}
    (h : s.cancel id = (.ok i, t)) : s.Effect (.cancel id) t := by
  obtain ⟨-, rfl⟩ := cancel_ok h
  exact .of_filter (eraseP_eq_filter hs.ordered id) rfl rfl

/-- A cancel that fails finds no instance to strike. -/
theorem effect_cancel_failed {s : Scheduler} {id : Nat} {e : Error}
    (h : s.cancel id = (.error e, s)) : s.Effect (.cancel id) s := by
  refine .of_filter ?_ rfl rfl
  unfold cancel at h
  cases hget : s.get? id with
  | some i => rw [hget] at h; cases h
  | none =>
    rw [eq_comm, List.filter_eq_self]
    intro i hi
    have hid : ¬(i.id == id) = true := List.find?_eq_none.1 hget i hi
    rw [Bool.not_eq_true] at hid
    show (!(i.id == id)) = true
    rw [hid]
    rfl

/-- **Step.** All that a request can do. -/
theorem ask_effect {s : Scheduler} (hs : s.Ordered) (request : Request) :
    s.Effect request (s.ask request).2 := by
  cases request with
  | spawn edition owner => exact effect_spawn s edition owner
  | tick field => exact effect_tick s field
  | notify event => exact effect_notify s event
  | resume id =>
    rw [ask]
    rcases (s.resume_harmless id).cases with ⟨e, h⟩ | ⟨_, t, h⟩
    · rw [h]
      exact .of_same (fun _ => rfl) rfl rfl rfl
    · rw [h]
      exact effect_resume hs h
  | cancel id =>
    rw [ask]
    rcases (s.cancel_harmless id).cases with ⟨e, h⟩ | ⟨i, t, h⟩
    · rw [h]
      exact effect_cancel_failed h
    · rw [h]
      exact effect_cancel hs h
  | cancelOwnedBy owner =>
    rw [ask, cancelOwnedBy_eq]
    exact .of_filter rfl rfl rfl
  | cancelAll =>
    refine .of_filter ?_ rfl rfl
    show [] = s.instances.filter fun _ => false
    rw [List.filter_eq_nil_iff.2 fun _ _ => Bool.false_ne_true]
  | reap =>
    rw [ask, reap_eq]
    exact .of_filter rfl rfl rfl
  | snapshot => exact .of_same (fun _ => rfl) rfl rfl rfl
  | setTrace on => exact .of_same (fun _ => rfl) rfl rfl rfl

/-- An answer mentions only registered instances, and the one that it has just started. -/
theorem mentions_ask {s : Scheduler} {request : Request} {id : Nat}
    (h : id ∈ (s.ask request).1.mentions) : id ∈ s.ids ∨ id = s.nextId := by
  cases request with
  | spawn edition owner => exact .inr (List.mem_singleton.1 h)
  | tick field =>
    obtain ⟨e, he, rfl⟩ := List.mem_map.1 h
    obtain ⟨i, hi, -, hid⟩ := round_instanceId he
    rw [hid]
    exact .inl (List.mem_map_of_mem hi)
  | notify event => exact .inl ((List.filter_sublist.map _).subset h)
  | resume target =>
    rw [ask] at h
    split at h <;> cases h
  | cancel target =>
    rw [ask] at h
    split at h
    · rename_i i t hcancel
      rw [List.mem_singleton.1 h]
      exact .inl (List.mem_map_of_mem (List.mem_of_find?_eq_some (cancel_ok hcancel).1))
    · cases h
  | cancelOwnedBy owner =>
    rw [ask, cancelOwnedBy_eq] at h
    exact .inl ((List.filter_sublist.map _).subset h)
  | cancelAll => cases h
  | reap =>
    rw [ask, reap_eq] at h
    exact .inl ((List.filter_sublist.map _).subset h)
  | snapshot =>
    obtain ⟨x, hx, rfl⟩ := List.mem_map.1 h
    obtain ⟨i, hi, rfl⟩ := List.mem_map.1 hx
    exact .inl (List.mem_map_of_mem hi)
  | setTrace on => cases h

/-! ## What follows for one request -/

theorem newcomers_eq (s : Scheduler) (request : Request) :
    s.newcomers request = [] ∨ ∃ i, s.newcomers request = [i] ∧ i.id = s.nextId := by
  cases request with
  | spawn edition owner => exact .inr ⟨_, rfl, rfl⟩
  | _ => exact .inl rfl

namespace Effect

variable {s t : Scheduler} {request : Request}

theorem ids (h : s.Effect request t) :
    t.ids = (s.instances.filter fun i => !request.strikes i).map Instance.id ++
      (s.newcomers request).map Instance.id := by
  have hids := congrArg (List.map Prod.fst) h.badges
  rw [List.map_map, List.map_map, List.map_append] at hids
  exact hids

theorem ordered (h : s.Effect request t) (hs : s.Ordered) : t.Ordered := by
  have hkept : ((s.instances.filter fun i => !request.strikes i).map Instance.id).Sublist s.ids :=
    List.filter_sublist.map _
  have hpairwise := hs.ordered.sublist hkept
  have hlt := fun id hid => hs.below id (hkept.subset hid)
  have hids := h.ids
  have hnextId := h.nextId
  rcases newcomers_eq s request with hnew | ⟨i, hnew, hid⟩
  · rw [hnew, List.map_nil, List.append_nil] at hids
    rw [hnew, List.length_nil, Nat.add_zero] at hnextId
    rw [← hids] at hpairwise hlt
    exact ⟨hpairwise, by rw [hnextId]; exact hlt⟩
  · rw [hnew, List.map_singleton, hid] at hids
    rw [hnew, List.length_singleton] at hnextId
    constructor
    · rw [hids, List.pairwise_append]
      refine ⟨hpairwise, List.pairwise_singleton _ _, ?_⟩
      intro a ha b hb
      rw [List.mem_singleton.1 hb]
      exact hlt a ha
    · rw [hids, hnextId]
      intro id' hid'
      rcases List.mem_append.1 hid' with hold | hlast
      · exact Nat.lt_succ_of_lt (hlt id' hold)
      · rw [List.mem_singleton.1 hlast]
        exact Nat.lt_succ_self s.nextId

/-- An instance after a request was there before it and was not struck, or it is the new one. -/
theorem mem (h : s.Effect request t) {j : Instance} (hj : j ∈ t.instances) :
    (∃ i ∈ s.instances, request.strikes i = false ∧ j.badge = i.badge) ∨ j.id = s.nextId := by
  have hbadge : j.badge ∈ t.instances.map Instance.badge := List.mem_map_of_mem hj
  rw [h.badges, List.map_append, List.mem_append] at hbadge
  rcases hbadge with hold | hnew
  · obtain ⟨i, hi, hij⟩ := List.mem_map.1 hold
    obtain ⟨hi, hstrikes⟩ := List.mem_filter.1 hi
    rw [Bool.not_eq_true'] at hstrikes
    exact .inl ⟨i, hi, hstrikes, hij.symm⟩
  · obtain ⟨i, hi, hij⟩ := List.mem_map.1 hnew
    rcases newcomers_eq s request with hnil | ⟨k, hone, hid⟩
    · rw [hnil] at hi
      cases hi
    · rw [hone, List.mem_singleton] at hi
      rw [← show i.id = j.id from congrArg Prod.fst hij, hi]
      exact .inr hid

/-- An instance that is not struck is still there. -/
theorem mem_ids (h : s.Effect request t) {i : Instance} (hi : i ∈ s.instances)
    (hstrikes : request.strikes i = false) : i.id ∈ t.ids := by
  rw [h.ids]
  exact List.mem_append_left _
    (List.mem_map_of_mem (List.mem_filter.2 ⟨hi, by rw [hstrikes]; rfl⟩))

end Effect

/-! ## Numbers that are gone -/

/-- The number was handed out, and its instance is no longer registered. -/
structure Gone (s : Scheduler) (id : Nat) : Prop where
  below : id < s.nextId
  absent : id ∉ s.ids

theorem gone_of_removed {s : Scheduler} (hs : s.Ordered) {request : Request} {id : Nat}
    (hid : id ∈ s.ids) (habsent : id ∉ (s.ask request).2.ids) : (s.ask request).2.Gone id := by
  refine ⟨?_, habsent⟩
  have hbelow := hs.below id hid
  rw [(ask_effect hs request).nextId]
  omega

theorem Gone.ask {s : Scheduler} (hs : s.Ordered) {id : Nat} (h : s.Gone id) (request : Request) :
    (s.ask request).2.Gone id ∧ id ∉ (s.ask request).1.mentions := by
  have heffect := ask_effect hs request
  have hbelow := h.below
  refine ⟨⟨?_, ?_⟩, ?_⟩
  · rw [heffect.nextId]
    omega
  · intro hid
    obtain ⟨j, hj, rfl⟩ := List.mem_map.1 hid
    rcases heffect.mem hj with ⟨i, hi, -, hbadge⟩ | hnew
    · apply h.absent
      rw [show j.id = i.id from congrArg Prod.fst hbadge]
      exact List.mem_map_of_mem hi
    · omega
  · intro hmentions
    rcases mentions_ask hmentions with hid | hid
    · exact h.absent hid
    · omega

/-- **Run.** A number that is gone stays gone, no answer mentions it, and nothing is left to
remove. -/
theorem Gone.after {s : Scheduler} (hs : s.Ordered) {id : Nat} (h : s.Gone id)
    (requests : List Request) :
    (s.after requests).Gone id ∧ (∀ answer ∈ s.answers requests, id ∉ answer.mentions) ∧
      removals id s requests = [] := by
  induction requests generalizing s with
  | nil => exact ⟨h, nofun, rfl⟩
  | cons request rest ih =>
    obtain ⟨hgone, hmentions⟩ := h.ask hs request
    obtain ⟨hafter, hanswers, hremovals⟩ := ih ((ask_effect hs request).ordered hs) hgone
    refine ⟨hafter, ?_, ?_⟩
    · intro answer hanswer
      rcases List.mem_cons.1 hanswer with rfl | hanswer
      · exact hmentions
      · exact hanswers answer hanswer
    · rw [removals, if_neg fun hboth => h.absent hboth.1]
      exact hremovals

/-! ## Fates -/

/-- What becomes of a number in a run: its instance is registered to the end, or one request and no
other takes it away, and the number is not met again. -/
inductive Fate (s : Scheduler) (requests : List Request) (id : Nat) : Prop
  | kept : removals id s requests = [] → id ∈ (s.after requests).ids → Fate s requests id
  | removed (before : List Request) (request : Request) (later : List Request) (i : Instance) :
      requests = before ++ request :: later →
      i ∈ (s.after before).instances → i.id = id → request.strikes i = true →
      removals id s requests = [request] →
      id ∉ (s.after requests).ids →
      (∀ answer ∈ (s.after (before ++ [request])).answers later, id ∉ answer.mentions) →
      Fate s requests id

theorem Fate.cons {s : Scheduler} {request : Request} {rest : List Request} {id : Nat}
    (hstep : ¬(id ∈ s.ids ∧ id ∉ (s.ask request).2.ids))
    (h : (s.ask request).2.Fate rest id) : s.Fate (request :: rest) id := by
  have hremovals : removals id s (request :: rest) = removals id (s.ask request).2 rest := by
    rw [removals, if_neg hstep]
  cases h with
  | kept hnone hmem => exact .kept (hremovals.trans hnone) hmem
  | removed before r later i hsplit hi hid hstrikes hone habsent hanswers =>
    refine .removed (request :: before) r later i ?_ hi hid hstrikes (hremovals.trans hone) habsent
      hanswers
    rw [hsplit]
    rfl

/-- A request after which an instance is missing has struck it, and was the only one. -/
theorem fate_of_removed {s : Scheduler} (hs : s.Ordered) {request : Request} {id : Nat}
    (hid : id ∈ s.ids) (hgone : id ∉ (s.ask request).2.ids) (rest : List Request) :
    s.Fate (request :: rest) id := by
  have heffect := ask_effect hs request
  obtain ⟨i, hi, rfl⟩ := List.mem_map.1 hid
  obtain ⟨hend, hanswers, hremovals⟩ :=
    (gone_of_removed hs hid hgone).after (heffect.ordered hs) rest
  refine .removed [] request rest i rfl hi rfl ?_ ?_ hend.absent hanswers
  · by_cases hstrikes : request.strikes i = true
    · exact hstrikes
    · rw [Bool.not_eq_true] at hstrikes
      exact absurd (heffect.mem_ids hi hstrikes) hgone
  · rw [removals, if_pos ⟨hid, hgone⟩, hremovals]

/-- A number that an answer hands out is that of a registered instance. -/
theorem mem_ids_of_started {s : Scheduler} {request : Request} {id : Nat}
    (h : (s.ask request).1 = .started id) : id ∈ (s.ask request).2.ids := by
  cases request with
  | spawn edition owner =>
    cases h
    exact List.mem_map_of_mem (List.mem_append_right _ List.mem_cons_self)
  | resume target =>
    rw [ask] at h
    split at h <;> cases h
  | cancel target =>
    rw [ask] at h
    split at h <;> cases h
  | _ => cases h

/-- **Run.** Every number that is registered or handed out has one of the two fates. -/
theorem fate {s : Scheduler} (hs : s.Ordered) {requests : List Request} {id : Nat}
    (h : id ∈ s.ids ∨ .started id ∈ s.answers requests) : s.Fate requests id := by
  induction requests generalizing s with
  | nil =>
    rcases h with hid | hnone
    · exact .kept rfl hid
    · cases hnone
  | cons request rest ih =>
    have ht := (ask_effect hs request).ordered hs
    by_cases hid : id ∈ s.ids
    · by_cases hnext : id ∈ (s.ask request).2.ids
      · exact .cons (fun hboth => hboth.2 hnext) (ih ht (.inl hnext))
      · exact fate_of_removed hs hid hnext rest
    · refine .cons (fun hboth => hid hboth.1) (ih ht ?_)
      rcases h with hid' | hstarted
      · exact absurd hid' hid
      · rcases List.mem_cons.1 hstarted with hnow | hlater
        · exact .inl (mem_ids_of_started hnow.symm)
        · exact .inr hlater

/-! ## What stays of an instance -/

end Scheduler

/-- What stays of an instance while it is registered: its edition and its owner, and all of it once
it has ended. -/
structure Instance.Stays (i j : Instance) : Prop where
  edition : j.edition = i.edition
  owner : j.owner = i.owner
  ended : i.status.isTerminal = true → j = i

theorem Instance.Stays.trans {i j k : Instance} (h : i.Stays j) (h' : j.Stays k) : i.Stays k where
  edition := h'.edition.trans h.edition
  owner := h'.owner.trans h.owner
  ended hterminal := by
    have hji := h.ended hterminal
    rw [h'.ended (by rw [hji]; exact hterminal), hji]

namespace Scheduler

theorem Effect.stays {s t : Scheduler} {request : Request} (h : s.Effect request t)
    (hs : s.Ordered) {i j : Instance} (hi : i ∈ s.instances) (hj : j ∈ t.instances)
    (hid : j.id = i.id) : i.Stays j := by
  rcases h.mem hj with ⟨k, hk, hstrikes, hbadge⟩ | hnew
  · have hki : k = i := by
      apply eq_of_id hs.ordered hi hk
      rw [← hid]
      exact (congrArg Prod.fst hbadge).symm
    subst hki
    have hrest := congrArg Prod.snd hbadge
    refine ⟨congrArg Prod.fst hrest, congrArg Prod.snd hrest, ?_⟩
    intro hterminal
    exact eq_of_id (h.ordered hs).ordered (h.ended k hk hstrikes hterminal) hj hid
  · -- The new instance has a number of its own.
    have hlt := hs.below i.id (List.mem_map_of_mem hi)
    omega

/-- **Run.** An instance that is registered at two points of a run has stayed. -/
theorem stays {s : Scheduler} (hs : s.Ordered) {requests : List Request} {i j : Instance}
    (hi : i ∈ s.instances) (hj : j ∈ (s.after requests).instances) (hid : j.id = i.id) :
    i.Stays j := by
  induction requests generalizing s i with
  | nil =>
    have hji := eq_of_id hs.ordered hi hj hid
    exact ⟨congrArg Instance.edition hji, congrArg Instance.owner hji, fun _ => hji⟩
  | cons request rest ih =>
    have heffect := ask_effect hs request
    have ht := heffect.ordered hs
    by_cases hnext : i.id ∈ (s.ask request).2.ids
    · obtain ⟨k, hk, hki⟩ := List.mem_map.1 hnext
      exact (heffect.stays hs hi hk hki).trans (ih ht hk hj (hid.trans hki.symm))
    · have hgone := gone_of_removed hs (List.mem_map_of_mem hi) hnext
      refine absurd ?_ (hgone.after ht rest).1.absent
      rw [← hid]
      exact List.mem_map_of_mem hj

/-! ## Every history -/

/-- A snapshot has the numbers of its scheduler, so restoring it keeps them in order. -/
theorem Ordered.restored {s saved : Scheduler} (hs : s.Ordered) (hsaved : saved.Ordered)
    (editions : InstanceSnapshot → Option Edition) :
    (s.restore saved.snapshot editions).2.Ordered := by
  unfold restore
  cases hl : instancesOf editions saved.snapshot.instances with
  | error e => exact hs
  | ok l =>
    have hids : l.map Instance.id = saved.ids := by
      rw [map_of_editions (instancesOf_ok hl) Instance.id InstanceSnapshot.id fun _ _ _ => rfl]
      exact List.map_map
    exact ⟨by rw [ids, hids]; exact hsaved.ordered, by rw [ids, hids]; exact hsaved.below⟩

theorem Reachable.ordered {s : Scheduler} (h : s.Reachable) : s.Ordered := by
  induction h with
  | start config => exact ⟨List.Pairwise.nil, nofun⟩
  | step request _ ih => exact (ask_effect ih request).ordered ih
  | restore editions _ _ ih ihsaved => exact ih.restored ihsaved editions

/-- What holds of the instances in a run without restores. Numbers that are registered, or handed
out in the run, have their fates; an instance that is still there keeps its edition and its owner,
and stays as it is once it has ended. -/
structure Lives (s : Scheduler) (requests : List Request) : Prop where
  fate : ∀ id, id ∈ s.ids ∨ .started id ∈ s.answers requests → s.Fate requests id
  stays : ∀ i ∈ s.instances, ∀ j ∈ (s.after requests).instances, j.id = i.id → i.Stays j

end Scheduler

/-- **Identity and life.** In every scheduler that can come about, numbers go up in the order of
registration and are below the next one; and from there on, as long as nothing is restored, each
number that is handed out has one life. -/
theorem numbers_and_lives {s : Scheduler} (hs : s.Reachable) :
    s.Ordered ∧ ∀ requests, s.Lives requests := by
  have hordered := hs.ordered
  refine ⟨hordered, fun requests => ⟨?_, ?_⟩⟩
  · intro id hid
    exact Scheduler.fate hordered hid
  · intro i hi j hj hid
    exact Scheduler.stays hordered hi hj hid

/-- A case in which one instance ends and is reaped, another waits and is cancelled, and a third is
started after that. -/
theorem numbers_and_lives_reaped :
    let ended : Edition := ⟨0, .ofInstructions "ended" [.halt]⟩
    let waits : Edition := ⟨1, .ofInstructions "waits" [.wait (.const 5)]⟩
    let s := (Scheduler.empty {}).after
      [.spawn ended ⟨0, 1⟩, .spawn waits ⟨1, 1⟩, .tick (.ofSeed 0)]
    let requests : List Request := [.reap, .cancel 2, .spawn ended ⟨0, 1⟩, .snapshot]
    (s.Ordered ∧ s.ids = [1, 2] ∧ s.status? 1 = some .halted ∧ (s.after requests).ids = [3]) ∧
      (s.Fate requests 1 ∧ Scheduler.removals 1 s requests = [.reap]) ∧
      (s.Fate requests 2 ∧ Scheduler.removals 2 s requests = [.cancel 2]) ∧
      s.Fate requests 3 := by
  intro ended waits s requests
  have hs : s.Reachable := .step _ (.step _ (.step _ (.start {})))
  obtain ⟨hordered, hlives⟩ := numbers_and_lives hs
  have hfate := (hlives requests).fate
  refine ⟨⟨hordered, by decide, by decide, by decide⟩, ⟨hfate 1 (.inl (by decide)), by decide⟩,
    ⟨hfate 2 (.inl (by decide)), by decide⟩, hfate 3 (.inr (by decide))⟩

end FieldEngine
