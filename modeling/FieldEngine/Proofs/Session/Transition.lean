import FieldEngine.Proofs.OrderedMap
import FieldEngine.Proofs.Scheduler.Badges
import FieldEngine.Proofs.Session.History

/-!
# What operations do to scripts and instances

Of all that an operation does, only a little concerns the scripts and the badges of instances. Apart
from a restore, each operation is of one of four kinds (`Session.Transition`):

* `Steady`: scripts and badges stay as they are.
* `Removed`: some instances go, and with them the replaced scripts that nothing runs any more.
* `Spawned`: one more instance, of a registered script.
* `Loaded`: one more edition, registered under its name; an edition that it replaces is kept if some
  instance runs it.

`perform_transition` says so once; what holds of every history is proved from the four kinds.

A spawn, a resume, a cancel and a restore that fail leave the session as it was (`spawn_harmless`,
`resume_harmless`, `cancel_harmless`, `restore_harmless`).
-/

namespace FieldEngine.Session

/-- The session has the script, registered or replaced. -/
def Knows (s : Session) (script : LoadedScript) : Prop :=
  (∃ name : String, s.scripts[name]? = some script) ∨ script ∈ s.retired

/-- Scripts and badges stay as they are. -/
structure Steady (s t : Session) : Prop where
  decoder : t.decoder = s.decoder
  scripts : t.scripts = s.scripts
  retired : t.retired = s.retired
  nextSerial : t.nextSerial = s.nextSerial
  nextId : t.scheduler.nextId = s.scheduler.nextId
  badges : t.scheduler.instances.map Instance.badge = s.scheduler.instances.map Instance.badge

/-- Some instances go, and the replaced scripts that nothing runs any more. -/
structure Removed (s t : Session) : Prop where
  decoder : t.decoder = s.decoder
  scripts : t.scripts = s.scripts
  retired : t.retired = s.retired.filter t.isRun
  nextSerial : t.nextSerial = s.nextSerial
  nextId : t.scheduler.nextId = s.scheduler.nextId ∨ t.scheduler.instances = []
  instances : t.scheduler.instances.Sublist s.scheduler.instances

/-- One more instance, of a registered script. -/
structure Spawned (s t : Session) : Prop where
  decoder : t.decoder = s.decoder
  scripts : t.scripts = s.scripts
  retired : t.retired = s.retired
  nextSerial : t.nextSerial = s.nextSerial
  nextId : t.scheduler.nextId = s.scheduler.nextId + 1
  instances : ∃ (name : String) (script : LoadedScript) (owner : EntityId),
    s.scripts[name]? = some script ∧
      t.scheduler.instances =
        s.scheduler.instances ++ [.start s.scheduler.nextId script.edition owner]

/-- One more edition; the one that it replaces is kept if some instance runs it. -/
structure Loaded (s t : Session) (name : String) (script : LoadedScript) : Prop where
  field : t.field = s.field
  timers : t.timers = s.timers
  decoder : t.decoder = s.decoder
  scheduler : t.scheduler = s.scheduler
  decoded : decode s.decoder name script.source = .ok script.edition.program
  serial : script.edition.serial = s.nextSerial
  scripts : t.scripts = s.scripts.insert name script
  nextSerial : t.nextSerial = s.nextSerial + 1
  retired : ∀ a ∈ t.retired, s.Knows a
  run : ∀ a ∈ t.retired, a ∈ s.retired ∨ t.isRun a = true
  kept : ∀ a, s.Knows a → t.isRun a → t.Knows a

/-- The kinds of operations, a restore apart. -/
inductive Transition (s t : Session) : Prop
  | steady (h : Steady s t)
  | removed (h : Removed s t)
  | spawned (h : Spawned s t)
  | loaded (name : String) (script : LoadedScript) (h : Loaded s t name script)

/-! ## Operations that fail -/

theorem spawn_harmless (s : Session) (script : String) (owner : EntityId) :
    Harmless s (s.spawn script owner) := by
  unfold spawn
  split
  · exact .error _
  · split
    · exact .error _
    · exact .ok _

theorem spawn_ok {s t : Session} {script : String} {owner : EntityId} {id : Nat}
    (h : s.spawn script owner = (.ok id, t)) :
    ∃ loaded, s.scripts[script]? = some loaded ∧ id = s.scheduler.nextId ∧
      t = { s with scheduler := (s.scheduler.spawn loaded.edition owner).2 }.record
        (.spawned id script owner) := by
  unfold spawn at h
  split at h
  · cases h
  · rename_i loaded hl
    split at h
    · cases h
    · cases h
      exact ⟨loaded, hl, rfl, rfl⟩

theorem resume_ok {s t : Session} {id : Nat} (h : s.resume id = (.ok (), t)) :
    ∃ scheduler, s.scheduler.resume id = (.ok (), scheduler) ∧
      t = ({ s with scheduler }.dropTimers [id]).record (.resumed id) := by
  unfold resume at h
  split at h
  · cases h
  · rename_i scheduler hr
    cases h
    exact ⟨scheduler, hr, rfl⟩

theorem resume_harmless (s : Session) (id : Nat) : Harmless s (s.resume id) := by
  unfold resume
  split
  · rename_i e scheduler hr
    rw [(s.scheduler.resume_harmless id).eq hr]
    exact .error e
  · exact .ok ()

theorem cancel_ok {s t : Session} {id : Nat} {i : Instance} (h : s.cancel id = (.ok i, t)) :
    ∃ scheduler, s.scheduler.cancel id = (.ok i, scheduler) ∧
      t = (({ s with scheduler }.dropTimers [id]).pruneRetired).record (.cancelled id) := by
  unfold cancel at h
  split at h
  · cases h
  · rename_i removed scheduler hc
    cases h
    exact ⟨scheduler, hc, rfl⟩

theorem cancel_harmless (s : Session) (id : Nat) : Harmless s (s.cancel id) := by
  unfold cancel
  split
  · rename_i e scheduler hc
    rw [(s.scheduler.cancel_harmless id).eq hc]
    exact .error e
  · exact .ok _

/-- Scripts are decoded and the scheduler restored in copies before the session changes. -/
theorem restore_harmless (s : Session) (saved : SessionSnapshot) :
    Harmless s (s.restore saved) := by
  unfold restore
  split
  · exact .error _
  · split
    · exact .error _
    · split
      · exact .error _
      · exact .ok ()

/-! ## One operation -/

theorem Steady.refl (s : Session) : Steady s s :=
  ⟨rfl, rfl, rfl, rfl, rfl, rfl⟩

theorem Steady.trans {s t u : Session} (h : Steady s t) (k : Steady t u) : Steady s u where
  decoder := k.decoder.trans h.decoder
  scripts := k.scripts.trans h.scripts
  retired := k.retired.trans h.retired
  nextSerial := k.nextSerial.trans h.nextSerial
  nextId := k.nextId.trans h.nextId
  badges := k.badges.trans h.badges

theorem Steady.releaseTimer (s : Session) (id : Nat) : Steady s (s.releaseTimer id) :=
  ⟨rfl, rfl, rfl, rfl, rfl, Scheduler.badges_notify s.scheduler _⟩

theorem Steady.releaseTimers (s : Session) (ids : List Nat) :
    Steady s (ids.foldl Session.releaseTimer s) := by
  induction ids generalizing s with
  | nil => exact .refl s
  | cons id ids ih => exact (Steady.releaseTimer s id).trans (ih _)

theorem Steady.tick (s : Session) : Steady s s.tick.2 := by
  have h := Steady.releaseTimers s s.dueTimers
  exact h.trans ⟨rfl, rfl, rfl, rfl, rfl, Scheduler.badges_runTick _ _⟩

theorem Steady.notify (s : Session) (event : HostEvent) : Steady s (s.notify event).2 :=
  ⟨rfl, rfl, rfl, rfl, rfl, Scheduler.badges_notify s.scheduler event⟩

theorem Steady.resume {s t : Session} {id : Nat} (h : s.resume id = (.ok (), t)) : Steady s t := by
  obtain ⟨scheduler, hr, rfl⟩ := resume_ok h
  refine ⟨rfl, rfl, rfl, rfl, ?_, Scheduler.badges_resume hr⟩
  show scheduler.nextId = s.scheduler.nextId
  rw [(Scheduler.resume_ok hr).2]

theorem Removed.cancel {s t : Session} {id : Nat} {i : Instance} (h : s.cancel id = (.ok i, t)) :
    Removed s t := by
  obtain ⟨scheduler, hc, rfl⟩ := cancel_ok h
  have hs := (Scheduler.cancel_ok hc).2
  refine ⟨rfl, rfl, rfl, rfl, .inl ?_, ?_⟩
  · show scheduler.nextId = s.scheduler.nextId
    rw [hs]
  · show scheduler.instances.Sublist s.scheduler.instances
    rw [hs]
    exact List.eraseP_sublist

theorem Removed.cancelOwnedBy (s : Session) (owner : EntityId) :
    Removed s (s.cancelOwnedBy owner).2 := by
  unfold Session.cancelOwnedBy
  rw [Scheduler.cancelOwnedBy_eq]
  exact ⟨rfl, rfl, rfl, rfl, .inl rfl, List.filter_sublist⟩

theorem Removed.reap (s : Session) : Removed s s.reap.2 := by
  unfold Session.reap
  rw [Scheduler.reap_eq]
  exact ⟨rfl, rfl, rfl, rfl, .inl rfl, List.filter_sublist⟩

/-- Without instances no replaced script is run. -/
theorem Removed.of_instances_nil {s t : Session} (decoder : t.decoder = s.decoder)
    (scripts : t.scripts = s.scripts) (retired : t.retired = [])
    (nextSerial : t.nextSerial = s.nextSerial) (instances : t.scheduler.instances = []) :
    Removed s t := by
  refine ⟨decoder, scripts, ?_, nextSerial, .inr instances, ?_⟩
  · rw [retired, eq_comm, List.filter_eq_nil_iff]
    intro a _
    simp [isRun, instances]
  · rw [instances]
    exact List.nil_sublist _

theorem Spawned.of_spawn {s t : Session} {script : String} {owner : EntityId} {id : Nat}
    (h : s.spawn script owner = (.ok id, t)) : Spawned s t := by
  obtain ⟨loaded, hl, rfl, rfl⟩ := spawn_ok h
  exact ⟨rfl, rfl, rfl, rfl, rfl, script, loaded, owner, hl, rfl⟩

theorem knows_of_insert {s t : Session} {name other : String} {a b : LoadedScript}
    (h : t.scripts = s.scripts.insert name b) (hne : name ≠ other)
    (ho : s.scripts[other]? = some a) : t.Knows a := by
  refine .inl ⟨other, ?_⟩
  rw [h, OrderedMap.getElem?_insert, if_neg hne]
  exact ho

theorem loadScript_error (s : Session) {name : String} {source : List UInt8} {e : DecodeError}
    (hd : decode s.decoder name source = .error e) :
    s.loadScript name source =
      (.error ⟨.decode e, some ⟨some name, e.offset?⟩⟩, s.record (.decodeFailed name e)) := by
  rw [loadScript, hd]

/-- A load that succeeds registers a new edition. -/
theorem loadScript_ok (s : Session) {name : String} {source : List UInt8} {program : Program}
    (hd : decode s.decoder name source = .ok program) :
    (s.loadScript name source).1 = .ok program ∧
      Loaded s (s.loadScript name source).2 name ⟨source, ⟨s.nextSerial, program⟩⟩ := by
  unfold loadScript
  rw [hd]
  simp only []
  split
  · rename_i hn
    refine ⟨rfl, rfl, rfl, rfl, rfl, hd, rfl, rfl, rfl, fun a ha => .inr ha,
      fun a ha => .inl ha, ?_⟩
    rintro a (⟨other, ho⟩ | ha) _
    · have hne : name ≠ other := by
        rintro rfl
        cases hn.symm.trans ho
      exact knows_of_insert rfl hne ho
    · exact .inr ha
  · rename_i replaced hr
    refine ⟨rfl, rfl, rfl, rfl, rfl, hd, rfl, rfl, rfl, ?_,
      fun a ha => .inr (List.mem_filter.1 ha).2, ?_⟩
    · intro a ha
      rcases List.mem_append.1 (List.mem_filter.1 ha).1 with ha | ha
      · exact .inr ha
      · rw [List.mem_singleton.1 ha]
        exact .inl ⟨name, hr⟩
    · rintro a (⟨other, ho⟩ | ha) hrun
      · by_cases hne : name = other
        · subst hne
          have hra : replaced = a := Option.some.inj (hr.symm.trans ho)
          subst hra
          exact .inr (List.mem_filter.2 ⟨by simp, hrun⟩)
        · exact knows_of_insert rfl hne ho
      · exact .inr (List.mem_filter.2 ⟨List.mem_append_left _ ha, hrun⟩)

theorem loadScript_transition (s : Session) (name : String) (source : List UInt8) :
    Transition s (s.loadScript name source).2 := by
  cases hd : decode s.decoder name source with
  | error e =>
    rw [loadScript_error s hd]
    exact .steady ⟨rfl, rfl, rfl, rfl, rfl, rfl⟩
  | ok program => exact .loaded _ _ (loadScript_ok s hd).2

/-- **One operation.** Apart from a restore, every operation is of one of the four kinds. -/
theorem perform_transition (s : Session) (op : Operation) (h : ∀ saved, op ≠ .restore saved) :
    Transition s (s.perform op).2 := by
  cases op with
  | edit edit => exact .steady ⟨rfl, rfl, rfl, rfl, rfl, rfl⟩
  | load name source => exact loadScript_transition s name source
  | spawn script owner =>
    rw [perform]
    rcases (s.spawn_harmless script owner).cases with ⟨e, hs⟩ | ⟨id, t, hs⟩ <;> rw [hs]
    · exact .steady (.refl s)
    · exact .spawned (.of_spawn hs)
  | tick => exact .steady (.tick s)
  | notify event => exact .steady (.notify s event)
  | resume id =>
    rw [perform]
    rcases (s.resume_harmless id).cases with ⟨e, hr⟩ | ⟨_, t, hr⟩ <;> rw [hr]
    · exact .steady (.refl s)
    · exact .steady (.resume hr)
  | cancel id =>
    rw [perform]
    rcases (s.cancel_harmless id).cases with ⟨e, hc⟩ | ⟨i, t, hc⟩ <;> rw [hc]
    · exact .steady (.refl s)
    · exact .removed (.cancel hc)
  | cancelOwnedBy owner => exact .removed (.cancelOwnedBy s owner)
  | cancelAll => exact .removed (.of_instances_nil rfl rfl rfl rfl rfl)
  | reap => exact .removed (.reap s)
  | snapshot => exact .steady (.refl s)
  | restore saved => exact absurd rfl (h saved)
  | withScheduler config => exact .removed (.of_instances_nil rfl rfl rfl rfl rfl)
  | withTracer tracer => exact .steady ⟨rfl, rfl, rfl, rfl, rfl, rfl⟩
  | setTracing on => exact .steady ⟨rfl, rfl, rfl, rfl, rfl, rfl⟩

end FieldEngine.Session
