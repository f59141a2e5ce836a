import FieldEngine.Proofs.Scheduler.Badges
import FieldEngine.Proofs.Session.History

/-!
# Sessions in step

What running instances do depends on the field, the scheduler and the timers of a session only, not
on its scripts: a turn takes the program from the instance. Sessions that have these in common,
serial numbers apart, are in step (`Session.InStep`), and stay so under every operation that only
lets instances run, releases or removes them, with equal replies:

    s.InStep t → op.Drives → (s.perform op).1 = (t.perform op).1 ∧
      (s.perform op).2.InStep (t.perform op).2                             (InStep.perform)
-/

namespace FieldEngine

/-! ## Schedulers without serial numbers -/

namespace Scheduler

def plain (s : Scheduler) : Scheduler :=
  { s with instances := s.instances.map Instance.plain }

/-- A turn does not see the serial number. -/
theorem round_plain (config : SchedulerConfig) (l : List Instance) (field : Field) :
    round config (l.map Instance.plain) field =
      { round config l field with
        instances := (round config l field).instances.map Instance.plain } := by
  induction l generalizing field with
  | nil => rfl
  | cons i rest ih =>
    rw [List.map_cons, round, round]
    have hstatus : i.plain.status = i.status := rfl
    rw [hstatus]
    split
    · simp only [ih]
      rfl
    · simp only [ih]
      rfl

theorem runTick_plain (s : Scheduler) (field : Field) :
    s.plain.runTick field =
      ((s.runTick field).1, (s.runTick field).2.1.plain, (s.runTick field).2.2) := by
  have h := round_plain s.config s.instances field
  unfold runTick
  simp only [plain] at h ⊢
  rw [h]

theorem notify_plain (s : Scheduler) (event : HostEvent) :
    s.plain.notify event = ((s.notify event).1, (s.notify event).2.plain) := by
  simp only [notify, plain, List.filter_map, List.map_map]
  refine Prod.ext rfl ?_
  simp only [Scheduler.mk.injEq, true_and, and_true]
  apply List.map_congr_left
  intro i _
  simp only [Function.comp_apply]
  have hrel : isReleased event i.plain = isReleased event i := rfl
  rw [hrel]
  split <;> rfl

theorem get?_plain (s : Scheduler) (id : Nat) :
    s.plain.get? id = (s.get? id).map Instance.plain := by
  simp only [get?, plain, List.find?_map]
  rfl

theorem updateFirst_plain (id : Nat) (f : Instance → Instance) (l : List Instance)
    (hf : ∀ i, f i.plain = (f i).plain) :
    updateFirst id f (l.map Instance.plain) = (updateFirst id f l).map Instance.plain := by
  induction l with
  | nil => rfl
  | cons i rest ih =>
    rw [List.map_cons, updateFirst, updateFirst]
    have hid : i.plain.id = i.id := rfl
    rw [hid]
    split
    · rw [List.map_cons, hf]
    · rw [List.map_cons, ih]

theorem resume_plain (s : Scheduler) (id : Nat) :
    s.plain.resume id = ((s.resume id).1, (s.resume id).2.plain) := by
  unfold resume
  rw [get?_plain]
  cases hg : s.get? id with
  | none => rfl
  | some i =>
    simp only [Option.map_some]
    have hstatus : i.plain.status = i.status := rfl
    rw [hstatus]
    split
    · simp only [plain, updateFirst_plain id (fun j => { j with status := .running })
        s.instances fun _ => rfl]
    · rfl
    · rfl
    · rfl

theorem cancel_plain (s : Scheduler) (id : Nat) :
    s.plain.cancel id = ((s.cancel id).1.map Instance.plain, (s.cancel id).2.plain) := by
  unfold cancel
  rw [get?_plain]
  cases s.get? id with
  | none => rfl
  | some i =>
    simp only [Option.map_some, Except.map, plain, List.eraseP_map]
    rfl

theorem cancelOwnedBy_plain (s : Scheduler) (owner : EntityId) :
    s.plain.cancelOwnedBy owner =
      ((s.cancelOwnedBy owner).1, (s.cancelOwnedBy owner).2.plain) := by
  simp only [cancelOwnedBy_eq, plain, List.filter_map, List.map_map]
  rfl

theorem reap_plain (s : Scheduler) :
    s.plain.reap = (s.reap.1.map Instance.plain, s.reap.2.plain) := by
  simp only [reap_eq, plain, List.filter_map]
  rfl

theorem cancelAll_plain (s : Scheduler) :
    s.plain.cancelAll = (s.cancelAll.1, s.cancelAll.2.plain) := by
  simp only [cancelAll, plain, List.length_map, List.map_nil]

/-- Serial numbers are not saved. -/
theorem snapshot_plain (s : Scheduler) : s.plain.snapshot = s.snapshot := by
  simp only [snapshot, plain, List.map_map]
  rfl

end Scheduler

/-- The operation only lets instances run, releases or removes them. -/
def Operation.Drives : Operation → Prop
  | .tick | .notify _ | .resume _ | .cancel _ | .cancelOwnedBy _ | .cancelAll | .reap => True
  | _ => False

namespace Session

/-! ## In step -/

/-- Field, scheduler and timers are the same, serial numbers apart. -/
structure InStep (s t : Session) : Prop where
  field : s.field = t.field
  scheduler : s.scheduler.plain = t.scheduler.plain
  timers : s.timers = t.timers

namespace InStep

variable {s t u : Session}

theorem refl (s : Session) : s.InStep s :=
  ⟨rfl, rfl, rfl⟩

theorem symm (h : s.InStep t) : t.InStep s :=
  ⟨h.field.symm, h.scheduler.symm, h.timers.symm⟩

theorem trans (h : s.InStep t) (k : t.InStep u) : s.InStep u :=
  ⟨h.field.trans k.field, h.scheduler.trans k.scheduler, h.timers.trans k.timers⟩

theorem snapshot (h : s.InStep t) : s.scheduler.snapshot = t.scheduler.snapshot := by
  rw [← Scheduler.snapshot_plain, h.scheduler, Scheduler.snapshot_plain]

/-! ## Releases -/

theorem schedulerNotify (h : s.InStep t) (event : HostEvent) :
    (s.scheduler.notify event).1 = (t.scheduler.notify event).1 ∧
      (s.scheduler.notify event).2.plain = (t.scheduler.notify event).2.plain := by
  have hn : s.scheduler.plain.notify event = t.scheduler.plain.notify event := by
    rw [h.scheduler]
  rw [Scheduler.notify_plain, Scheduler.notify_plain] at hn
  exact Prod.mk.inj hn

theorem releaseTimer (h : s.InStep t) (id : Nat) : (s.releaseTimer id).InStep (t.releaseTimer id) :=
  ⟨h.field, (h.schedulerNotify _).2, congrArg (fun timers => timers.erase id) h.timers⟩

theorem releaseTimers (h : s.InStep t) (ids : List Nat) :
    (ids.foldl Session.releaseTimer s).InStep (ids.foldl Session.releaseTimer t) := by
  induction ids generalizing s t with
  | nil => exact h
  | cons id ids ih => exact ih (h.releaseTimer id)

theorem dueTimers (h : s.InStep t) : s.dueTimers = t.dueTimers := by
  have htick : s.scheduler.tick = t.scheduler.tick := congrArg (·.tick) h.scheduler
  unfold Session.dueTimers
  rw [h.timers, htick]

theorem tick (h : s.InStep t) : s.tick.1 = t.tick.1 ∧ s.tick.2.InStep t.tick.2 := by
  have hdue : (s.dueTimers.foldl Session.releaseTimer s).InStep
      (t.dueTimers.foldl Session.releaseTimer t) := by
    rw [h.dueTimers]
    exact h.releaseTimers _
  unfold Session.tick
  generalize s.dueTimers.foldl Session.releaseTimer s = s' at hdue
  generalize t.dueTimers.foldl Session.releaseTimer t = t' at hdue
  have hrun : s'.scheduler.plain.runTick s'.field = t'.scheduler.plain.runTick t'.field := by
    rw [hdue.scheduler, hdue.field]
  rw [Scheduler.runTick_plain, Scheduler.runTick_plain] at hrun
  obtain ⟨hreport, hrest⟩ := Prod.mk.inj hrun
  obtain ⟨hplain, hfield⟩ := Prod.mk.inj hrest
  refine ⟨hreport, hfield, hplain, ?_⟩
  show timersAfter (s'.scheduler.runTick s'.field).1 s'.timers =
    timersAfter (t'.scheduler.runTick t'.field).1 t'.timers
  rw [hreport, hdue.timers]

/-- Dropping the timers of the same instances. -/
theorem dropTimers (h : s.timers = t.timers) {ids ids' : List Nat} (hids : ids = ids') :
    (s.dropTimers ids).timers = (t.dropTimers ids').timers := by
  unfold Session.dropTimers
  rw [hids, h]

theorem notify (h : s.InStep t) (event : HostEvent) :
    (s.notify event).1 = (t.notify event).1 ∧ (s.notify event).2.InStep (t.notify event).2 := by
  obtain ⟨hreleased, hplain⟩ := h.schedulerNotify event
  exact ⟨hreleased, h.field, hplain, dropTimers h.timers hreleased⟩

theorem resume (h : s.InStep t) (id : Nat) :
    (s.perform (.resume id)).1 = (t.perform (.resume id)).1 ∧
      (s.perform (.resume id)).2.InStep (t.perform (.resume id)).2 := by
  have hr : s.scheduler.plain.resume id = t.scheduler.plain.resume id := by
    rw [h.scheduler]
  rw [Scheduler.resume_plain, Scheduler.resume_plain] at hr
  rw [Session.perform, Session.perform, Session.resume, Session.resume]
  rcases (s.scheduler.resume_harmless id).cases with ⟨e, hs⟩ | ⟨_, a, hs⟩ <;>
    rcases (t.scheduler.resume_harmless id).cases with ⟨e', ht⟩ | ⟨_, b, ht⟩ <;>
    rw [hs, ht] at hr ⊢ <;> obtain ⟨hresult, hplain⟩ := Prod.mk.inj hr <;> cases hresult
  · exact ⟨rfl, h⟩
  · exact ⟨rfl, h.field, hplain, dropTimers h.timers rfl⟩

/-! ## Removals -/

theorem cancel (h : s.InStep t) (id : Nat) :
    (s.perform (.cancel id)).1 = (t.perform (.cancel id)).1 ∧
      (s.perform (.cancel id)).2.InStep (t.perform (.cancel id)).2 := by
  have hc : s.scheduler.plain.cancel id = t.scheduler.plain.cancel id := by
    rw [h.scheduler]
  rw [Scheduler.cancel_plain, Scheduler.cancel_plain] at hc
  rw [Session.perform, Session.perform, Session.cancel, Session.cancel]
  rcases (s.scheduler.cancel_harmless id).cases with ⟨e, hs⟩ | ⟨i, a, hs⟩ <;>
    rcases (t.scheduler.cancel_harmless id).cases with ⟨e', ht⟩ | ⟨j, b, ht⟩ <;>
    rw [hs, ht] at hc ⊢ <;> obtain ⟨hresult, hplain⟩ := Prod.mk.inj hc
  · cases hresult
    exact ⟨rfl, h⟩
  · cases hresult
  · cases hresult
  · refine ⟨?_, h.field, hplain, dropTimers h.timers rfl⟩
    show Reply.instances [i.plain] = Reply.instances [j.plain]
    rw [Except.ok.inj hresult]

theorem cancelOwnedBy (h : s.InStep t) (owner : EntityId) :
    (s.cancelOwnedBy owner).1 = (t.cancelOwnedBy owner).1 ∧
      (s.cancelOwnedBy owner).2.InStep (t.cancelOwnedBy owner).2 := by
  have hc : s.scheduler.plain.cancelOwnedBy owner = t.scheduler.plain.cancelOwnedBy owner := by
    rw [h.scheduler]
  rw [Scheduler.cancelOwnedBy_plain, Scheduler.cancelOwnedBy_plain] at hc
  obtain ⟨hremoved, hplain⟩ := Prod.mk.inj hc
  exact ⟨hremoved, h.field, hplain, dropTimers h.timers hremoved⟩

theorem cancelAll (h : s.InStep t) :
    s.cancelAll.1 = t.cancelAll.1 ∧ s.cancelAll.2.InStep t.cancelAll.2 := by
  have hc : s.scheduler.plain.cancelAll = t.scheduler.plain.cancelAll := by
    rw [h.scheduler]
  rw [Scheduler.cancelAll_plain, Scheduler.cancelAll_plain] at hc
  obtain ⟨hcount, hplain⟩ := Prod.mk.inj hc
  exact ⟨hcount, h.field, hplain, rfl⟩

theorem reap (h : s.InStep t) :
    s.reap.1.map Instance.plain = t.reap.1.map Instance.plain ∧ s.reap.2.InStep t.reap.2 := by
  have hr : s.scheduler.plain.reap = t.scheduler.plain.reap := by
    rw [h.scheduler]
  rw [Scheduler.reap_plain, Scheduler.reap_plain] at hr
  obtain ⟨hdone, hplain⟩ := Prod.mk.inj hr
  refine ⟨hdone, h.field, hplain, dropTimers h.timers ?_⟩
  have hids := congrArg (List.map Instance.id) hdone
  rw [List.map_map, List.map_map] at hids
  exact hids

/-! ## All of them -/

/-- **One operation** on sessions in step: equal replies, and they stay in step. -/
theorem perform (h : s.InStep t) {op : Operation} (hop : op.Drives) :
    (s.perform op).1 = (t.perform op).1 ∧ (s.perform op).2.InStep (t.perform op).2 := by
  cases op with
  | tick => exact ⟨congrArg Reply.report h.tick.1, h.tick.2⟩
  | notify event => exact ⟨congrArg Reply.ids (h.notify event).1, (h.notify event).2⟩
  | resume id => exact h.resume id
  | cancel id => exact h.cancel id
  | cancelOwnedBy owner =>
    exact ⟨congrArg Reply.ids (h.cancelOwnedBy owner).1, (h.cancelOwnedBy owner).2⟩
  | cancelAll => exact ⟨congrArg Reply.number h.cancelAll.1, h.cancelAll.2⟩
  | reap => exact ⟨congrArg Reply.instances h.reap.1, h.reap.2⟩
  | _ => exact hop.elim

end InStep

end Session

end FieldEngine
