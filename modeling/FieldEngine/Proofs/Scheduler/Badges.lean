import FieldEngine.Proofs.Outcome
import FieldEngine.Scheduler.Basic

/-!
# What an instance keeps

The badge of an instance is all that no operation changes: its number, its edition and its owner.
Operations on a scheduler leave the badges as they are, or leave some instances out, or add one at
the end:

    (round config l field).instances.map badge = l.map badge                    (badges_round)
    (s.notify event).2.instances.map badge = s.instances.map badge              (badges_notify)
    s.resume id = (.ok (), t) → t.instances.map badge = s.instances.map badge   (badges_resume)

A resume, a cancel and a restore that fail leave the scheduler as it was (`resume_harmless`,
`cancel_harmless`, `restore_harmless`).

Where numbers go up in the order of registration, they tell instances apart (`Scheduler.eq_of_id`).
-/

namespace FieldEngine

/-- Number, edition and owner of an instance. -/
def Instance.badge (i : Instance) : Nat × Edition × EntityId :=
  (i.id, i.edition, i.owner)

namespace Scheduler

theorem badges_round (config : SchedulerConfig) (l : List Instance) (field : Field) :
    (round config l field).instances.map Instance.badge = l.map Instance.badge := by
  induction l generalizing field with
  | nil => rfl
  | cons i rest ih =>
    rw [round]
    split
    · simp only [List.map_cons, ih]
      rfl
    · simp only [List.map_cons, ih]

theorem badges_runTick (s : Scheduler) (field : Field) :
    (s.runTick field).2.1.instances.map Instance.badge = s.instances.map Instance.badge :=
  badges_round s.config s.instances field

theorem badges_notify (s : Scheduler) (event : HostEvent) :
    (s.notify event).2.instances.map Instance.badge = s.instances.map Instance.badge := by
  simp only [notify, List.map_map]
  apply List.map_congr_left
  intro i _
  simp only [Function.comp_apply]
  split <;> rfl

theorem badges_updateFirst (id : Nat) (f : Instance → Instance) (l : List Instance)
    (h : ∀ i, (f i).badge = i.badge) :
    (updateFirst id f l).map Instance.badge = l.map Instance.badge := by
  induction l with
  | nil => rfl
  | cons i rest ih =>
    rw [updateFirst]
    split
    · rw [List.map_cons, List.map_cons, h]
    · rw [List.map_cons, List.map_cons, ih]

theorem resume_harmless (s : Scheduler) (id : Nat) : Harmless s (s.resume id) := by
  unfold resume
  split
  · exact .error _
  · split
    · exact .ok ()
    all_goals exact .error _

theorem cancel_harmless (s : Scheduler) (id : Nat) : Harmless s (s.cancel id) := by
  unfold cancel
  split
  · exact .error _
  · exact .ok _

theorem restore_harmless (s : Scheduler) (saved : SchedulerSnapshot)
    (editions : InstanceSnapshot → Option Edition) : Harmless s (s.restore saved editions) := by
  unfold restore
  split
  · exact .error _
  · exact .ok ()

/-- A resume succeeds only for a suspended instance, and makes it run again. -/
theorem resume_ok {s t : Scheduler} {id : Nat} (h : s.resume id = (.ok (), t)) :
    (∃ i reason, s.get? id = some i ∧ i.status = .suspended reason) ∧
      t = { s with
        instances := updateFirst id (fun j => { j with status := .running }) s.instances } := by
  unfold resume at h
  cases hg : s.get? id with
  | none => rw [hg] at h; cases h
  | some i =>
    rw [hg] at h
    simp only at h
    split at h
    · rename_i reason hst
      cases h
      exact ⟨⟨i, reason, rfl, hst⟩, rfl⟩
    · cases h
    · cases h
    · cases h

theorem badges_resume {s t : Scheduler} {id : Nat} (h : s.resume id = (.ok (), t)) :
    t.instances.map Instance.badge = s.instances.map Instance.badge := by
  rw [(resume_ok h).2]
  exact badges_updateFirst id _ s.instances fun _ => rfl

/-- A cancel succeeds only for a registered instance, and removes the first of that number. -/
theorem cancel_ok {s t : Scheduler} {id : Nat} {i : Instance} (h : s.cancel id = (.ok i, t)) :
    s.get? id = some i ∧ t = { s with instances := s.instances.eraseP fun j => j.id == id } := by
  unfold cancel at h
  cases hg : s.get? id with
  | none => rw [hg] at h; cases h
  | some j =>
    rw [hg] at h
    cases h
    exact ⟨rfl, rfl⟩

theorem cancelOwnedBy_eq (s : Scheduler) (owner : EntityId) :
    s.cancelOwnedBy owner =
      ((s.instances.filter fun i => i.owner == owner).map Instance.id,
        { s with instances := s.instances.filter fun i => !(i.owner == owner) }) := by
  simp only [cancelOwnedBy, List.partition_eq_filter_filter]
  rfl

theorem reap_eq (s : Scheduler) :
    s.reap = (s.instances.filter fun i => i.status.isTerminal,
      { s with instances := s.instances.filter fun i => !i.status.isTerminal }) := by
  simp only [reap, List.partition_eq_filter_filter]
  rfl

theorem mem_notify {s : Scheduler} {i : Instance} (hi : i ∈ s.instances) (event : HostEvent) :
    (if isReleased event i then { i with status := .running } else i) ∈
      (s.notify event).2.instances :=
  List.mem_map_of_mem hi

theorem mem_updateFirst {i : Instance} {l : List Instance} (hi : i ∈ l) {id : Nat} (hid : id ≠ i.id)
    (f : Instance → Instance) : i ∈ updateFirst id f l := by
  induction l with
  | nil => cases hi
  | cons j l ih =>
    rw [updateFirst]
    rcases List.mem_cons.1 hi with rfl | hi
    · rw [if_neg (by rw [beq_iff_eq]; exact hid.symm)]
      exact List.mem_cons_self
    · split
      · exact List.mem_cons_of_mem _ hi
      · exact List.mem_cons_of_mem _ (ih hi)

theorem of_mem_updateFirst {id : Nat} {f : Instance → Instance} {l : List Instance} {j : Instance}
    (hj : j ∈ updateFirst id f l) : j ∈ l ∨ ∃ i ∈ l, j = f i := by
  induction l with
  | nil => cases hj
  | cons i l ih =>
    rw [updateFirst] at hj
    split at hj
    · rcases List.mem_cons.1 hj with rfl | hj
      · exact .inr ⟨i, List.mem_cons_self, rfl⟩
      · exact .inl (List.mem_cons_of_mem i hj)
    · rcases List.mem_cons.1 hj with rfl | hj
      · exact .inl List.mem_cons_self
      · rcases ih hj with hj | ⟨k, hk, heq⟩
        · exact .inl (List.mem_cons_of_mem i hj)
        · exact .inr ⟨k, List.mem_cons_of_mem i hk, heq⟩

/-! ## Numbers in order

The operations on one instance take the first of a number. Where the numbers go up, that is the only
one, and `get?` finds it. -/

section

variable {l : List Instance}

/-- With numbers in order, the first instance of a number is the only one. -/
theorem id_beq_eq_false {i : Instance} (h : ((i :: l).map Instance.id).Pairwise (· < ·))
    {id : Nat} (hid : (i.id == id) = true) : ∀ j ∈ l, (j.id == id) = false := by
  intro j hj
  rw [List.map_cons, List.pairwise_cons] at h
  have hlt := h.1 j.id (List.mem_map_of_mem hj)
  rw [beq_iff_eq] at hid
  rw [beq_eq_false_iff_ne]
  omega

theorem updateFirst_eq_map (h : (l.map Instance.id).Pairwise (· < ·)) (id : Nat)
    (f : Instance → Instance) :
    updateFirst id f l = l.map fun i => if i.id == id then f i else i := by
  induction l with
  | nil => rfl
  | cons i l ih =>
    rw [updateFirst, List.map_cons]
    by_cases hid : (i.id == id) = true
    · have hrest : (l.map fun j => if j.id == id then f j else j) = l.map fun j => j := by
        apply List.map_congr_left
        intro j hj
        rw [id_beq_eq_false h hid j hj]
        rfl
      rw [if_pos hid, if_pos hid, hrest, List.map_id']
    · rw [if_neg hid, if_neg hid, ih (List.pairwise_cons.1 h).2]

theorem eraseP_eq_filter (h : (l.map Instance.id).Pairwise (· < ·)) (id : Nat) :
    l.eraseP (fun i => i.id == id) = l.filter fun i => !(i.id == id) := by
  induction l with
  | nil => rfl
  | cons i l ih =>
    rw [List.eraseP_cons, List.filter_cons]
    by_cases hid : (i.id == id) = true
    · rw [hid, cond_true, if_neg (by decide), eq_comm, List.filter_eq_self]
      intro j hj
      rw [id_beq_eq_false h hid j hj]
      rfl
    · rw [Bool.not_eq_true] at hid
      rw [hid, cond_false, if_pos (by decide), ih (List.pairwise_cons.1 h).2]

end

section

variable {s : Scheduler} (h : (s.instances.map Instance.id).Pairwise (· < ·))

include h

theorem get?_of_mem {i : Instance} (hi : i ∈ s.instances) : s.get? i.id = some i := by
  unfold get?
  generalize s.instances = l at hi h
  induction l with
  | nil => cases hi
  | cons j l ih =>
    rw [List.map_cons, List.pairwise_cons] at h
    rw [List.find?_cons]
    rcases List.mem_cons.1 hi with rfl | hi
    · rw [beq_self_eq_true]
    · have hlt := h.1 i.id (List.mem_map_of_mem hi)
      rw [show (j.id == i.id) = false by rw [beq_eq_false_iff_ne]; omega]
      exact ih hi h.2

/-- Numbers tell instances apart. -/
theorem eq_of_id {i j : Instance} (hi : i ∈ s.instances) (hj : j ∈ s.instances)
    (hid : j.id = i.id) : j = i := by
  have hget := get?_of_mem h hj
  rw [hid, get?_of_mem h hi] at hget
  exact (Option.some.inj hget).symm

end

/-! ## Saved instances -/

/-- Saved instances are taken in one by one, in their order. -/
theorem instancesOf_ok {editions : InstanceSnapshot → Option Edition}
    {saved : List InstanceSnapshot} {l : List Instance}
    (h : instancesOf editions saved = .ok l) :
    l.map some = saved.map fun x => (editions x).map (Instance.ofSnapshot · x) := by
  induction saved generalizing l with
  | nil => cases h; rfl
  | cons x rest ih =>
    rw [instancesOf] at h
    split at h
    · cases h
    · rename_i edition he
      cases hr : instancesOf editions rest with
      | error e => rw [hr] at h; cases h
      | ok l' =>
        rw [hr] at h
        cases h
        rw [List.map_cons, List.map_cons, he, ih hr]
        rfl

/-- What is read off the instances after a restore can be read off the saved ones. -/
theorem map_of_editions {β : Type} {editions : InstanceSnapshot → Option Edition}
    {saved : List InstanceSnapshot} {l : List Instance}
    (h : l.map some = saved.map fun x => (editions x).map (Instance.ofSnapshot · x))
    (F : Instance → β) (G : InstanceSnapshot → β)
    (hFG : ∀ x e, editions x = some e → F (.ofSnapshot e x) = G x) : l.map F = saved.map G := by
  induction saved generalizing l with
  | nil =>
    rw [List.map_eq_nil_iff.1 h]
    rfl
  | cons x saved ih =>
    cases l with
    | nil => cases h
    | cons i l =>
      rw [List.map_cons, List.map_cons, List.cons.injEq] at h
      obtain ⟨hi, hl⟩ := h
      obtain ⟨e, he, hei⟩ := Option.map_eq_some_iff.1 hi.symm
      rw [List.map_cons, List.map_cons, ih hl, ← hei, hFG x e he]

end Scheduler

end FieldEngine
