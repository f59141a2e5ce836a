import FieldEngine.Proofs.Machine.Faults
import FieldEngine.Proofs.Scheduler.Slices

/-!
# Instances that the others do not see

A round passes over an instance that does not run, so it makes no difference whether that instance
is cancelled before a tick or after it. An instance whose first step faults has its turn, but the
turn leaves the field as it was, so the others have theirs as if it had not been there:

    x.status ≠ .running → tick, then cancel = cancel, then tick                    (runTick_idle)
    (x.machine config).step … = (.error f, u) → its turn leaves the field          (turnOf_fault)
    its turn leaves the field → the others end as without it                   (runTick_harmless)

Main statement: `idle_and_faulting_unseen`.
-/

namespace FieldEngine

namespace Scheduler

/-! ## One instance among others -/

section Split

variable {s : Scheduler} {before after : List Instance} {x : Instance}

theorem not_beq_of_ne (hbefore : ∀ i ∈ before, i.id ≠ x.id) :
    ∀ i ∈ before, ¬ (i.id == x.id) = true := by
  intro i hi
  rw [beq_iff_eq]
  exact hbefore i hi

/-- The first of its number is the one that is found. -/
theorem get?_split (hs : s.instances = before ++ x :: after)
    (hbefore : ∀ i ∈ before, i.id ≠ x.id) : s.get? x.id = some x := by
  unfold get?
  rw [hs, List.find?_append, List.find?_eq_none.2 (not_beq_of_ne hbefore), Option.none_or,
    List.find?_cons, beq_self_eq_true]

/-- The first of its number is the one that a cancel removes. -/
theorem cancel_split (hs : s.instances = before ++ x :: after)
    (hbefore : ∀ i ∈ before, i.id ≠ x.id) :
    s.cancel x.id = (.ok x, { s with instances := before ++ after }) := by
  have herase : s.instances.eraseP (fun i => i.id == x.id) = before ++ after := by
    rw [hs, List.eraseP_append_right _ (not_beq_of_ne hbefore), List.eraseP_cons,
      beq_self_eq_true, cond_true]
  rw [cancel, get?_split hs hbefore]
  simp only [herase]

/-- With different numbers, those before an instance are all up to its number. -/
theorem split_of_mem (hdistinct : (s.instances.map Instance.id).Nodup) (hx : x ∈ s.instances) :
    ∃ after, s.instances = s.instances.takeWhile (fun i => i.id != x.id) ++ x :: after ∧
      (∀ i ∈ s.instances.takeWhile (fun i => i.id != x.id), i.id ≠ x.id) ∧
      ∀ i ∈ after, i.id ≠ x.id := by
  obtain ⟨before, after, hs⟩ := List.append_of_mem hx
  rw [hs, List.map_append, List.map_cons, List.nodup_append, List.nodup_cons] at hdistinct
  obtain ⟨-, ⟨hnotin, -⟩, happart⟩ := hdistinct
  have hbefore : ∀ i ∈ before, i.id ≠ x.id := by
    intro i hi
    exact happart _ (List.mem_map_of_mem hi) _ List.mem_cons_self
  have htake : s.instances.takeWhile (fun i => i.id != x.id) = before := by
    rw [hs, List.takeWhile_append_of_pos, List.takeWhile_cons, if_neg (by simp), List.append_nil]
    intro i hi
    rw [bne_iff_ne]
    exact hbefore i hi
  rw [htake]
  refine ⟨after, hs, hbefore, ?_⟩
  intro i hi hid
  rw [← hid] at hnotin
  exact hnotin (List.mem_map_of_mem hi)

theorem get?_of_nodup (hdistinct : (s.instances.map Instance.id).Nodup) (hx : x ∈ s.instances) :
    s.get? x.id = some x := by
  obtain ⟨after, hs, hbefore, -⟩ := split_of_mem hdistinct hx
  exact get?_split hs hbefore

end Split

section Round

variable {config : SchedulerConfig} {l : List Instance} {field : Field} {id : Nat}

theorem ids_round : (round config l field).instances.map Instance.id = l.map Instance.id := by
  have h := congrArg (List.map Prod.fst) (badges_round config l field)
  rw [List.map_map, List.map_map] at h
  exact h

theorem id_ne_of_mem_round (h : ∀ i ∈ l, i.id ≠ id) :
    ∀ i ∈ (round config l field).instances, i.id ≠ id := by
  intro i hi hid
  have hmem : i.id ∈ (round config l field).instances.map Instance.id := List.mem_map_of_mem hi
  rw [ids_round] at hmem
  obtain ⟨j, hj, hj'⟩ := List.mem_map.1 hmem
  exact h j hj (hj'.trans hid)

/-- A round of others reports nothing of an instance. -/
theorem events_filter_round (h : ∀ i ∈ l, i.id ≠ id) :
    (round config l field).events.filter (fun e => e.instanceId != id) =
      (round config l field).events := by
  rw [List.filter_eq_self]
  intro e he
  obtain ⟨i, hi, -, hid⟩ := round_instanceId he
  rw [hid, bne_iff_ne]
  exact h i hi

end Round

/-! ## A turn that faults at once -/

/-- The first step of an instance in a tick, on the field that those before it left. -/
def firstStep (s : Scheduler) (x : Instance) (field : Field) : StepResult :=
  let before := s.instances.takeWhile fun i => i.id != x.id
  (x.machine s.config).step ⟨x.cursor, (round s.config before field).field⟩

/-- **A turn of a decoded program that faults at once** is one instruction; the field and the cursor
stay as they were. -/
theorem turnOf_fault {config : SchedulerConfig} {x : Instance} {field : Field}
    (hquota : 1 ≤ config.quota) {decoder : DecoderConfig} {name : String} {bytes : List UInt8}
    (hdecode : decode decoder name bytes = .ok x.program) {f : Fault} {u : ExecState}
    (hstep : (x.machine config).step ⟨x.cursor, field⟩ = (.error f, u)) :
    x.afterTurn (turnOf config x field) = { x with status := .faulted f } ∧
      (turnOf config x field).state.field = field ∧ (turnOf config x field).executed = 1 := by
  obtain ⟨quota, hq⟩ := Nat.exists_eq_add_of_le' hquota
  obtain ⟨i, hi, -⟩ := Machine.step_fault hstep
  have hstate : u = ⟨x.cursor, field⟩ :=
    decode_fault_unchanged (m := x.machine config) hdecode hstep
  have hturn : turnOf config x field =
      (Turn.closed x.id (.faulted f) ⟨x.cursor, field⟩).prepend
        ((x.machine config).shown config.traceInstructions x.id ⟨x.cursor, field⟩) 1 := by
    have hsucc := (x.machine config).turn_succ config.traceInstructions x.id quota
      ⟨x.cursor, field⟩
    rw [hstep, hstate, Machine.counted_of_get? hi, ← hq] at hsucc
    exact hsucc
  rw [hturn]
  exact ⟨rfl, rfl, rfl⟩

/-! ## Ticks with and without an instance -/

section Beside

variable {s : Scheduler} {before after : List Instance} {x : Instance} {field : Field}

/-- A tick passes over an instance that does not run. -/
theorem runTick_idle (hs : s.instances = before ++ x :: after)
    (hbefore : ∀ i ∈ before, i.id ≠ x.id) (hx : x.status ≠ .running) :
    let ticked := s.runTick field
    let without := { s with instances := before ++ after }.runTick field
    ticked.1 = without.1 ∧ ticked.2.2 = without.2.2 ∧
      ticked.2.1.cancel x.id = (.ok x, without.2.1) := by
  simp only [runTick, hs, round_append, round_waiting s.config hx]
  exact ⟨trivial, trivial, cancel_split rfl (id_ne_of_mem_round hbefore)⟩

/-- An instance whose turn leaves the field alone makes no difference to the others. -/
theorem runTick_harmless (hs : s.instances = before ++ x :: after)
    (hbefore : ∀ i ∈ before, i.id ≠ x.id) (hafter : ∀ i ∈ after, i.id ≠ x.id)
    (hx : x.status = .running)
    (hfield : (turnOf s.config x (round s.config before field).field).state.field =
      (round s.config before field).field) :
    let turn := turnOf s.config x (round s.config before field).field
    let ticked := s.runTick field
    let without := { s with instances := before ++ after }.runTick field
    ticked.2.2 = without.2.2 ∧
      ticked.2.1.cancel x.id = (.ok (x.afterTurn turn), without.2.1) ∧
      ticked.1.tick = without.1.tick ∧ ticked.1.executed = without.1.executed + turn.executed ∧
      ticked.1.events.filter (fun e => e.instanceId != x.id) = without.1.events := by
  intro turn ticked without
  have hown : turn.events.filter (fun e => e.instanceId != x.id) = [] := by
    rw [List.filter_eq_nil_iff]
    intro e he
    rw [(turnOf_reports s.config x _).instanceId e he, bne_self_eq_false]
    exact Bool.false_ne_true
  have hticked := runTick_split hs hx field
  simp only [hfield] at hticked
  simp only [ticked, without, hticked, runTick, round_append]
  refine ⟨trivial, cancel_split (x := x.afterTurn turn) rfl (id_ne_of_mem_round hbefore), trivial,
    ?_, ?_⟩
  · rw [← Nat.add_assoc, Nat.add_right_comm]
  · rw [List.filter_append, List.filter_append, events_filter_round hbefore, hown,
      events_filter_round hafter, List.nil_append]

end Beside

/-- **Instances that the others do not see.** In a scheduler of instances with different numbers,
one that does not run can be cancelled before a tick or after it, with the same report, field and
other instances. One that runs a decoded program and faults in its first step leaves the field and
the others as a tick without it leaves them; the report has one instruction more, and besides its
own events the same. -/
theorem idle_and_faulting_unseen (s : Scheduler) (hdistinct : (s.instances.map Instance.id).Nodup)
    (field : Field) {x : Instance} (hx : x ∈ s.instances) :
    ∃ t, s.cancel x.id = (.ok x, t) ∧
      let ticked := s.runTick field
      let without := t.runTick field
      (x.status ≠ .running →
        ticked.1 = without.1 ∧ ticked.2.2 = without.2.2 ∧
          ticked.2.1.cancel x.id = (.ok x, without.2.1)) ∧
      ∀ (decoder : DecoderConfig) (name : String) (bytes : List UInt8) (f : Fault) (u : ExecState),
        x.status = .running → 1 ≤ s.config.quota → decode decoder name bytes = .ok x.program →
        s.firstStep x field = (.error f, u) →
          ticked.2.2 = without.2.2 ∧
            ticked.2.1.cancel x.id = (.ok { x with status := .faulted f }, without.2.1) ∧
            ticked.1.tick = without.1.tick ∧ ticked.1.executed = without.1.executed + 1 ∧
            ticked.1.events.filter (fun e => e.instanceId != x.id) = without.1.events := by
  obtain ⟨after, hs, hbefore, hafter⟩ := split_of_mem hdistinct hx
  refine ⟨_, cancel_split hs hbefore, runTick_idle hs hbefore, ?_⟩
  intro decoder name bytes f u hrunning hquota hdecode hstep
  obtain ⟨hinstance, hfield, hexecuted⟩ := turnOf_fault hquota hdecode hstep
  have hharmless := runTick_harmless hs hbefore hafter hrunning hfield
  simp only [hinstance, hexecuted] at hharmless
  exact hharmless

/-- A case of four instances: the first draws a random number, the second divides by zero, the third
waits, the fourth sets a flag. -/
theorem idle_and_faulting_unseen_four :
    let divides : Program := ⟨"divides", #[(0, .wait (.binary .div (.const 1) (.const 0)))], 16⟩
    let draws := Instance.start 1 ⟨0, .ofInstructions "draws" [.random 0, .halt]⟩ ⟨0, 1⟩
    let faulty := Instance.start 2 ⟨1, divides⟩ ⟨0, 1⟩
    let waiting : Instance :=
      ⟨3, ⟨2, .ofInstructions "waits" [.wait (.const 5)]⟩, ⟨0, 1⟩, .startAt 1,
        .suspended (.timer 5)⟩
    let sets := Instance.start 4 ⟨3, .ofInstructions "sets" [.setFlag 7 true, .halt]⟩ ⟨0, 1⟩
    let s : Scheduler := ⟨{ quota := 8 }, [draws, faulty, waiting, sets], 5, 0⟩
    let field := Field.empty 0 0
    let others : Scheduler := { s with instances := [draws, waiting, sets] }
    let running : Scheduler := { s with instances := [draws, faulty, sets] }
    s.firstStep faulty field = (.error .divisionByZero, ⟨.start, field.randomByte.2⟩) ∧
      (s.runTick field).2.1.cancel 2 =
        (.ok { faulty with status := .faulted .divisionByZero }, (others.runTick field).2.1) ∧
      (s.runTick field).2.2 = (others.runTick field).2.2 ∧
      (s.runTick field).1.executed = (others.runTick field).1.executed + 1 ∧
      (s.runTick field).1 = (running.runTick field).1 ∧
      (s.runTick field).2.1.cancel 3 = (.ok waiting, (running.runTick field).2.1) := by
  intro divides draws faulty waiting sets s field others running
  have hdistinct : (s.instances.map Instance.id).Nodup := by decide
  have hstep : s.firstStep faulty field =
      (.error .divisionByZero, ⟨.start, field.randomByte.2⟩) := by rfl
  have hdecode : decode {} "divides" [1, 0, 7, 0, 0, 0, 7, 0, 3, 0, 1, 0, 0, 0, 35, 0] =
      .ok divides := by rfl
  obtain ⟨t, ht, -, hfaulty⟩ :=
    idle_and_faulting_unseen s hdistinct field (x := faulty) (by decide)
  obtain ⟨u, hu, hwaiting, -⟩ :=
    idle_and_faulting_unseen s hdistinct field (x := waiting) (by decide)
  obtain ⟨-, rfl⟩ := cancel_ok ht
  obtain ⟨-, rfl⟩ := cancel_ok hu
  obtain ⟨hfield, hcancel, -, hexecuted, -⟩ :=
    hfaulty {} "divides" _ _ _ rfl (by decide) hdecode hstep
  obtain ⟨hreport, -, hrest⟩ := hwaiting (by decide)
  exact ⟨hstep, hcancel, hfield, hexecuted, hreport, hrest⟩

end Scheduler

end FieldEngine
