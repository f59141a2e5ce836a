import FieldEngine.Proofs.Session.Restoring

/-!
# Where running programs come from

A session can always name the bytes of a program that some instance runs: the program is registered
under its own name or kept among the replaced ones, and serial numbers tell all of them apart
(`Session.Accounted`). Every operation keeps this, a restore of any snapshot included:

    s.Accounted → (s.perform op).2.Accounted                                 (accounted_perform)

The numbers of instances go up in the order of registration (`Session.Ordered`), and where the
decoder settings do not change, decoding the kept bytes again gives the kept program
(`Session.Reproducible`):

    s.Attained may → s.Ordered                                                (Attained.ordered)
    s.Attained Blank → s.Reproducible                                    (Attained.reproducible)
-/

namespace FieldEngine.Session

/-- Every program that an instance runs is known, and serial numbers tell known scripts apart. -/
structure Accounted (s : Session) : Prop where
  named : ∀ (name : String) (a : LoadedScript), s.scripts[name]? = some a →
    a.edition.program.name = name
  unique : ∀ a b, s.Knows a → s.Knows b → a.edition.serial = b.edition.serial → a = b
  fresh : ∀ a, s.Knows a → a.edition.serial < s.nextSerial
  runs : ∀ i ∈ s.scheduler.instances, ∃ a, s.Knows a ∧ a.edition = i.edition

/-- Instances are in the order of their numbers, all below the next one. -/
structure Ordered (s : Session) : Prop where
  ordered : (s.scheduler.instances.map Instance.id).Pairwise (· < ·)
  below : ∀ i ∈ s.scheduler.instances, i.id < s.scheduler.nextId

/-- Besides, known bytes decode to their programs. -/
structure Reproducible (s : Session) : Prop extends Accounted s, Ordered s where
  decoded : ∀ a, s.Knows a →
    decode s.decoder a.edition.program.name a.source = .ok a.edition.program

/-! ## The bytes of an instance -/

/-- The bytes of an instance that does not run the registered edition of its script. -/
def origin? (s : Session) (i : Instance) : Option (List UInt8) :=
  if s.runsRegistered i then none else s.sourceOf? i

theorem mem_known (s : Session) (a : LoadedScript) :
    a ∈ s.scripts.toList.map Prod.snd ++ s.retired ↔ s.Knows a := by
  rw [List.mem_append, List.mem_map]
  constructor
  · rintro (⟨⟨name, b⟩, hb, rfl⟩ | ha)
    · exact .inl ⟨name, Std.ExtTreeMap.mem_toList_iff_getElem?_eq_some.1 hb⟩
    · exact .inr ha
  · rintro (⟨name, ha⟩ | ha)
    · exact .inl ⟨(name, a), Std.ExtTreeMap.mem_toList_iff_getElem?_eq_some.2 ha, rfl⟩
    · exact .inr ha

/-- The known script of the serial number is the one whose bytes are found. -/
theorem Accounted.sourceOf?_eq {s : Session} (hs : s.Accounted) {a : LoadedScript} {i : Instance}
    (ha : s.Knows a) (h : a.edition.serial = i.edition.serial) :
    s.sourceOf? i = some a.source := by
  unfold sourceOf?
  cases hf : (s.scripts.toList.map Prod.snd ++ s.retired).find? fun script =>
      script.edition.serial == i.edition.serial with
  | none =>
    have := List.find?_eq_none.1 hf a ((mem_known s a).2 ha)
    simp [h] at this
  | some b =>
    have hb := (mem_known s b).1 (List.mem_of_find?_eq_some hf)
    have hser : b.edition.serial = i.edition.serial := by simpa using List.find?_some hf
    rw [hs.unique b a hb ha (hser.trans h.symm)]
    rfl

theorem runsRegistered_iff (s : Session) (i : Instance) :
    s.runsRegistered i = true ↔
      ∃ a, s.scripts[i.program.name]? = some a ∧ a.edition.serial = i.edition.serial := by
  unfold runsRegistered
  split
  · rename_i a ha
    simp [ha]
  · rename_i hn
    simp [hn]

/-- An instance has no bytes of its own exactly if it runs the registered edition. -/
theorem Accounted.origin?_eq_none_iff {s : Session} (hs : s.Accounted) {i : Instance}
    (hi : i ∈ s.scheduler.instances) : s.origin? i = none ↔ s.runsRegistered i = true := by
  unfold origin?
  split
  · rename_i h
    simp [h]
  · rename_i h
    obtain ⟨a, ha, hai⟩ := hs.runs i hi
    rw [hs.sourceOf?_eq ha (congrArg Edition.serial hai)]
    simp [h]

/-- The bytes of an instance depend on its badge only. -/
theorem origin?_congr (s : Session) {i j : Instance} (h : i.edition = j.edition) :
    s.origin? i = s.origin? j := by
  unfold origin? runsRegistered sourceOf? Instance.program
  rw [h]

/-! ## Steps -/

theorem isRun_of_mem {s : Session} {a : LoadedScript} {i : Instance}
    (hi : i ∈ s.scheduler.instances) (h : a.edition = i.edition) : s.isRun a = true := by
  unfold isRun
  rw [List.any_eq_true]
  exact ⟨i, hi, by rw [h, beq_self_eq_true]⟩

theorem edition_of_badges {l m : List Instance}
    (h : l.map Instance.badge = m.map Instance.badge) {i : Instance} (hi : i ∈ l) :
    ∃ j ∈ m, j.badge = i.badge := by
  have : i.badge ∈ m.map Instance.badge := h ▸ List.mem_map_of_mem hi
  obtain ⟨j, hj, hji⟩ := List.mem_map.1 this
  exact ⟨j, hj, hji⟩

theorem Steady.knows {s t : Session} (h : Steady s t) (a : LoadedScript) :
    t.Knows a ↔ s.Knows a := by
  unfold Knows
  rw [h.scripts, h.retired]

theorem Removed.knows {s t : Session} (h : Removed s t) {a : LoadedScript} (ha : t.Knows a) :
    s.Knows a := by
  rcases ha with ⟨name, ha⟩ | ha
  · exact .inl ⟨name, h.scripts ▸ ha⟩
  · rw [h.retired] at ha
    exact .inr (List.mem_filter.1 ha).1

theorem Removed.knows_of_isRun {s t : Session} (h : Removed s t) {a : LoadedScript}
    (ha : s.Knows a) (hr : t.isRun a = true) : t.Knows a := by
  rcases ha with ⟨name, ha⟩ | ha
  · exact .inl ⟨name, h.scripts ▸ ha⟩
  · refine .inr ?_
    rw [h.retired]
    exact List.mem_filter.2 ⟨ha, hr⟩

theorem Spawned.knows {s t : Session} (h : Spawned s t) (a : LoadedScript) :
    t.Knows a ↔ s.Knows a := by
  unfold Knows
  rw [h.scripts, h.retired]

theorem Loaded.look {s t : Session} {name : String} {script : LoadedScript}
    (h : Loaded s t name script) {other : String} {a : LoadedScript}
    (ha : t.scripts[other]? = some a) :
    (name = other ∧ a = script) ∨ s.scripts[other]? = some a := by
  rw [h.scripts, OrderedMap.getElem?_insert] at ha
  split at ha
  · rename_i hn
    exact .inl ⟨hn, (Option.some.inj ha).symm⟩
  · exact .inr ha

theorem Loaded.knows {s t : Session} {name : String} {script : LoadedScript}
    (h : Loaded s t name script) {a : LoadedScript} (ha : t.Knows a) :
    a = script ∨ s.Knows a := by
  rcases ha with ⟨other, ha⟩ | ha
  · rcases h.look ha with ⟨-, ha⟩ | ha
    · exact .inl ha
    · exact .inr (.inl ⟨other, ha⟩)
  · exact .inr (h.retired a ha)

/-- An accounted session stays so if nothing unknown appears and what is run stays known. -/
theorem Accounted.of_knows {s t : Session} (hs : s.Accounted) (hscripts : t.scripts = s.scripts)
    (hserial : t.nextSerial = s.nextSerial) (hk : ∀ a, t.Knows a → s.Knows a)
    (hr : ∀ i ∈ t.scheduler.instances, ∃ a, t.Knows a ∧ a.edition = i.edition) :
    t.Accounted where
  named := by
    rw [hscripts]
    exact hs.named
  unique := fun a b ha hb => hs.unique a b (hk a ha) (hk b hb)
  fresh := fun a ha => hserial ▸ hs.fresh a (hk a ha)
  runs := hr

theorem Accounted.steady {s t : Session} (hs : s.Accounted) (h : Steady s t) : t.Accounted := by
  refine hs.of_knows h.scripts h.nextSerial (fun a => (h.knows a).1) ?_
  intro i hi
  obtain ⟨j, hj, hji⟩ := edition_of_badges h.badges hi
  obtain ⟨a, ha, haj⟩ := hs.runs j hj
  exact ⟨a, (h.knows a).2 ha, haj.trans (congrArg (fun b => b.2.1) hji)⟩

theorem Accounted.removed {s t : Session} (hs : s.Accounted) (h : Removed s t) : t.Accounted := by
  refine hs.of_knows h.scripts h.nextSerial (fun a => h.knows) ?_
  intro i hi
  obtain ⟨a, ha, hai⟩ := hs.runs i (h.instances.mem hi)
  exact ⟨a, h.knows_of_isRun ha (isRun_of_mem hi hai), hai⟩

theorem Accounted.spawned {s t : Session} (hs : s.Accounted) (h : Spawned s t) : t.Accounted := by
  refine hs.of_knows h.scripts h.nextSerial (fun a => (h.knows a).1) ?_
  obtain ⟨name, script, owner, hn, hl⟩ := h.instances
  intro i hi
  rw [hl] at hi
  rcases List.mem_append.1 hi with hi | hi
  · obtain ⟨a, ha, hai⟩ := hs.runs i hi
    exact ⟨a, (h.knows a).2 ha, hai⟩
  · rw [List.mem_singleton.1 hi]
    exact ⟨script, (h.knows script).2 (.inl ⟨name, hn⟩), rfl⟩

theorem Accounted.loaded {s t : Session} {name : String} {script : LoadedScript}
    (hs : s.Accounted) (h : Loaded s t name script) : t.Accounted where
  named := by
    intro other a ha
    rcases h.look ha with ⟨rfl, rfl⟩ | ha
    · exact decode_name h.decoded
    · exact hs.named other a ha
  unique := by
    intro a b ha hb hab
    rcases h.knows ha with haS | haK
    · rcases h.knows hb with hbS | hbK
      · rw [haS, hbS]
      · have := hs.fresh b hbK
        have := h.serial
        rw [← haS] at this
        omega
    · rcases h.knows hb with hbS | hbK
      · have := hs.fresh a haK
        have := h.serial
        rw [← hbS] at this
        omega
      · exact hs.unique a b haK hbK hab
  fresh := by
    intro a ha
    rw [h.nextSerial]
    rcases h.knows ha with rfl | ha
    · rw [h.serial]
      omega
    · have := hs.fresh a ha
      omega
  runs := by
    intro i hi
    have hi' : i ∈ s.scheduler.instances := h.scheduler ▸ hi
    obtain ⟨a, ha, hai⟩ := hs.runs i hi'
    exact ⟨a, h.kept a ha (isRun_of_mem hi hai), hai⟩

/-! ## Restores -/

theorem Restored.knows {s t : Session} {saved : SessionSnapshot} {r : Restoring}
    (h : Restored s saved r t) (a : LoadedScript) : t.Knows a ↔ r.Has a := by
  unfold Knows Restoring.Has
  rw [h.scripts, h.retired]

/-- Each instance after a restore is a saved one with the edition found for it. -/
theorem Restored.mem {s t : Session} {saved : SessionSnapshot} {r : Restoring}
    (h : Restored s saved r t) {i : Instance} (hi : i ∈ t.scheduler.instances) :
    ∃ x ∈ saved.scheduler.instances, ∃ e, r.edition? x = some e ∧ i = .ofSnapshot e x := by
  have hm : some i ∈ t.scheduler.instances.map some := List.mem_map_of_mem hi
  rw [h.instances] at hm
  obtain ⟨x, hx, he⟩ := List.mem_map.1 hm
  obtain ⟨e, he, hei⟩ := Option.map_eq_some_iff.1 he
  exact ⟨x, hx, e, he, hei.symm⟩

/-- What is read off the instances after a restore can be read off the saved ones. -/
theorem Restored.map_instances {β : Type} {s t : Session} {saved : SessionSnapshot}
    {r : Restoring} (h : Restored s saved r t) (F : Instance → β) (G : InstanceSnapshot → β)
    (hFG : ∀ x e, r.edition? x = some e → F (.ofSnapshot e x) = G x) :
    t.scheduler.instances.map F = saved.scheduler.instances.map G :=
  Scheduler.map_of_editions h.instances F G hFG

theorem Restoring.Sound.edition {decoder : DecoderConfig} {r : Restoring} (hr : r.Sound decoder)
    {x : InstanceSnapshot} {e : Edition} (h : r.edition? x = some e) :
    ∃ a, r.Has a ∧ a.edition = e := by
  unfold Restoring.edition? at h
  obtain ⟨a, ha, hae⟩ := Option.map_eq_some_iff.1 h
  refine ⟨a, ?_, hae⟩
  cases hd : r.detached[x.id]? with
  | some b =>
    rw [hd, Option.some_or] at ha
    rw [← Option.some.inj ha]
    exact .inr (hr.detached x.id b hd)
  | none =>
    rw [hd, Option.none_or] at ha
    exact .inl ⟨x.script, ha⟩

theorem Accounted.restored {s t : Session} {saved : SessionSnapshot} {r : Restoring}
    (hr : r.Sound s.decoder) (h : Restored s saved r t) : t.Accounted where
  named := by
    rw [h.scripts]
    exact hr.named
  unique := fun a b ha hb => hr.unique a b ((h.knows a).1 ha) ((h.knows b).1 hb)
  fresh := fun a ha => h.nextSerial ▸ hr.fresh a ((h.knows a).1 ha)
  runs := by
    intro i hi
    obtain ⟨x, -, e, he, rfl⟩ := h.mem hi
    obtain ⟨a, ha, hae⟩ := hr.edition he
    exact ⟨a, (h.knows a).2 ha, hae⟩

/-! ## All histories -/

theorem accounted_of_transition {s t : Session} (hs : s.Accounted) (h : Transition s t) :
    t.Accounted := by
  cases h with
  | steady h => exact hs.steady h
  | removed h => exact hs.removed h
  | spawned h => exact hs.spawned h
  | loaded name script h => exact hs.loaded h

/-- **One operation** keeps a session accounted, also if it restores a snapshot of any origin. -/
theorem accounted_perform {s : Session} (hs : s.Accounted) (op : Operation) :
    (s.perform op).2.Accounted := by
  by_cases hop : ∃ saved, op = .restore saved
  · obtain ⟨saved, rfl⟩ := hop
    rcases s.perform_restore saved with h | ⟨r, -, hsound, hres⟩
    · rw [h]
      exact hs
    · exact .restored hsound hres
  · exact accounted_of_transition hs (perform_transition s op fun saved h => hop ⟨saved, h⟩)

theorem not_knows {s : Session} (hs : s.scripts = ∅) (hr : s.retired = []) (a : LoadedScript) :
    ¬ s.Knows a := by
  rintro (⟨name, h⟩ | h)
  · simp [hs] at h
  · simp [hr] at h

/-! ## Numbers in order -/

theorem ordered_start (field : Field) : (ofField field).Ordered := by
  refine ⟨List.Pairwise.nil, ?_⟩
  intro i hi
  cases hi

/-- Numbers stay in order if instances go, or if one with the next number comes. -/
theorem Ordered.transition {s t : Session} (hs : s.Ordered) (h : Transition s t) :
    t.Ordered := by
  cases h with
  | steady h =>
    have hids : t.scheduler.instances.map Instance.id = s.scheduler.instances.map Instance.id := by
      have hm := congrArg (List.map Prod.fst) h.badges
      rw [List.map_map, List.map_map] at hm
      exact hm
    refine ⟨hids ▸ hs.ordered, ?_⟩
    intro i hi
    obtain ⟨j, hj, hji⟩ := edition_of_badges h.badges hi
    rw [h.nextId, ← show j.id = i.id from congrArg Prod.fst hji]
    exact hs.below j hj
  | removed h =>
    refine ⟨hs.ordered.sublist (h.instances.map _), ?_⟩
    intro i hi
    rcases h.nextId with hn | hn
    · rw [hn]
      exact hs.below i (h.instances.mem hi)
    · rw [hn] at hi
      cases hi
  | spawned h =>
    obtain ⟨name, script, owner, -, hl⟩ := h.instances
    constructor
    · rw [hl, List.map_append, List.pairwise_append]
      refine ⟨hs.ordered, List.pairwise_singleton _ _, ?_⟩
      intro a ha b hb
      obtain ⟨i, hi, rfl⟩ := List.mem_map.1 ha
      rw [List.map_singleton, List.mem_singleton] at hb
      rw [hb]
      exact hs.below i hi
    · rw [hl, h.nextId]
      intro i hi
      rcases List.mem_append.1 hi with hi | hi
      · exact Nat.lt_succ_of_lt (hs.below i hi)
      · rw [List.mem_singleton.1 hi]
        exact Nat.lt_succ_self _
  | loaded name script h =>
    constructor
    · rw [h.scheduler]
      exact hs.ordered
    · rw [h.scheduler]
      exact hs.below

/-- A snapshot has the numbers of its session, so restoring it keeps them in order. -/
theorem Ordered.restored {s t saved : Session} {r : Restoring} (hsaved : saved.Ordered)
    (h : Restored s saved.snapshot r t) : t.Ordered where
  ordered := by
    rw [h.map_instances Instance.id InstanceSnapshot.id fun _ _ _ => rfl]
    simp only [snapshot, Scheduler.snapshot, List.map_map]
    exact hsaved.ordered
  below := by
    intro i hi
    obtain ⟨x, hx, e, -, rfl⟩ := h.mem hi
    obtain ⟨j, hj, rfl⟩ := List.mem_map.1 hx
    rw [h.nextId]
    exact hsaved.below j hj

/-- **Every history.** In whatever a host can bring about, numbers are in order. -/
theorem Attained.ordered {may : Session → Prop} {s : Session} (h : s.Attained may) :
    s.Ordered := by
  induction h with
  | start field => exact ordered_start field
  | lend field tracer _ ih => exact ⟨ih.ordered, ih.below⟩
  | decoder config _ _ ih => exact ⟨ih.ordered, ih.below⟩
  | step op _ hop ih => exact ih.transition (perform_transition _ op hop)
  | restore _ _ ih ihsaved =>
    rename_i s saved _ _
    rcases s.perform_restore saved.snapshot with h | ⟨r, -, -, hres⟩
    · rw [h]
      exact ih
    · exact ihsaved.restored hres

/-- With numbers in order, an instance is found by its number. -/
theorem Ordered.get?_eq {s : Session} (hs : s.Ordered) {i : Instance}
    (hi : i ∈ s.scheduler.instances) : s.scheduler.get? i.id = some i :=
  Scheduler.get?_of_mem hs.ordered hi

/-! ## Bytes that give their programs back -/

theorem reproducible_start (field : Field) : (ofField field).Reproducible := by
  have none := @not_knows (ofField field) rfl rfl
  refine ⟨⟨?_, fun a _ h => absurd h (none a), fun a h => absurd h (none a), ?_⟩,
    ordered_start field, fun a h => absurd h (none a)⟩
  · intro name a h
    exact absurd (.inl ⟨name, h⟩) (none a)
  · intro i hi
    cases hi

theorem Transition.decoder {s t : Session} (h : Transition s t) : t.decoder = s.decoder := by
  cases h with
  | steady h => exact h.decoder
  | removed h => exact h.decoder
  | spawned h => exact h.decoder
  | loaded name script h => exact h.decoder

/-- A script that is known after an operation was known before it or has just been decoded. -/
theorem Transition.knows {s t : Session} (h : Transition s t) {a : LoadedScript}
    (ha : t.Knows a) :
    s.Knows a ∨ decode s.decoder a.edition.program.name a.source = .ok a.edition.program := by
  cases h with
  | steady h => exact .inl ((h.knows a).1 ha)
  | removed h => exact .inl (h.knows ha)
  | spawned h => exact .inl ((h.knows a).1 ha)
  | loaded name script h =>
    rcases h.knows ha with rfl | ha
    · rw [decode_name h.decoded]
      exact .inr h.decoded
    · exact .inl ha

theorem Reproducible.transition {s t : Session} (hs : s.Reproducible) (h : Transition s t) :
    t.Reproducible where
  toAccounted := accounted_of_transition hs.toAccounted h
  toOrdered := hs.toOrdered.transition h
  decoded a ha := by
    rw [h.decoder]
    rcases h.knows ha with ha | hdecoded
    · exact hs.decoded a ha
    · exact hdecoded

theorem Reproducible.restored {s t saved : Session} {r : Restoring} (hsaved : saved.Reproducible)
    (hr : r.Sound s.decoder) (h : Restored s saved.snapshot r t) : t.Reproducible where
  toAccounted := .restored hr h
  toOrdered := hsaved.toOrdered.restored h
  decoded := fun a ha => h.decoder ▸ hr.decoded a ((h.knows a).1 ha)

/-- **Every history with one set of decoder settings** leads to a reproducible session. -/
theorem Attained.reproducible {s : Session} (h : s.Attained Blank) : s.Reproducible := by
  induction h with
  | start field => exact reproducible_start field
  | lend field tracer _ ih =>
    exact ⟨⟨ih.named, ih.unique, ih.fresh, ih.runs⟩, ⟨ih.ordered, ih.below⟩, ih.decoded⟩
  | decoder config _ hblank ih =>
    exact ⟨⟨ih.named, ih.unique, ih.fresh, ih.runs⟩, ⟨ih.ordered, ih.below⟩,
      fun a ha => absurd ha (not_knows hblank.1 hblank.2 a)⟩
  | step op _ hop ih => exact ih.transition (perform_transition _ op hop)
  | restore _ _ ih ihsaved =>
    rename_i s saved _ _
    rcases s.perform_restore saved.snapshot with h | ⟨r, -, hsound, hres⟩
    · rw [h]
      exact ih
    · exact .restored ihsaved hsound hres

theorem Uniform.reproducible {s : Session} (h : s.Uniform) : s.Reproducible :=
  h.attained.reproducible

end FieldEngine.Session
