import FieldEngine.Proofs.Session.Provenance

/-!
# Which editions a session keeps

A session keeps the edition that is registered under each name, and of those that were replaced just
the ones that some instance runs: none is dropped too early, none is kept too long. Besides
`Session.Accounted`, which says that whatever is run is known, `Session.Grounded` says that whatever
was replaced and kept is run, and that known bytes decode to their programs in some settings. Every
operation keeps this, and so does the restore of a snapshot, since each script that it decodes for a
detached instance goes to that instance (`restoring_used`):

    s.Attained may → s.Grounded                                            (Attained.grounded)
    s.Attained Blank → s.Traceable                                       (programs_traceable)
-/

namespace FieldEngine.Session

/-! ## Scripts decoded for detached instances -/

namespace Restoring

/-- Each replaced script decoded so far is that of a saved instance. -/
def Used (instances : List InstanceSnapshot) (r : Restoring) : Prop :=
  ∀ a ∈ r.retired, ∃ x ∈ instances, r.detached[x.id]? = some a

/-- A number that is given a script for the first time takes none away from another. -/
theorem Used.insert {instances : List InstanceSnapshot} {r : Restoring} (hr : r.Used instances)
    {id : Nat} (hid : r.detached[id]? = none) (script a : LoadedScript) (ha : a ∈ r.retired) :
    ∃ x ∈ instances, (r.detached.insert id script)[x.id]? = some a := by
  obtain ⟨x, hx, hget⟩ := hr a ha
  refine ⟨x, hx, ?_⟩
  rw [OrderedMap.getElem?_insert, if_neg]
  · exact hget
  · rintro rfl
    rw [hid] at hget
    cases hget

theorem used_addDetached {decoder : DecoderConfig} {instances : List InstanceSnapshot}
    {r t : Restoring} {saved : Nat × List UInt8} (hr : r.Used instances)
    (hid : r.detached[saved.1]? = none) (h : addDetached decoder instances r saved = .ok t) :
    t.Used instances ∧ ∀ id, id ≠ saved.1 → t.detached[id]? = r.detached[id]? := by
  have hother : ∀ a id, id ≠ saved.1 → (r.detached.insert saved.1 a)[id]? = r.detached[id]? := by
    intro a id hne
    rw [OrderedMap.getElem?_insert, if_neg hne.symm]
  rcases addDetached_ok h with ⟨rfl, -⟩ | ⟨x, hx, ⟨a, -, -, -, rfl⟩ | ⟨a, -, rfl⟩⟩
  · exact ⟨hr, fun _ _ => rfl⟩
  · exact ⟨hr.insert hid a, hother a⟩
  · refine ⟨?_, hother a⟩
    intro b hb
    rcases List.mem_append.1 hb with hb | hb
    · exact hr.insert hid a b hb
    · -- the new script is that of the saved instance for which it was decoded
      refine ⟨x, List.mem_of_find?_eq_some hx, ?_⟩
      have hxid : x.id = saved.1 := by simpa using List.find?_some hx
      rw [List.mem_singleton.1 hb, hxid, OrderedMap.getElem?_insert, if_pos rfl]

/-- With each number given once, all scripts decoded for detached instances stay in use. -/
theorem used_foldlM {decoder : DecoderConfig} {instances : List InstanceSnapshot}
    (l : List (Nat × List UInt8)) {r t : Restoring} (hl : (l.map Prod.fst).Nodup)
    (hr : r.Used instances) (hnone : ∀ e ∈ l, r.detached[e.1]? = none)
    (h : l.foldlM (addDetached decoder instances) r = .ok t) : t.Used instances := by
  induction l generalizing r with
  | nil =>
    cases h
    exact hr
  | cons e l ih =>
    rw [List.foldlM_cons] at h
    cases he : addDetached decoder instances r e with
    | error error => rw [he] at h; cases h
    | ok r1 =>
      rw [he] at h
      obtain ⟨hr1, hother⟩ := used_addDetached hr (hnone e List.mem_cons_self) he
      rw [List.map_cons, List.nodup_cons] at hl
      refine ih hl.2 hr1 ?_ h
      intro e' he'
      rw [hother]
      · exact hnone e' (List.mem_cons_of_mem e he')
      · rintro heq
        exact hl.1 (heq ▸ List.mem_map_of_mem he')

end Restoring

theorem restoring_used {s : Session} {saved : SessionSnapshot} {r : Restoring}
    (hsaved : (saved.detached.map Prod.fst).Nodup) (h : s.restoring saved = .ok r) :
    r.Used saved.scheduler.instances := by
  obtain ⟨r₁, hscripts, hdetached⟩ := restoring_ok h
  have hempty : r₁.retired = [] ∧ r₁.detached = ∅ := by
    refine foldlM_ok (P := fun r => r.retired = [] ∧ r.detached = ∅) ?_ saved.scripts
      ⟨rfl, rfl⟩ hscripts
    intro b e c hb hc
    obtain ⟨a, -, rfl⟩ := Restoring.addScript_ok hc
    exact hb
  refine Restoring.used_foldlM saved.detached hsaved ?_ ?_ hdetached
  · intro a ha
    rw [hempty.1] at ha
    cases ha
  · intro e _
    rw [hempty.2]
    simp

/-! ## Snapshots -/

theorem filterMap_fst_sublist {α β : Type} {f : α → Option (Nat × β)} {key : α → Nat}
    (hf : ∀ a e, f a = some e → e.1 = key a) (l : List α) :
    ((l.filterMap f).map Prod.fst).Sublist (l.map key) := by
  induction l with
  | nil => exact .slnil
  | cons a l ih =>
    rw [List.filterMap_cons, List.map_cons]
    cases ha : f a with
    | none => exact ih.cons _
    | some e =>
      rw [List.map_cons, hf a e ha]
      exact ih.cons_cons _

/-- A snapshot lists each detached instance once. -/
theorem Ordered.nodup_detached {s : Session} (hs : s.Ordered) :
    (s.snapshot.detached.map Prod.fst).Nodup := by
  have hsub : (s.snapshot.detached.map Prod.fst).Sublist
      (s.scheduler.instances.map Instance.id) := by
    apply filterMap_fst_sublist
    intro i e he
    split at he
    · cases he
    · obtain ⟨source, -, rfl⟩ := Option.map_eq_some_iff.1 he
      rfl
  exact (hs.ordered.sublist hsub).imp fun hlt => Nat.ne_of_lt hlt

/-- Each saved instance is restored with the edition found for it. -/
theorem Restored.mem_of_saved {s t : Session} {saved : SessionSnapshot} {r : Restoring}
    (h : Restored s saved r t) {x : InstanceSnapshot} (hx : x ∈ saved.scheduler.instances) :
    ∃ i ∈ t.scheduler.instances, ∃ e, r.edition? x = some e ∧ i = .ofSnapshot e x := by
  have hm : (r.edition? x).map (Instance.ofSnapshot · x) ∈ t.scheduler.instances.map some := by
    rw [h.instances]
    exact List.mem_map_of_mem hx
  obtain ⟨i, hi, hxi⟩ := List.mem_map.1 hm
  obtain ⟨e, he, hei⟩ := Option.map_eq_some_iff.1 hxi.symm
  exact ⟨i, hi, e, he, hei.symm⟩

/-! ## Replaced scripts are run -/

/-- Besides, replaced scripts that are kept are run, and known bytes decode to their programs in
some settings. -/
structure Grounded (s : Session) : Prop extends Accounted s, Ordered s where
  run : ∀ a ∈ s.retired, s.isRun a = true
  decodes : ∀ a, s.Knows a →
    ∃ config, decode config a.edition.program.name a.source = .ok a.edition.program

theorem isRun_iff {s : Session} {a : LoadedScript} :
    s.isRun a = true ↔ ∃ b ∈ s.scheduler.instances.map Instance.badge,
      b.2.1.serial = a.edition.serial := by
  unfold isRun
  rw [List.any_eq_true]
  constructor
  · rintro ⟨i, hi, hserial⟩
    exact ⟨i.badge, List.mem_map_of_mem hi, beq_iff_eq.1 hserial⟩
  · rintro ⟨b, hb, hserial⟩
    obtain ⟨i, hi, rfl⟩ := List.mem_map.1 hb
    exact ⟨i, hi, beq_iff_eq.2 hserial⟩

/-- Replaced scripts that are kept are run after every operation if they were before it. -/
theorem run_of_transition {s t : Session} (hs : ∀ a ∈ s.retired, s.isRun a = true)
    (h : Transition s t) : ∀ a ∈ t.retired, t.isRun a = true := by
  intro a ha
  cases h with
  | steady h =>
    rw [h.retired] at ha
    rw [isRun_iff, h.badges, ← isRun_iff]
    exact hs a ha
  | removed h =>
    rw [h.retired] at ha
    exact (List.mem_filter.1 ha).2
  | spawned h =>
    obtain ⟨name, script, owner, -, hl⟩ := h.instances
    rw [h.retired] at ha
    obtain ⟨b, hb, hserial⟩ := isRun_iff.1 (hs a ha)
    refine isRun_iff.2 ⟨b, ?_, hserial⟩
    rw [hl, List.map_append]
    exact List.mem_append_left _ hb
  | loaded name script h =>
    rcases h.run a ha with ha | hrun
    · rw [isRun_iff, h.scheduler, ← isRun_iff]
      exact hs a ha
    · exact hrun

/-- The instance that runs a replaced script has its very edition. -/
theorem Grounded.run_edition {s : Session} (hs : s.Grounded) {a : LoadedScript}
    (ha : a ∈ s.retired) : ∃ i ∈ s.scheduler.instances, i.edition = a.edition := by
  obtain ⟨b, hb, hserial⟩ := isRun_iff.1 (hs.run a ha)
  obtain ⟨i, hi, rfl⟩ := List.mem_map.1 hb
  obtain ⟨c, hc, hci⟩ := hs.runs i hi
  have hca : c = a := hs.unique c a hc (.inr ha) (by rw [hci]; exact hserial)
  exact ⟨i, hi, by rw [← hca, hci]⟩

theorem Grounded.transition {s t : Session} (hs : s.Grounded) (h : Transition s t) :
    t.Grounded where
  toAccounted := accounted_of_transition hs.toAccounted h
  toOrdered := hs.toOrdered.transition h
  run := run_of_transition hs.run h
  decodes a ha := by
    rcases h.knows ha with ha | hdecoded
    · exact hs.decodes a ha
    · exact ⟨s.decoder, hdecoded⟩

theorem Grounded.restored {s t saved : Session} {r : Restoring} (hsaved : saved.Ordered)
    (hr : s.restoring saved.snapshot = .ok r) (h : Restored s saved.snapshot r t) : t.Grounded where
  toAccounted := .restored (restoring_sound hr) h
  toOrdered := hsaved.restored h
  run a ha := by
    rw [h.retired] at ha
    obtain ⟨x, hx, hget⟩ := restoring_used hsaved.nodup_detached hr a ha
    obtain ⟨i, hi, e, he, rfl⟩ := h.mem_of_saved hx
    refine isRun_of_mem hi ?_
    unfold Restoring.edition? at he
    rw [hget, Option.some_or, Option.map_some] at he
    exact Option.some.inj he
  decodes a ha := ⟨s.decoder, (restoring_sound hr).decoded a ((h.knows a).1 ha)⟩

/-- **Every history** leads to a grounded session. -/
theorem Attained.grounded {may : Session → Prop} {s : Session} (h : s.Attained may) :
    s.Grounded := by
  induction h with
  | start field =>
    have hs := reproducible_start field
    exact ⟨hs.toAccounted, hs.toOrdered, by simp [ofField], fun a ha => ⟨_, hs.decoded a ha⟩⟩
  | lend field tracer _ ih =>
    exact ⟨⟨ih.named, ih.unique, ih.fresh, ih.runs⟩, ⟨ih.ordered, ih.below⟩, ih.run, ih.decodes⟩
  | decoder config _ _ ih =>
    exact ⟨⟨ih.named, ih.unique, ih.fresh, ih.runs⟩, ⟨ih.ordered, ih.below⟩, ih.run, ih.decodes⟩
  | step op _ hop ih => exact ih.transition (perform_transition _ op hop)
  | restore _ _ ih ihsaved =>
    rename_i s saved _ _
    rcases s.perform_restore saved.snapshot with h | ⟨r, hrestoring, -, hres⟩
    · rw [h]
      exact ih
    · exact .restored ihsaved.toOrdered hrestoring hres

/-! ## Provenance -/

/-- Where the programs of a session come from. -/
structure Traceable (s : Session) : Prop where
  /-- Each instance runs the registered edition of its script or a replaced one. -/
  runs : ∀ i ∈ s.scheduler.instances,
    (∃ a, s.scripts[i.program.name]? = some a ∧ a.edition = i.edition) ∨
      ∃ a ∈ s.retired, a.edition = i.edition
  /-- So its bytes are found, and they decode to its program. -/
  source : ∀ i ∈ s.scheduler.instances, ∃ source, s.sourceOf? i = some source ∧
    decode s.decoder i.program.name source = .ok i.program
  /-- A snapshot lists, with their bytes, just those that do not run the registered edition. -/
  detached : s.snapshot.detached.map (fun e => (e.1, some e.2)) =
    (s.scheduler.instances.filter fun i =>
      s.scripts[i.program.name]?.map LoadedScript.edition ≠ some i.edition).map
        fun i => (i.id, s.sourceOf? i)
  /-- The bytes of every script decode to its program. -/
  decoded : ∀ a, s.Knows a →
    decode s.decoder a.edition.program.name a.source = .ok a.edition.program
  /-- Every replaced script that is kept is run. -/
  run : ∀ a ∈ s.retired, ∃ i ∈ s.scheduler.instances, i.edition = a.edition

/-- The registered edition is told from others by its serial number. -/
theorem Accounted.runsRegistered_eq {s : Session} (hs : s.Accounted) {i : Instance}
    (hi : i ∈ s.scheduler.instances) : s.runsRegistered i =
      decide (s.scripts[i.program.name]?.map LoadedScript.edition = some i.edition) := by
  obtain ⟨a, ha, hai⟩ := hs.runs i hi
  rw [Bool.eq_iff_iff, runsRegistered_iff, decide_eq_true_eq, Option.map_eq_some_iff]
  constructor
  · rintro ⟨b, hb, hserial⟩
    have hba : b = a :=
      hs.unique b a (.inl ⟨_, hb⟩) ha (hserial.trans (congrArg Edition.serial hai).symm)
    exact ⟨b, hb, hba ▸ hai⟩
  · rintro ⟨b, hb, hbi⟩
    exact ⟨b, hb, congrArg Edition.serial hbi⟩

theorem detached_eq {s : Session} (hs : s.Accounted) {l : List Instance}
    (hl : ∀ i ∈ l, i ∈ s.scheduler.instances) :
    (l.filterMap fun i => if s.runsRegistered i then none else
        (s.sourceOf? i).map fun source => (i.id, source)).map (fun e => (e.1, some e.2)) =
      (l.filter fun i => s.scripts[i.program.name]?.map LoadedScript.edition ≠
        some i.edition).map fun i => (i.id, s.sourceOf? i) := by
  induction l with
  | nil => rfl
  | cons i l ih =>
    have hi := hl i List.mem_cons_self
    have hrest := ih fun j hj => hl j (List.mem_cons_of_mem i hj)
    rw [List.filterMap_cons, List.filter_cons, hs.runsRegistered_eq hi]
    by_cases hreg : s.scripts[i.program.name]?.map LoadedScript.edition = some i.edition
    · have hnot : ¬ decide (s.scripts[i.program.name]?.map LoadedScript.edition ≠
          some i.edition) = true := fun hne => of_decide_eq_true hne hreg
      rw [decide_eq_true hreg, if_neg hnot]
      exact hrest
    · obtain ⟨a, ha, hai⟩ := hs.runs i hi
      have hsource := hs.sourceOf?_eq ha (congrArg Edition.serial hai)
      rw [decide_eq_false hreg, if_pos (decide_eq_true hreg), List.map_cons, hsource, ← hrest]
      rfl

/-- **Programs can be traced** in every session that a host can bring about with one set of decoder
settings. -/
theorem programs_traceable {s : Session} (h : s.Attained Blank) : s.Traceable := by
  have hs := h.reproducible
  refine ⟨?_, ?_, ?_, hs.decoded, ?_⟩
  · intro i hi
    obtain ⟨a, ⟨name, ha⟩ | ha, hai⟩ := hs.runs i hi
    · refine .inl ⟨a, ?_, hai⟩
      have hname : i.program.name = name := by
        rw [← hs.named name a ha, hai]
        rfl
      rw [hname]
      exact ha
    · exact .inr ⟨a, ha, hai⟩
  · intro i hi
    obtain ⟨a, ha, hai⟩ := hs.runs i hi
    refine ⟨a.source, hs.sourceOf?_eq ha (congrArg Edition.serial hai), ?_⟩
    have hdecoded := hs.decoded a ha
    rwa [hai] at hdecoded
  · exact detached_eq hs.toAccounted fun _ hi => hi
  · intro a ha
    exact h.grounded.run_edition ha

/-- A case in which a script was replaced twice, one of the instances that ran the first edition was
cancelled, and the session was saved and restored in another one. -/
theorem programs_traceable_replaced :
    let s := (ofSeed 7).after [.edit (.place "npc"),
      .load "door" [0x03, 0x00, 0x07, 0x00, 0x00, 0x00, 0x23, 0x00], .spawn "door" ⟨0, 1⟩,
      .spawn "door" ⟨0, 1⟩, .tick, .load "door" [0x00, 0x00], .load "door" [], .cancel 1]
    let u := ((ofSeed 0).perform (.restore s.snapshot)).2
    u.snapshot.detached = [(2, [0x03, 0x00, 0x07, 0x00, 0x00, 0x00, 0x23, 0x00])] ∧
      u.retired.map (·.source) = [[0x03, 0x00, 0x07, 0x00, 0x00, 0x00, 0x23, 0x00]] ∧
      u.Traceable := by
  intro s u
  have hs : s.Attained Blank := Attained.after (.start _) _ (by simp)
  have hu : u.Attained Blank := .restore (.start _) hs
  exact ⟨by decide, by decide, programs_traceable hu⟩

end FieldEngine.Session
