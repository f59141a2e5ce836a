import FieldEngine.Proofs.Session.InStep
import FieldEngine.Proofs.Session.Provenance

/-!
# What a session comes to

The content of a session is all that its later replies depend on: everything but the trace and the
serial numbers of editions. In place of serial numbers it has the bytes of every instance that does
not run the registered edition of its script. Sessions of equal content are in step, so what is left
to compare are scripts and those bytes. Two accounted sessions of equal content answer every
operation alike, and their contents stay equal:

    s.content = t.content → (s.perform op).1 = (t.perform op).1 ∧
      (s.perform op).2.content = (t.perform op).2.content                 (perform_content)

This module has all operations but the restore.
-/

namespace FieldEngine

/-- Two look-ups that agree up to `f` and `g` both find nothing, or both find something. -/
theorem cases_of_map_eq {α β γ : Type} {f : α → γ} {g : β → γ} {x : Option α} {y : Option β}
    (h : x.map f = y.map g) :
    (x = none ∧ y = none) ∨ ∃ a b, x = some a ∧ y = some b ∧ f a = g b := by
  cases x with
  | none =>
    cases y with
    | none => exact .inl ⟨rfl, rfl⟩
    | some b => cases h
  | some a =>
    cases y with
    | none => cases h
    | some b => exact .inr ⟨a, b, rfl, rfl, Option.some.inj h⟩

namespace Session

/-! ## Content -/

/-- An instance without its serial number, with its bytes if it does not run the registered edition
of its script. -/
def tag (s : Session) (i : Instance) : Instance × Option (List UInt8) :=
  (i.plain, s.origin? i)

/-- All that the later replies of a session depend on. -/
structure Content where
  field : Field
  decoder : DecoderConfig
  config : SchedulerConfig
  tick : UInt64
  nextId : Nat
  instances : List (Instance × Option (List UInt8))
  scripts : Std.ExtTreeMap String LoadedScript
  timers : Std.ExtTreeMap Nat UInt64
deriving DecidableEq

def content (s : Session) : Content where
  field := s.field
  decoder := s.decoder
  config := s.scheduler.config
  tick := s.scheduler.tick
  nextId := s.scheduler.nextId
  instances := s.scheduler.instances.map s.tag
  scripts := s.scripts.map fun _ script => script.plain
  timers := s.timers

/-- The scheduler of a content, without serial numbers. -/
def Content.scheduler (c : Content) : Scheduler :=
  ⟨c.config, c.instances.map Prod.fst, c.nextId, c.tick⟩

theorem content_scheduler (s : Session) : s.content.scheduler = s.scheduler.plain := by
  simp only [Content.scheduler, content, List.map_map, Scheduler.plain]
  rfl

def Content.snapshot (c : Content) : SessionSnapshot where
  field := c.field
  scheduler := c.scheduler.snapshot
  scripts := c.scripts.toList.map fun (name, script) => (name, script.source)
  detached := c.instances.filterMap fun (i, origin) => origin.map fun source => (i.id, source)
  timers := c.timers.toList

/-- A snapshot depends on the content only. -/
theorem snapshot_eq (s : Session) : s.snapshot = s.content.snapshot := by
  unfold snapshot Content.snapshot
  rw [content_scheduler, Scheduler.snapshot_plain]
  simp only [content, Std.ExtTreeMap.toList_map, List.map_map, List.filterMap_map,
    SessionSnapshot.mk.injEq, true_and, and_true]
  refine ⟨rfl, ?_⟩
  congr 1
  funext i
  simp only [Function.comp_apply, tag, origin?]
  split <;> rfl

/-- Sessions of equal content are in step. -/
theorem inStep_of_content {s t : Session} (h : s.content = t.content) : s.InStep t where
  field := congrArg Content.field h
  scheduler := by rw [← content_scheduler, ← content_scheduler, h]
  timers := congrArg Content.timers h

theorem observe_congr {s t : Session} (h : s.content = t.content) : s.observe = t.observe := by
  have hstep := inStep_of_content h
  have hnames : s.scripts.keys = t.scripts.keys := by
    have hk := congrArg (fun c => c.scripts.keys) h
    simpa only [content, Std.ExtTreeMap.keys_map] using hk
  unfold observe scriptNames
  rw [hstep.snapshot, hnames, hstep.field, hstep.timers]

/-- The registered scripts of sessions of equal content differ in their serial numbers only. -/
theorem scripts_congr {s t : Session} (h : s.content = t.content) (name : String) :
    s.scripts[name]?.map LoadedScript.plain = t.scripts[name]?.map LoadedScript.plain := by
  have hk := congrArg (fun c => c.scripts[name]?) h
  simpa only [content, Std.ExtTreeMap.getElem?_map] using hk

/-! ## Steady operations -/

theorem Steady.origins {s t : Session} (h : Steady s t) :
    t.scheduler.instances.map t.origin? = s.scheduler.instances.map s.origin? := by
  have horigin : t.origin? = s.origin? := by
    funext i
    unfold origin? runsRegistered sourceOf?
    rw [h.scripts, h.retired]
  -- the bytes can be read off a badge
  have hbadge : ∀ l : List Instance, l.map s.origin? =
      (l.map Instance.badge).map fun b => s.origin? (.start 0 b.2.1 b.2.2) := by
    intro l
    rw [List.map_map]
    apply List.map_congr_left
    intro i _
    exact origin?_congr s rfl
  rw [horigin, hbadge, hbadge, h.badges]

theorem tagged_eq (s : Session) : s.scheduler.instances.map s.tag =
    List.zip s.scheduler.plain.instances (s.scheduler.instances.map s.origin?) := by
  rw [Scheduler.plain, List.zip_map']
  rfl

theorem origins_congr {s t : Session} (h : s.content = t.content) :
    s.scheduler.instances.map s.origin? = t.scheduler.instances.map t.origin? := by
  have hk := congrArg (fun c => c.instances.map Prod.snd) h
  simp only [content, List.map_map] at hk
  exact hk

/-- Steady operations that keep the sessions in step keep their contents equal. -/
theorem Steady.content_congr {s s' t t' : Session} (h : s.content = t.content) (hs : Steady s s')
    (ht : Steady t t') (hstep : s'.InStep t') : s'.content = t'.content := by
  have hinst : s'.scheduler.instances.map s'.tag = t'.scheduler.instances.map t'.tag := by
    rw [tagged_eq, tagged_eq, hstep.scheduler, hs.origins, ht.origins, origins_congr h]
  have hscripts := congrArg Content.scripts h
  have hdecoder := congrArg Content.decoder h
  have hplain := hstep.scheduler
  unfold content at hscripts hdecoder ⊢
  simp only [Scheduler.plain, Scheduler.mk.injEq] at hplain
  simp only [Content.mk.injEq]
  refine ⟨hstep.field, ?_, hplain.1, hplain.2.2.2, hplain.2.2.1, hinst, ?_, hstep.timers⟩
  · rw [hs.decoder, ht.decoder]
    exact hdecoder
  · rw [hs.scripts, ht.scripts]
    exact hscripts

theorem tick_content {s t : Session} (h : s.content = t.content) :
    s.tick.1 = t.tick.1 ∧ s.tick.2.content = t.tick.2.content := by
  obtain ⟨hreport, hstep⟩ := (inStep_of_content h).tick
  exact ⟨hreport, Steady.content_congr h (.tick s) (.tick t) hstep⟩

theorem notify_content {s t : Session} (h : s.content = t.content) (event : HostEvent) :
    (s.notify event).1 = (t.notify event).1 ∧
      (s.notify event).2.content = (t.notify event).2.content := by
  obtain ⟨hreleased, hstep⟩ := (inStep_of_content h).notify event
  exact ⟨hreleased, Steady.content_congr h (.notify s event) (.notify t event) hstep⟩

theorem resume_content {s t : Session} (h : s.content = t.content) (id : Nat) :
    (s.perform (.resume id)).1 = (t.perform (.resume id)).1 ∧
      (s.perform (.resume id)).2.content = (t.perform (.resume id)).2.content := by
  obtain ⟨hreply, hstep⟩ := (inStep_of_content h).resume id
  have hsteady : ∀ u : Session, Steady u (u.perform (.resume id)).2 := by
    intro u
    rw [perform]
    rcases (u.resume_harmless id).cases with ⟨e, hu⟩ | ⟨_, v, hu⟩ <;> rw [hu]
    · exact .refl u
    · exact .resume hu
  exact ⟨hreply, Steady.content_congr h (hsteady s) (hsteady t) hstep⟩

/-! ## Removals -/

/-- An instance that stays keeps its bytes. -/
theorem Removed.origin?_eq {s t : Session} (hs : s.Accounted) (h : Removed s t) {i : Instance}
    (hi : i ∈ t.scheduler.instances) : t.origin? i = s.origin? i := by
  obtain ⟨a, ha, hai⟩ := (hs.removed h).runs i hi
  have hser := congrArg Edition.serial hai
  unfold origin?
  rw [(hs.removed h).sourceOf?_eq ha hser, hs.sourceOf?_eq (h.knows ha) hser]
  unfold runsRegistered
  rw [h.scripts]

theorem Removed.tagged {s t : Session} (hs : s.Accounted) (h : Removed s t) :
    t.scheduler.instances.map t.tag = t.scheduler.instances.map s.tag := by
  apply List.map_congr_left
  intro i hi
  rw [tag, tag, h.origin?_eq hs hi]

/-- After removals that keep the sessions in step only the tagged instances are left to compare. -/
theorem Removed.content_congr {s s' t t' : Session} (h : s.content = t.content)
    (hs : Removed s s') (ht : Removed t t') (hstep : s'.InStep t')
    (hinst : s'.scheduler.instances.map s'.tag = t'.scheduler.instances.map t'.tag) :
    s'.content = t'.content := by
  have hscripts := congrArg Content.scripts h
  have hdecoder := congrArg Content.decoder h
  have hplain := hstep.scheduler
  unfold content at hscripts hdecoder ⊢
  simp only [Scheduler.plain, Scheduler.mk.injEq] at hplain
  rw [hstep.field, hplain.1, hplain.2.2.2, hplain.2.2.1, hinst, hstep.timers, hs.scripts,
    ht.scripts, hs.decoder, ht.decoder]
  simp only [Content.mk.injEq, true_and, and_true]
  exact ⟨hdecoder, hscripts⟩

/-- A filter that does not look at serial numbers can be read off the content. -/
theorem filter_tagged (s : Session) (p : Instance → Bool) (hp : ∀ i, p i.plain = p i) :
    (s.scheduler.instances.filter p).map s.tag = s.content.instances.filter fun e => p e.1 := by
  simp only [content, List.filter_map]
  congr 1
  apply List.filter_congr
  intro i _
  exact (hp i).symm

/-- Keeping the instances that pass a test which does not look at serial numbers. -/
theorem Removed.filter_content {s s' t t' : Session} (hs : s.Accounted) (ht : t.Accounted)
    (h : s.content = t.content) (hrs : Removed s s') (hrt : Removed t t') (hstep : s'.InStep t')
    (p : Instance → Bool) (hp : ∀ i, p i.plain = p i)
    (hss : s'.scheduler.instances = s.scheduler.instances.filter p)
    (hst : t'.scheduler.instances = t.scheduler.instances.filter p) :
    s'.content = t'.content := by
  refine Removed.content_congr h hrs hrt hstep ?_
  rw [hrs.tagged hs, hrt.tagged ht, hss, hst, filter_tagged s p hp, filter_tagged t p hp, h]

theorem cancelOwnedBy_content {s t : Session} (hs : s.Accounted) (ht : t.Accounted)
    (h : s.content = t.content) (owner : EntityId) :
    (s.cancelOwnedBy owner).1 = (t.cancelOwnedBy owner).1 ∧
      (s.cancelOwnedBy owner).2.content = (t.cancelOwnedBy owner).2.content := by
  obtain ⟨hremoved, hstep⟩ := (inStep_of_content h).cancelOwnedBy owner
  have hkept : ∀ u : Session, (u.cancelOwnedBy owner).2.scheduler.instances =
      u.scheduler.instances.filter fun i => !(i.owner == owner) := by
    intro u
    unfold cancelOwnedBy
    rw [Scheduler.cancelOwnedBy_eq]
    rfl
  exact ⟨hremoved, (Removed.cancelOwnedBy s owner).filter_content hs ht h
    (Removed.cancelOwnedBy t owner) hstep _ (fun _ => rfl) (hkept s) (hkept t)⟩

theorem reap_content {s t : Session} (hs : s.Accounted) (ht : t.Accounted)
    (h : s.content = t.content) :
    s.reap.1.map Instance.plain = t.reap.1.map Instance.plain ∧
      s.reap.2.content = t.reap.2.content := by
  obtain ⟨hdone, hstep⟩ := (inStep_of_content h).reap
  have hkept : ∀ u : Session, u.reap.2.scheduler.instances =
      u.scheduler.instances.filter fun i => !i.status.isTerminal := by
    intro u
    unfold reap
    rw [Scheduler.reap_eq]
    rfl
  exact ⟨hdone, (Removed.reap s).filter_content hs ht h (Removed.reap t) hstep _ (fun _ => rfl)
    (hkept s) (hkept t)⟩

theorem eraseP_tagged (s : Session) (p : Instance → Bool) (hp : ∀ i, p i.plain = p i) :
    (s.scheduler.instances.eraseP p).map s.tag = s.content.instances.eraseP fun e => p e.1 := by
  simp only [content, List.eraseP_map]
  congr 2
  funext i
  exact (hp i).symm

theorem cancel_instances {s t : Session} {id : Nat} {i : Instance}
    (h : s.cancel id = (.ok i, t)) :
    t.scheduler.instances = s.scheduler.instances.eraseP fun j => j.id == id := by
  obtain ⟨scheduler, hc, rfl⟩ := cancel_ok h
  exact congrArg Scheduler.instances (Scheduler.cancel_ok hc).2

theorem cancel_content {s t : Session} (hs : s.Accounted) (ht : t.Accounted)
    (h : s.content = t.content) (id : Nat) :
    (s.perform (.cancel id)).1 = (t.perform (.cancel id)).1 ∧
      (s.perform (.cancel id)).2.content = (t.perform (.cancel id)).2.content := by
  obtain ⟨hreply, hstep⟩ := (inStep_of_content h).cancel id
  refine ⟨hreply, ?_⟩
  rw [perform, perform] at hreply hstep ⊢
  rcases (s.cancel_harmless id).cases with ⟨e, hcs⟩ | ⟨i, u, hcs⟩ <;>
    rcases (t.cancel_harmless id).cases with ⟨e', hct⟩ | ⟨j, v, hct⟩ <;>
    rw [hcs, hct] at hreply hstep ⊢
  · exact h
  · cases hreply
  · cases hreply
  · have hrs := Removed.cancel hcs
    have hrt := Removed.cancel hct
    refine Removed.content_congr h hrs hrt hstep ?_
    show u.scheduler.instances.map u.tag = v.scheduler.instances.map v.tag
    rw [hrs.tagged hs, hrt.tagged ht, cancel_instances hcs, cancel_instances hct,
      eraseP_tagged s _ fun _ => rfl, eraseP_tagged t _ fun _ => rfl, h]

/-- Without instances there is nothing to tag. -/
theorem Removed.nil_content {s s' t t' : Session} (h : s.content = t.content) (hrs : Removed s s')
    (hrt : Removed t t') (hstep : s'.InStep t') (hs : s'.scheduler.instances = [])
    (ht : t'.scheduler.instances = []) : s'.content = t'.content := by
  refine Removed.content_congr h hrs hrt hstep ?_
  rw [hs, ht]
  rfl

theorem cancelAll_content {s t : Session} (h : s.content = t.content) :
    s.cancelAll.1 = t.cancelAll.1 ∧ s.cancelAll.2.content = t.cancelAll.2.content := by
  obtain ⟨hcount, hstep⟩ := (inStep_of_content h).cancelAll
  exact ⟨hcount, Removed.nil_content h (.of_instances_nil rfl rfl rfl rfl rfl)
    (.of_instances_nil rfl rfl rfl rfl rfl) hstep rfl rfl⟩

/-! ## New instances and scripts -/

theorem Spawned.tagged {s t : Session} (hs : s.Accounted) (h : Spawned s t) {name : String}
    {script : LoadedScript} {owner : EntityId} (hn : s.scripts[name]? = some script)
    (hl : t.scheduler.instances =
      s.scheduler.instances ++ [.start s.scheduler.nextId script.edition owner]) :
    t.scheduler.instances.map t.tag = s.scheduler.instances.map s.tag ++
      [(.start s.scheduler.nextId script.edition.plain owner, none)] := by
  have htag : t.tag = s.tag := by
    funext i
    unfold tag origin? runsRegistered sourceOf?
    rw [h.scripts, h.retired]
  have hreg : s.runsRegistered (.start s.scheduler.nextId script.edition owner) = true := by
    refine (runsRegistered_iff s _).2 ⟨script, ?_, rfl⟩
    show s.scripts[script.edition.program.name]? = some script
    rw [hs.named name script hn]
    exact hn
  rw [hl, htag, List.map_append, List.map_singleton]
  unfold tag origin?
  rw [if_pos hreg]
  rfl

/-- The session after an instance is started. -/
def started (s : Session) (script : String) (edition : Edition) (owner : EntityId) : Session :=
  { s with scheduler := (s.scheduler.spawn edition owner).2 }.record
    (.spawned s.scheduler.nextId script owner)

theorem spawn_eq (s : Session) (script : String) (owner : EntityId) :
    s.spawn script owner = match s.scripts[script]?, s.field.entity owner with
      | none, _ => (.error (.of (.unknownScript script)), s)
      | some _, .error fault => (.error (.of (.fault fault)), s)
      | some a, .ok _ => (.ok s.scheduler.nextId, s.started script a.edition owner) := by
  unfold spawn
  cases s.scripts[script]? with
  | none => rfl
  | some a =>
    cases s.field.entity owner with
    | error fault => rfl
    | ok record => rfl

theorem spawn_content {s t : Session} (hs : s.Accounted) (ht : t.Accounted)
    (h : s.content = t.content) (script : String) (owner : EntityId) :
    (s.perform (.spawn script owner)).1 = (t.perform (.spawn script owner)).1 ∧
      (s.perform (.spawn script owner)).2.content =
        (t.perform (.spawn script owner)).2.content := by
  have hfield : s.field = t.field := congrArg Content.field h
  have hnext : s.scheduler.nextId = t.scheduler.nextId := congrArg Content.nextId h
  have hspS := spawn_eq s script owner
  have hspT := spawn_eq t script owner
  rw [hfield] at hspS
  rw [perform, perform]
  rcases cases_of_map_eq (scripts_congr h script) with ⟨hns, hnt⟩ | ⟨a, b, hns, hnt, hplain⟩
  · rw [hspS, hspT, hns, hnt]
    exact ⟨rfl, h⟩
  rw [hns] at hspS
  rw [hnt] at hspT
  cases he : t.field.entity owner with
  | error fault =>
    rw [hspS, hspT, he]
    exact ⟨rfl, h⟩
  | ok record =>
    rw [he] at hspS hspT
    have hab : a.edition.plain = b.edition.plain := congrArg LoadedScript.edition hplain
    have htagS := (Spawned.of_spawn hspS).tagged hs hns rfl
    have htagT := (Spawned.of_spawn hspT).tagged ht hnt rfl
    rw [hspS, hspT]
    refine ⟨congrArg Reply.number hnext, ?_⟩
    show (s.started script a.edition owner).content = (t.started script b.edition owner).content
    unfold content
    simp only [Content.mk.injEq]
    refine ⟨hfield, congrArg Content.decoder h, congrArg Content.config h,
      congrArg Content.tick h, congrArg (· + 1) hnext, ?_, congrArg Content.scripts h,
      congrArg Content.timers h⟩
    rw [htagS, htagT, hnext, hab,
      show s.scheduler.instances.map s.tag = t.scheduler.instances.map t.tag from
        congrArg Content.instances h]

/-- A load leaves the bytes of an instance to it, if the registered edition that it ran is
replaced. -/
def detach (name : String) (replaced : Option LoadedScript) (e : Instance × Option (List UInt8)) :
    Instance × Option (List UInt8) :=
  if e.2 = none ∧ e.1.program.name = name then (e.1, replaced.map LoadedScript.source) else e

theorem Loaded.tagged {s t : Session} {name : String} {script : LoadedScript} (hs : s.Accounted)
    (h : Loaded s t name script) :
    t.scheduler.instances.map t.tag =
      (s.scheduler.instances.map s.tag).map (detach name s.scripts[name]?) := by
  rw [h.scheduler, List.map_map]
  apply List.map_congr_left
  intro i hi
  have hi' : i ∈ t.scheduler.instances := h.scheduler ▸ hi
  obtain ⟨a, ha, hai⟩ := hs.runs i hi
  have hser := congrArg Edition.serial hai
  have hsrcS := hs.sourceOf?_eq ha hser
  have hsrcT := (hs.loaded h).sourceOf?_eq (h.kept a ha (isRun_of_mem hi' hai)) hser
  have hname : i.plain.program.name = i.program.name := rfl
  simp only [Function.comp_apply, detach, tag, hs.origin?_eq_none_iff hi, hname]
  by_cases hn : i.program.name = name
  · -- the registered edition of this name is now a newer one
    have hnot : t.runsRegistered i = false := by
      unfold runsRegistered
      rw [h.scripts, OrderedMap.getElem?_insert, if_pos hn.symm]
      have := hs.fresh a ha
      simp only [h.serial, beq_eq_false_iff_ne]
      omega
    by_cases hreg : s.runsRegistered i = true
    · obtain ⟨b, hb, hbi⟩ := (runsRegistered_iff s i).1 hreg
      have hba : b = a := hs.unique b a (.inl ⟨_, hb⟩) ha (hbi.trans hser.symm)
      rw [if_pos ⟨hreg, hn⟩, origin?, hnot, hsrcT, ← hn, hb, hba]
      rfl
    · rw [if_neg (fun hc => hreg hc.1), origin?, hnot, origin?, if_neg hreg, hsrcS, hsrcT]
      rfl
  · have hreg : t.runsRegistered i = s.runsRegistered i := by
      unfold runsRegistered
      rw [h.scripts, OrderedMap.getElem?_insert, if_neg (fun hc => hn hc.symm)]
    rw [if_neg (fun hc => hn hc.2), origin?, origin?, hreg, hsrcS, hsrcT]

theorem map_insert_plain (m : Std.ExtTreeMap String LoadedScript) (name : String)
    (a : LoadedScript) :
    (m.insert name a).map (fun _ script => script.plain) =
      (m.map fun _ script => script.plain).insert name a.plain := by
  apply Std.ExtTreeMap.ext_getElem?
  intro k
  rw [Std.ExtTreeMap.getElem?_map, OrderedMap.getElem?_insert, OrderedMap.getElem?_insert,
    Std.ExtTreeMap.getElem?_map]
  split <;> rfl

theorem Loaded.content {s t : Session} {name : String} {script : LoadedScript} (hs : s.Accounted)
    (h : Loaded s t name script) :
    t.content = { s.content with
      instances := s.content.instances.map
        (detach name (s.content.scripts[name]?))
      scripts := s.content.scripts.insert name script.plain } := by
  have hinst := h.tagged hs
  have hdetach : detach name s.scripts[name]? = detach name (s.content.scripts[name]?) := by
    funext e
    simp only [detach, Session.content, Std.ExtTreeMap.getElem?_map, Option.map_map]
    rfl
  unfold Session.content at hdetach ⊢
  rw [h.field, h.timers, h.decoder, hinst, h.scheduler, h.scripts, map_insert_plain, hdetach]

theorem load_content {s t : Session} (hs : s.Accounted) (ht : t.Accounted)
    (h : s.content = t.content) (name : String) (source : List UInt8) :
    (s.perform (.load name source)).1 = (t.perform (.load name source)).1 ∧
      (s.perform (.load name source)).2.content = (t.perform (.load name source)).2.content := by
  have hdec : s.decoder = t.decoder := congrArg Content.decoder h
  rw [perform, perform]
  cases hd : decode s.decoder name source with
  | error e =>
    rw [loadScript_error s hd, loadScript_error t (hdec ▸ hd)]
    exact ⟨rfl, h⟩
  | ok program =>
    obtain ⟨hrs, hls⟩ := loadScript_ok s hd
    obtain ⟨hrt, hlt⟩ := loadScript_ok t (hdec ▸ hd)
    have hcontent := (hls.content hs).trans (Eq.trans (by rw [h]; rfl) (hlt.content ht).symm)
    generalize s.loadScript name source = a at hrs hcontent
    generalize t.loadScript name source = b at hrt hcontent
    obtain ⟨ra, sa⟩ := a
    obtain ⟨rb, sb⟩ := b
    cases hrs
    cases hrt
    exact ⟨rfl, hcontent⟩

end Session

end FieldEngine
