import FieldEngine.Proofs.Session.Content

/-!
# A restored session goes on as the saved one

Programs are not saved but decoded again, so a restored session has editions of its own. It has the
content of the saved session all the same (`restore_snapshot`), and a restore of one snapshot in two
sessions of equal content gives sessions of equal content (`restore_content`). So whatever is done
to a session and to another one that was restored from its snapshot, both answer alike:

    s.Uniform → t.decoder = s.decoder → t.scheduler.config = s.scheduler.config →
      ∃ u, t.restore s.snapshot = (.ok (), u) ∧ u.snapshot = s.snapshot ∧
        ∀ ops, u.trail ops = s.trail ops                            (restore_snapshot_trail)
-/

namespace FieldEngine

/-! ## Outcomes -/

/-- Both fail with the same error, or both succeed with related values. -/
def SameOutcome {α β : Type} (R : α → β → Prop) : Except Error α → Except Error β → Prop
  | .ok a, .ok b => R a b
  | .error e, .error e' => e = e'
  | .ok _, .error _ => False
  | .error _, .ok _ => False

theorem SameOutcome.cases {α β : Type} {R : α → β → Prop} {x : Except Error α}
    {y : Except Error β} (h : SameOutcome R x y) :
    (∃ e, x = .error e ∧ y = .error e) ∨ ∃ a b, x = .ok a ∧ y = .ok b ∧ R a b := by
  cases x with
  | error e =>
    cases y with
    | error e' =>
      cases h
      exact .inl ⟨e, rfl, rfl⟩
    | ok b => exact h.elim
  | ok a =>
    cases y with
    | error e' => exact h.elim
    | ok b => exact .inr ⟨a, b, rfl, rfl, h⟩

theorem SameOutcome.bind {α β γ δ : Type} {R : α → β → Prop} {S : γ → δ → Prop}
    {x : Except Error α} {y : Except Error β} {f : α → Except Error γ} {g : β → Except Error δ}
    (h : SameOutcome R x y) (hfg : ∀ a b, R a b → SameOutcome S (f a) (g b)) :
    SameOutcome S (x.bind f) (y.bind g) := by
  rcases h.cases with ⟨e, rfl, rfl⟩ | ⟨a, b, rfl, rfl, hab⟩
  · exact rfl
  · exact hfg a b hab

theorem SameOutcome.foldlM {α β γ : Type} {R : α → β → Prop} {f : α → γ → Except Error α}
    {g : β → γ → Except Error β} (hfg : ∀ a b x, R a b → SameOutcome R (f a x) (g b x))
    (l : List γ) {a : α} {b : β} (hab : R a b) :
    SameOutcome R (l.foldlM f a) (l.foldlM g b) := by
  induction l generalizing a b with
  | nil => exact hab
  | cons x l ih =>
    rw [List.foldlM_cons, List.foldlM_cons]
    exact (hfg a b x hab).bind fun c d hcd => ih hcd

namespace Session

namespace Restoring

/-! ## Two restores of one snapshot -/

/-- The scripts decoded so far differ in their serial numbers only. -/
structure Alike (r r' : Restoring) : Prop where
  scripts : ∀ name : String,
    r.scripts[name]?.map LoadedScript.plain = r'.scripts[name]?.map LoadedScript.plain
  retired : r.retired.map LoadedScript.plain = r'.retired.map LoadedScript.plain
  detached : ∀ id : Nat,
    r.detached[id]?.map LoadedScript.plain = r'.detached[id]?.map LoadedScript.plain

theorem decodeSaved_alike (r r' : Restoring) (decoder : DecoderConfig) (name : String)
    (source : List UInt8) :
    SameOutcome (fun a b => a.plain = b.plain) (r.decodeSaved decoder name source)
      (r'.decodeSaved decoder name source) := by
  unfold decodeSaved
  cases decode decoder name source with
  | error e => exact rfl
  | ok program => exact rfl

theorem insert_alike {κ : Type} [Ord κ] [Std.TransOrd κ] [Std.LawfulEqOrd κ] [DecidableEq κ]
    {m m' : Std.ExtTreeMap κ LoadedScript} {a b : LoadedScript} (hab : a.plain = b.plain)
    (h : ∀ k : κ, m[k]?.map LoadedScript.plain = m'[k]?.map LoadedScript.plain) (k k' : κ) :
    (m.insert k a)[k']?.map LoadedScript.plain = (m'.insert k b)[k']?.map LoadedScript.plain := by
  rw [OrderedMap.getElem?_insert, OrderedMap.getElem?_insert]
  split
  · rw [Option.map_some, Option.map_some, hab]
  · exact h k'

theorem addScript_alike {r r' : Restoring} (h : Alike r r') (decoder : DecoderConfig)
    (saved : String × List UInt8) :
    SameOutcome Alike (addScript decoder r saved) (addScript decoder r' saved) := by
  refine (decodeSaved_alike r r' decoder saved.1 saved.2).bind ?_
  intro a b hab
  exact ⟨insert_alike hab h.scripts saved.1, h.retired, h.detached⟩

theorem find?_alike {l l' : List LoadedScript} (h : l.map LoadedScript.plain =
      l'.map LoadedScript.plain) (p : LoadedScript → Bool) (hp : ∀ a, p a.plain = p a) :
    (l.find? p).map LoadedScript.plain = (l'.find? p).map LoadedScript.plain := by
  have hfind : ∀ m : List LoadedScript,
      (m.map LoadedScript.plain).find? p = (m.find? p).map LoadedScript.plain := by
    intro m
    rw [List.find?_map]
    congr 2
    funext a
    exact hp a
  rw [← hfind, ← hfind, h]

theorem addDetached_alike {r r' : Restoring} (h : Alike r r') (decoder : DecoderConfig)
    (instances : List InstanceSnapshot) (saved : Nat × List UInt8) :
    SameOutcome Alike (addDetached decoder instances r saved)
      (addDetached decoder instances r' saved) := by
  unfold addDetached
  cases instances.find? fun i => i.id == saved.1 with
  | none => exact h
  | some i =>
    have hfind := find?_alike h.retired
      (fun script => script.source == saved.2 && script.edition.program.name == i.script)
      fun _ => rfl
    rcases cases_of_map_eq hfind with ⟨ha, hb⟩ | ⟨a, b, ha, hb, hab⟩
    · simp only [ha, hb]
      refine (decodeSaved_alike r r' decoder i.script saved.2).bind ?_
      intro a b hab
      refine ⟨h.scripts, ?_, insert_alike hab h.detached saved.1⟩
      rw [List.map_append, List.map_append, h.retired, List.map_singleton, List.map_singleton,
        hab]
    · simp only [ha, hb]
      exact ⟨h.scripts, h.retired, insert_alike hab h.detached saved.1⟩

theorem edition?_alike {r r' : Restoring} (h : Alike r r') (x : InstanceSnapshot) :
    (r.edition? x).map Edition.plain = (r'.edition? x).map Edition.plain := by
  have hor : ∀ q : Restoring, (q.edition? x).map Edition.plain =
      ((q.detached[x.id]?.map LoadedScript.plain).or
        (q.scripts[x.script]?.map LoadedScript.plain)).map LoadedScript.edition := by
    intro q
    unfold edition?
    rw [← Option.map_or, Option.map_map, Option.map_map]
    rfl
  rw [hor, hor, h.detached, h.scripts]

end Restoring

theorem instancesOf_alike {f g : InstanceSnapshot → Option Edition}
    (hfg : ∀ x, (f x).map Edition.plain = (g x).map Edition.plain) (saved : List InstanceSnapshot) :
    SameOutcome (fun l m => l.map Instance.plain = m.map Instance.plain)
      (Scheduler.instancesOf f saved) (Scheduler.instancesOf g saved) := by
  induction saved with
  | nil => exact rfl
  | cons x rest ih =>
    rw [Scheduler.instancesOf, Scheduler.instancesOf]
    rcases cases_of_map_eq (hfg x) with ⟨hf, hg⟩ | ⟨e, e', hf, hg, hplain⟩
    · rw [hf, hg]
      exact rfl
    · rw [hf, hg]
      refine ih.bind ?_
      intro l m hlm
      show (Instance.ofSnapshot e x :: l).map Instance.plain =
        (Instance.ofSnapshot e' x :: m).map Instance.plain
      rw [List.map_cons, List.map_cons, hlm, Instance.plain, Instance.plain]
      show { Instance.ofSnapshot e x with edition := e.plain } :: _ =
        { Instance.ofSnapshot e' x with edition := e'.plain } :: _
      rw [hplain]
      rfl

/-- The bytes of a restored instance are those that were saved for it. -/
theorem Restored.origins {s t : Session} {saved : SessionSnapshot} {r : Restoring}
    (hr : r.Sound s.decoder) (h : Restored s saved r t) :
    t.scheduler.instances.map t.origin? =
      saved.scheduler.instances.map fun x => r.detached[x.id]?.map LoadedScript.source := by
  have ht : t.Accounted := .restored hr h
  refine h.map_instances _ _ ?_
  intro x e he
  unfold Restoring.edition? at he
  cases hd : r.detached[x.id]? with
  | some a =>
    rw [hd, Option.some_or, Option.map_some] at he
    have hae := Option.some.inj he
    have ha := hr.detached x.id a hd
    have hsrc := ht.sourceOf?_eq (i := .ofSnapshot e x) ((h.knows a).2 (.inr ha))
      (congrArg Edition.serial hae)
    have hnot : t.runsRegistered (.ofSnapshot e x) = false := by
      rw [Bool.eq_false_iff]
      intro hreg
      obtain ⟨b, hb, hbe⟩ := (runsRegistered_iff t _).1 hreg
      rw [h.scripts] at hb
      exact hr.apart _ b a hb ha (hbe.trans (congrArg Edition.serial hae).symm)
    rw [origin?, hnot, hsrc]
    rfl
  | none =>
    rw [hd, Option.none_or] at he
    obtain ⟨a, ha, hae⟩ := Option.map_eq_some_iff.1 he
    have hreg : t.runsRegistered (.ofSnapshot e x) = true := by
      refine (runsRegistered_iff t _).2 ⟨a, ?_, congrArg Edition.serial hae⟩
      show t.scripts[e.program.name]? = some a
      rw [← hae, hr.named x.script a ha, h.scripts]
      exact ha
    rw [origin?, if_pos hreg]
    rfl

/-- What a restored session comes to. -/
theorem Restored.content_eq {s t : Session} {saved : SessionSnapshot} {r : Restoring}
    (hr : r.Sound s.decoder) (h : Restored s saved r t) :
    t.content = {
      field := saved.field
      decoder := s.decoder
      config := s.scheduler.config
      tick := saved.scheduler.tick
      nextId := saved.scheduler.nextId
      instances := List.zip (t.scheduler.instances.map Instance.plain)
        (saved.scheduler.instances.map fun x => r.detached[x.id]?.map LoadedScript.source)
      scripts := r.scripts.map fun _ script => script.plain
      timers := Std.ExtTreeMap.ofList saved.timers } := by
  unfold content
  rw [tagged_eq, h.origins hr, h.field, h.decoder, h.config, h.tick, h.nextId, h.scripts, h.timers]
  rfl

theorem restoring_alike {s t : Session} (hdec : s.decoder = t.decoder) (saved : SessionSnapshot) :
    SameOutcome Restoring.Alike (s.restoring saved) (t.restoring saved) := by
  unfold restoring
  rw [hdec]
  refine SameOutcome.bind (SameOutcome.foldlM (fun r r' x h =>
    Restoring.addScript_alike h t.decoder x) saved.scripts ?_) fun r r' h => ?_
  · exact ⟨fun _ => by simp, rfl, fun _ => by simp⟩
  · exact SameOutcome.foldlM (fun r r' x h =>
      Restoring.addDetached_alike h t.decoder saved.scheduler.instances x) saved.detached h

/-- Restored from one snapshot with scripts that differ in serial numbers only, two sessions have
equal contents. -/
theorem Restored.content_congr {s t u v : Session} {saved : SessionSnapshot} {r r' : Restoring}
    (hdec : s.decoder = t.decoder) (hconf : s.scheduler.config = t.scheduler.config)
    (hr : r.Sound s.decoder) (hr' : r'.Sound t.decoder) (hu : Restored s saved r u)
    (hv : Restored t saved r' v) (h : r.Alike r')
    (hinst : u.scheduler.instances.map Instance.plain = v.scheduler.instances.map Instance.plain) :
    u.content = v.content := by
  have hdetached : (fun x : InstanceSnapshot => r.detached[x.id]?.map LoadedScript.source) =
      fun x => r'.detached[x.id]?.map LoadedScript.source := by
    funext x
    have hx := congrArg (Option.map LoadedScript.source) (h.detached x.id)
    rw [Option.map_map, Option.map_map] at hx
    exact hx
  have hscripts : (r.scripts.map fun _ script => script.plain) =
      r'.scripts.map fun _ script => script.plain := by
    apply Std.ExtTreeMap.ext_getElem?
    intro name
    rw [Std.ExtTreeMap.getElem?_map, Std.ExtTreeMap.getElem?_map]
    exact h.scripts name
  rw [hu.content_eq hr, hv.content_eq hr', hdec, hconf, hinst, hdetached, hscripts]

/-- **One snapshot, two sessions** of equal content. Both restores fail with the same error, or both
succeed, and they leave equal contents. -/
theorem restore_content {s t : Session} (h : s.content = t.content) (saved : SessionSnapshot) :
    (s.restore saved).1 = (t.restore saved).1 ∧
      (s.restore saved).2.content = (t.restore saved).2.content := by
  have hdec : s.decoder = t.decoder := congrArg Content.decoder h
  have hconf : s.scheduler.config = t.scheduler.config := congrArg Content.config h
  have hs := restore_eq s saved
  have ht := restore_eq t saved
  rcases (restoring_alike hdec saved).cases with ⟨e, hrs, hrt⟩ | ⟨r, r', hrs, hrt, halike⟩
  · rw [hs, ht, hrs, hrt]
    exact ⟨rfl, h⟩
  simp only [hrs, Scheduler.restore] at hs
  simp only [hrt, Scheduler.restore] at ht
  rcases (instancesOf_alike (Restoring.edition?_alike halike) saved.scheduler.instances).cases with
    ⟨e, hl, hm⟩ | ⟨l, m, hl, hm, hinst⟩
  · rw [hs, ht, hl, hm]
    exact ⟨rfl, h⟩
  rw [hl] at hs
  rw [hm] at ht
  obtain ⟨q, hq, hsound, hrestored⟩ := restore_ok hs
  obtain ⟨q', hq', hsound', hrestored'⟩ := restore_ok ht
  cases hrs.symm.trans hq
  cases hrt.symm.trans hq'
  rw [hs, ht]
  exact ⟨rfl, hrestored.content_congr hdec hconf hsound hsound' hrestored' halike hinst⟩

/-! ## Restoring one's own snapshot -/

namespace Restoring

/-- Registered scripts that decode are all taken in. -/
theorem foldlM_addScript {decoder : DecoderConfig} (l : List (String × LoadedScript))
    (hl : ∀ e ∈ l, decode decoder e.1 e.2.source = .ok e.2.edition.program) (r : Restoring) :
    ∃ r', (l.map fun e => (e.1, e.2.source)).foldlM (addScript decoder) r = .ok r' ∧
      r'.retired = r.retired ∧ r'.detached = r.detached ∧
      (r'.scripts.map fun _ script => script.plain) =
        l.foldl (fun m e => m.insert e.1 e.2.plain)
          (r.scripts.map fun _ script => script.plain) := by
  induction l generalizing r with
  | nil => exact ⟨r, rfl, rfl, rfl, rfl⟩
  | cons e l ih =>
    have he := hl e List.mem_cons_self
    let a : LoadedScript := ⟨e.2.source, ⟨r.nextSerial, e.2.edition.program⟩⟩
    have hstep : addScript decoder r (e.1, e.2.source) =
        .ok { r with nextSerial := r.nextSerial + 1, scripts := r.scripts.insert e.1 a } := by
      unfold addScript decodeSaved
      rw [he]
      rfl
    obtain ⟨r', hr', hretired, hdetached, hscripts⟩ :=
      ih (fun e' he' => hl e' (List.mem_cons_of_mem _ he'))
        { r with nextSerial := r.nextSerial + 1, scripts := r.scripts.insert e.1 a }
    refine ⟨r', ?_, hretired, hdetached, ?_⟩
    · rw [List.map_cons, List.foldlM_cons, hstep]
      exact hr'
    · rw [hscripts, List.foldl_cons, map_insert_plain]
      rfl

/-- The script of one detached instance is taken in, decoded anew or shared. -/
theorem addDetached_eq {decoder : DecoderConfig} {instances : List InstanceSnapshot}
    {r : Restoring} (hr : Sound decoder r) {i : Instance} {source : List UInt8}
    (hfind : instances.find? (fun x => x.id == i.id) = some i.snapshot)
    (hdec : decode decoder i.program.name source = .ok i.program) :
    ∃ r' a, addDetached decoder instances r (i.id, source) = .ok r' ∧ r'.scripts = r.scripts ∧
      r'.detached = r.detached.insert i.id a ∧ a.plain = ⟨source, i.edition.plain⟩ := by
  unfold addDetached
  rw [hfind]
  simp only []
  cases ha : r.retired.find? fun script =>
      script.source == source && script.edition.program.name == i.snapshot.script with
  | some a =>
    have hmem : r.Has a := .inr (List.mem_of_find?_eq_some ha)
    have hp := List.find?_some ha
    simp only [Bool.and_eq_true, beq_iff_eq] at hp
    have hprog : decode decoder i.program.name source = .ok a.edition.program := by
      have := hr.decoded a hmem
      rwa [hp.1, hp.2] at this
    have hprog' : a.edition.program = i.program := Except.ok.inj (hprog.symm.trans hdec)
    refine ⟨_, a, rfl, rfl, rfl, ?_⟩
    unfold LoadedScript.plain Edition.plain
    rw [hp.1, hprog']
    rfl
  | none =>
    let a : LoadedScript := ⟨source, ⟨r.nextSerial, i.program⟩⟩
    refine ⟨{ r with
      nextSerial := r.nextSerial + 1
      retired := r.retired ++ [a]
      detached := r.detached.insert i.id a }, a, ?_, rfl, rfl, rfl⟩
    unfold decodeSaved
    rw [show i.snapshot.script = i.program.name from rfl, hdec]
    rfl

end Restoring

/-- The bytes of an instance, with its program. -/
def ownScript? (s : Session) (i : Instance) : Option LoadedScript :=
  (s.origin? i).map fun source => ⟨source, i.edition.plain⟩

theorem Reproducible.decode_origin {s : Session} (hs : s.Reproducible) {i : Instance}
    (hi : i ∈ s.scheduler.instances) {source : List UInt8} (h : s.origin? i = some source) :
    decode s.decoder i.program.name source = .ok i.program := by
  obtain ⟨a, ha, hai⟩ := hs.runs i hi
  unfold origin? at h
  split at h
  · cases h
  · rw [hs.sourceOf?_eq ha (congrArg Edition.serial hai)] at h
    have hdec := hs.decoded a ha
    rw [Option.some.inj h, hai] at hdec
    exact hdec

theorem Ordered.find?_snapshot {s : Session} (hs : s.Ordered) {i : Instance}
    (hi : i ∈ s.scheduler.instances) :
    (s.scheduler.instances.map Instance.snapshot).find? (fun x => x.id == i.id) =
      some i.snapshot := by
  have hget := hs.get?_eq hi
  unfold Scheduler.get? at hget
  rw [List.find?_map]
  show (s.scheduler.instances.find? fun x => x.id == i.id).map Instance.snapshot = some i.snapshot
  rw [hget]
  rfl

/-- All detached instances get their scripts back. -/
theorem foldlM_addDetached {s : Session} (hs : s.Reproducible) (l : List Instance)
    (hl : ∀ i ∈ l, i ∈ s.scheduler.instances) (hord : (l.map Instance.id).Pairwise (· < ·))
    (r : Restoring) (hr : r.Sound s.decoder) :
    ∃ r', (l.filterMap fun i => (s.origin? i).map fun source => (i.id, source)).foldlM
        (Restoring.addDetached s.decoder (s.scheduler.instances.map Instance.snapshot)) r = .ok r' ∧
      r'.scripts = r.scripts ∧
      (∀ id, id ∉ l.map Instance.id → r'.detached[id]? = r.detached[id]?) ∧
      ∀ i ∈ l, r.detached[i.id]? = none →
        r'.detached[i.id]?.map LoadedScript.plain = s.ownScript? i := by
  induction l generalizing r with
  | nil => exact ⟨r, rfl, rfl, fun _ _ => rfl, fun i hi => by cases hi⟩
  | cons i l ih =>
    rw [List.map_cons, List.pairwise_cons] at hord
    have hi := hl i List.mem_cons_self
    have hl' : ∀ j ∈ l, j ∈ s.scheduler.instances := fun j hj => hl j (List.mem_cons_of_mem _ hj)
    have hnot : i.id ∉ l.map Instance.id := fun hmem => Nat.lt_irrefl _ (hord.1 _ hmem)
    cases horigin : s.origin? i with
    | none =>
      obtain ⟨r', hr', hscripts, hother, hown⟩ := ih hl' hord.2 r hr
      refine ⟨r', ?_, hscripts, ?_, ?_⟩
      · rw [List.filterMap_cons, horigin]
        exact hr'
      · intro id hid
        rw [List.map_cons, List.mem_cons, not_or] at hid
        exact hother id hid.2
      · intro j hj hnone
        rcases List.mem_cons.1 hj with rfl | hj
        · rw [hother j.id hnot, hnone, ownScript?, horigin]
          rfl
        · exact hown j hj hnone
    | some source =>
      obtain ⟨r1, a, hstep, hscripts1, hdetached1, ha⟩ := Restoring.addDetached_eq hr
        (hs.find?_snapshot hi) (hs.decode_origin hi horigin)
      have hr1 := Restoring.sound_addDetached hr hstep
      obtain ⟨r', hr', hscripts, hother, hown⟩ := ih hl' hord.2 r1 hr1
      refine ⟨r', ?_, hscripts.trans hscripts1, ?_, ?_⟩
      · rw [List.filterMap_cons, horigin]
        simp only [Option.map_some]
        rw [List.foldlM_cons, hstep]
        exact hr'
      · intro id hid
        rw [List.map_cons, List.mem_cons, not_or] at hid
        rw [hother id hid.2, hdetached1, OrderedMap.getElem?_insert,
          if_neg (fun hc => hid.1 hc.symm)]
      · intro j hj hnone
        rcases List.mem_cons.1 hj with rfl | hj
        · rw [hother j.id hnot, hdetached1, OrderedMap.getElem?_insert, if_pos rfl,
            Option.map_some, ha, ownScript?, horigin]
          rfl
        · refine hown j hj ?_
          have hlt := hord.1 j.id (List.mem_map_of_mem hj)
          rw [hdetached1, OrderedMap.getElem?_insert, if_neg (by omega)]
          exact hnone

theorem snapshot_detached (s : Session) : s.snapshot.detached =
    s.scheduler.instances.filterMap fun i => (s.origin? i).map fun source => (i.id, source) := by
  rw [snapshot_eq]
  simp only [Content.snapshot, content, List.filterMap_map]
  rfl

/-- Inserting all entries of a map in order gives the map. -/
theorem foldl_insert_toList (m : Std.ExtTreeMap String LoadedScript) :
    m.toList.foldl (fun acc e => acc.insert e.1 e.2.plain)
      ((∅ : Std.ExtTreeMap String LoadedScript).map fun _ script => script.plain) =
        m.map fun _ script => script.plain := by
  have h := OrderedMap.ofList_toList (m.map fun _ script => script.plain)
  rw [Std.ExtTreeMap.ofList_eq_foldl, Std.ExtTreeMap.toList_map, List.foldl_map] at h
  have hempty : ((∅ : Std.ExtTreeMap String LoadedScript).map fun _ script => script.plain) = ∅ :=
    Std.ExtTreeMap.map_eq_empty_iff.2 rfl
  rw [hempty]
  exact h

/-- All scripts of a snapshot decode again. -/
theorem restoring_snapshot {s t : Session} (hs : s.Reproducible) (hdec : t.decoder = s.decoder) :
    ∃ r, t.restoring s.snapshot = .ok r ∧
      (r.scripts.map fun _ script => script.plain) = (s.scripts.map fun _ script => script.plain) ∧
      ∀ i ∈ s.scheduler.instances,
        r.detached[i.id]?.map LoadedScript.plain = s.ownScript? i := by
  have hdecode : ∀ e ∈ s.scripts.toList,
      decode s.decoder e.1 e.2.source = .ok e.2.edition.program := by
    rintro ⟨name, a⟩ he
    have hname := Std.ExtTreeMap.mem_toList_iff_getElem?_eq_some.1 he
    have := hs.decoded a (.inl ⟨name, hname⟩)
    rwa [hs.named name a hname] at this
  obtain ⟨r1, hr1, hretired, hdetached, hscripts⟩ :=
    Restoring.foldlM_addScript s.scripts.toList hdecode ⟨t.nextSerial, ∅, [], ∅⟩
  have hsound : r1.Sound s.decoder :=
    foldlM_ok (fun _ _ _ hb hc => Restoring.sound_addScript hb hc) _
      (Restoring.sound_start _ _) hr1
  obtain ⟨r2, hr2, hscripts2, -, hown⟩ :=
    foldlM_addDetached hs s.scheduler.instances (fun _ h => h) hs.ordered r1 hsound
  refine ⟨r2, ?_, ?_, ?_⟩
  · unfold restoring
    rw [hdec, snapshot_detached]
    have hsaved : s.snapshot.scripts = s.scripts.toList.map fun e => (e.1, e.2.source) := rfl
    rw [hsaved, hr1]
    exact hr2
  · rw [hscripts2, hscripts]
    exact foldl_insert_toList s.scripts
  · intro i hi
    exact hown i hi (by rw [hdetached]; simp)

/-- The edition that a restore finds for an instance is its own, but for the serial number. -/
theorem edition?_snapshot {s : Session} (hs : s.Reproducible) {r : Restoring}
    (hscripts : (r.scripts.map fun _ script => script.plain) =
      s.scripts.map fun _ script => script.plain)
    {i : Instance} (hi : i ∈ s.scheduler.instances)
    (hown : r.detached[i.id]?.map LoadedScript.plain = s.ownScript? i) :
    ∃ e, r.edition? i.snapshot = some e ∧ e.plain = i.edition.plain := by
  unfold Restoring.edition?
  show ∃ e, (r.detached[i.id]?.or r.scripts[i.program.name]?).map _ = some e ∧ _
  cases hd : r.detached[i.id]? with
  | some a =>
    rw [hd, ownScript?, Option.map_some] at hown
    obtain ⟨source, -, hsource⟩ := Option.map_eq_some_iff.1 hown.symm
    exact ⟨a.edition, rfl, congrArg LoadedScript.edition hsource.symm⟩
  | none =>
    -- without bytes of its own the instance runs the registered edition
    rw [hd, ownScript?, Option.map_none] at hown
    have horigin : s.origin? i = none := Option.map_eq_none_iff.1 hown.symm
    obtain ⟨b, hb, hbi⟩ := (runsRegistered_iff s i).1 ((hs.origin?_eq_none_iff hi).1 horigin)
    obtain ⟨a, ha, hai⟩ := hs.runs i hi
    have hba : b = a :=
      hs.unique b a (.inl ⟨_, hb⟩) ha (hbi.trans (congrArg Edition.serial hai).symm)
    have hlook := congrArg (fun m => m[i.program.name]?) hscripts
    simp only [Std.ExtTreeMap.getElem?_map, hb, Option.map_some] at hlook
    obtain ⟨c, hc, hcb⟩ := Option.map_eq_some_iff.1 hlook
    refine ⟨c.edition, by rw [Option.none_or, hc]; rfl, ?_⟩
    rw [← hai, ← hba]
    exact congrArg LoadedScript.edition hcb

/-- Instances with the programs that they had are the same but for serial numbers. -/
theorem instancesOf_snapshot {f : InstanceSnapshot → Option Edition} (l : List Instance)
    (h : ∀ i ∈ l, ∃ e, f i.snapshot = some e ∧ e.plain = i.edition.plain) :
    ∃ m, Scheduler.instancesOf f (l.map Instance.snapshot) = .ok m ∧
      m.map Instance.plain = l.map Instance.plain := by
  induction l with
  | nil => exact ⟨[], rfl, rfl⟩
  | cons i l ih =>
    obtain ⟨e, he, hei⟩ := h i List.mem_cons_self
    obtain ⟨m, hm, hml⟩ := ih fun j hj => h j (List.mem_cons_of_mem _ hj)
    refine ⟨.ofSnapshot e i.snapshot :: m, ?_, ?_⟩
    · rw [List.map_cons, Scheduler.instancesOf, he]
      simp only []
      rw [hm]
      rfl
    · rw [List.map_cons, List.map_cons, hml, Instance.plain, Instance.plain]
      show { i with edition := e.plain } :: _ = { i with edition := i.edition.plain } :: _
      rw [hei]

/-- **Restoring a snapshot** in any session of the same settings succeeds, and gives the content of
the session that was saved. -/
theorem restore_snapshot {s t : Session} (hs : s.Reproducible) (hdec : t.decoder = s.decoder)
    (hconf : t.scheduler.config = s.scheduler.config) :
    ∃ u, t.restore s.snapshot = (.ok (), u) ∧ u.Accounted ∧ u.content = s.content := by
  obtain ⟨r, hr, hscripts, hown⟩ := restoring_snapshot hs hdec
  obtain ⟨m, hm, hplain⟩ := instancesOf_snapshot s.scheduler.instances fun i hi =>
    edition?_snapshot hs hscripts hi (hown i hi)
  have hinst : s.snapshot.scheduler.instances = s.scheduler.instances.map Instance.snapshot := rfl
  have hrestore := restore_eq t s.snapshot
  rw [hr] at hrestore
  simp only [Scheduler.restore] at hrestore
  rw [hinst, hm] at hrestore
  obtain ⟨r', hr', hsound, hres⟩ := restore_ok hrestore
  cases hr.symm.trans hr'
  have horigins : (s.snapshot.scheduler.instances.map fun x =>
      r.detached[x.id]?.map LoadedScript.source) = s.scheduler.instances.map s.origin? := by
    rw [hinst, List.map_map]
    apply List.map_congr_left
    intro i hi
    have hsource := congrArg (Option.map LoadedScript.source) (hown i hi)
    rw [ownScript?, Option.map_map, Option.map_map] at hsource
    refine Eq.trans hsource ?_
    show Option.map id (s.origin? i) = s.origin? i
    rw [Option.map_id]
    rfl
  refine ⟨_, hrestore, .restored hsound hres, ?_⟩
  rw [hres.content_eq hsound, horigins, hscripts, hdec, hconf]
  unfold content
  rw [tagged_eq]
  simp only [Content.mk.injEq]
  refine ⟨rfl, trivial, trivial, rfl, rfl, ?_, trivial, OrderedMap.ofList_toList s.timers⟩
  exact congrArg (List.zip · _) hplain

/-! ## Equal contents, equal futures -/

/-- **One operation** on sessions of equal content: equal replies, and equal contents after it. -/
theorem perform_content {s t : Session} (hs : s.Accounted) (ht : t.Accounted)
    (h : s.content = t.content) (op : Operation) :
    (s.perform op).1 = (t.perform op).1 ∧
      (s.perform op).2.content = (t.perform op).2.content := by
  have hstep := inStep_of_content h
  cases op with
  | edit edit =>
    simp only [perform]
    rw [hstep.field]
    refine ⟨rfl, ?_⟩
    exact Steady.content_congr h ⟨rfl, rfl, rfl, rfl, rfl, rfl⟩ ⟨rfl, rfl, rfl, rfl, rfl, rfl⟩
      ⟨rfl, hstep.scheduler, hstep.timers⟩
  | load name source => exact load_content hs ht h name source
  | spawn script owner => exact spawn_content hs ht h script owner
  | tick =>
    obtain ⟨hreport, hcontent⟩ := tick_content h
    exact ⟨congrArg Reply.report hreport, hcontent⟩
  | notify event =>
    obtain ⟨hids, hcontent⟩ := notify_content h event
    exact ⟨congrArg Reply.ids hids, hcontent⟩
  | resume id => exact resume_content h id
  | cancel id => exact cancel_content hs ht h id
  | cancelOwnedBy owner =>
    obtain ⟨hids, hcontent⟩ := cancelOwnedBy_content hs ht h owner
    exact ⟨congrArg Reply.ids hids, hcontent⟩
  | cancelAll =>
    obtain ⟨hcount, hcontent⟩ := cancelAll_content h
    exact ⟨congrArg Reply.number hcount, hcontent⟩
  | reap =>
    obtain ⟨hdone, hcontent⟩ := reap_content hs ht h
    exact ⟨congrArg Reply.instances hdone, hcontent⟩
  | snapshot =>
    refine ⟨?_, h⟩
    simp only [perform]
    rw [snapshot_eq, snapshot_eq, h]
  | restore saved =>
    obtain ⟨hresult, hcontent⟩ := restore_content h saved
    exact ⟨congrArg (Reply.ofResult _) hresult, hcontent⟩
  | withScheduler config =>
    exact ⟨rfl, Removed.nil_content h (.of_instances_nil rfl rfl rfl rfl rfl)
      (.of_instances_nil rfl rfl rfl rfl rfl) ⟨hstep.field, rfl, rfl⟩ rfl rfl⟩
  | withTracer tracer =>
    refine ⟨rfl, Steady.content_congr h ⟨rfl, rfl, rfl, rfl, rfl, rfl⟩
      ⟨rfl, rfl, rfl, rfl, rfl, rfl⟩ ⟨hstep.field, ?_, hstep.timers⟩⟩
    exact congrArg (fun c => c.setTrace tracer.isEnabled) hstep.scheduler
  | setTracing on =>
    refine ⟨rfl, Steady.content_congr h ⟨rfl, rfl, rfl, rfl, rfl, rfl⟩
      ⟨rfl, rfl, rfl, rfl, rfl, rfl⟩ ⟨hstep.field, ?_, hstep.timers⟩⟩
    exact congrArg (fun c => c.setTrace on) hstep.scheduler

/-- **A whole history** of sessions of equal content. -/
theorem trail_content {s t : Session} (hs : s.Accounted) (ht : t.Accounted)
    (h : s.content = t.content) (ops : List Operation) : s.trail ops = t.trail ops := by
  induction ops generalizing s t with
  | nil => rfl
  | cons op ops ih =>
    obtain ⟨hreply, hcontent⟩ := perform_content hs ht h op
    have hrest := ih (accounted_perform hs op) (accounted_perform ht op) hcontent
    have hobserve := observe_congr hcontent
    simp only [trail]
    rw [hreply, hobserve, hrest]

/-- **Saving and restoring is invisible.** The snapshot of a session that a host can bring about
with one set of decoder settings is restored by every session of the same settings, which then has
the same snapshot, and answers whatever is done to both as the saved one does. -/
theorem restore_snapshot_trail {s t : Session} (hs : s.Uniform) (hdec : t.decoder = s.decoder)
    (hconf : t.scheduler.config = s.scheduler.config) :
    ∃ u, t.restore s.snapshot = (.ok (), u) ∧ u.snapshot = s.snapshot ∧
      ∀ ops, u.trail ops = s.trail ops := by
  obtain ⟨u, hu, hacc, hcontent⟩ := restore_snapshot hs.reproducible hdec hconf
  refine ⟨u, hu, ?_, ?_⟩
  · rw [snapshot_eq, snapshot_eq, hcontent]
  · intro ops
    exact trail_content hacc hs.reproducible.toAccounted hcontent ops

/-- A case in which the saved instance waits in an edition that has been replaced. -/
theorem restore_snapshot_trail_replaced :
    let s := (ofSeed 7).after [.edit (.place "npc"),
      .load "door" [0x03, 0x00, 0x07, 0x00, 0x00, 0x00, 0x23, 0x00], .spawn "door" ⟨0, 1⟩, .tick,
      .load "door" []]
    s.snapshot.detached.length = 1 ∧
      ∃ u, (ofSeed 0).restore s.snapshot = (.ok (), u) ∧ u.snapshot = s.snapshot ∧
        ∀ ops, u.trail ops = s.trail ops := by
  intro s
  refine ⟨by decide, restore_snapshot_trail ?_ (by decide) (by decide)⟩
  exact .step _ (.step _ (.step _ (.step _ (.step _ (.start _) nofun) nofun) nofun) nofun) nofun

end Session

end FieldEngine
