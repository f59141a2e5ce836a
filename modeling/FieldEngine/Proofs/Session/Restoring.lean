import FieldEngine.Proofs.Script.Validity
import FieldEngine.Proofs.Session.Transition

/-!
# Restoring a session

A restore decodes the saved scripts one after the other. `Restoring.Sound` is what holds of the
scripts decoded so far: each is the decoded form of its bytes under its name, has a serial number of
its own, and those for detached instances are kept apart from the registered ones. It holds at the
start and after each script, so it holds of what a restore ends with:

    s.restore saved = (.ok (), t) → ∃ r, r.Sound s.decoder ∧ Restored s saved r t     (restore_ok)
-/

namespace FieldEngine

theorem decode_name {config : DecoderConfig} {name : String} {bytes : List UInt8} {p : Program}
    (h : decode config name bytes = .ok p) : p.name = name := by
  obtain ⟨pass, -, -, hname, -⟩ := decode_ok h
  exact hname

namespace Session

namespace Restoring

def Has (r : Restoring) (script : LoadedScript) : Prop :=
  (∃ name : String, r.scripts[name]? = some script) ∨ script ∈ r.retired

/-- What holds of the scripts decoded so far. -/
structure Sound (decoder : DecoderConfig) (r : Restoring) : Prop where
  named : ∀ (name : String) (a : LoadedScript), r.scripts[name]? = some a →
    a.edition.program.name = name
  decoded : ∀ a, r.Has a →
    decode decoder a.edition.program.name a.source = .ok a.edition.program
  fresh : ∀ a, r.Has a → a.edition.serial < r.nextSerial
  unique : ∀ a b, r.Has a → r.Has b → a.edition.serial = b.edition.serial → a = b
  apart : ∀ (name : String) (a b : LoadedScript), r.scripts[name]? = some a → b ∈ r.retired →
    a.edition.serial ≠ b.edition.serial
  detached : ∀ (id : Nat) (a : LoadedScript), r.detached[id]? = some a → a ∈ r.retired

theorem sound_start (decoder : DecoderConfig) (serial : Nat) :
    Sound decoder ⟨serial, ∅, [], ∅⟩ := by
  have none : ∀ a, ¬ Has ⟨serial, ∅, [], ∅⟩ a := by
    rintro a (⟨name, h⟩ | h)
    · simp at h
    · cases h
  refine ⟨?_, fun a h => absurd h (none a), fun a h => absurd h (none a),
    fun a _ h => absurd h (none a), ?_, ?_⟩
  · intro name a h
    simp at h
  · intro name a b h
    simp at h
  · intro id a h
    simp at h

theorem decodeSaved_ok {r : Restoring} {decoder : DecoderConfig} {name : String}
    {source : List UInt8} {a : LoadedScript} (h : r.decodeSaved decoder name source = .ok a) :
    a.source = source ∧ a.edition.serial = r.nextSerial ∧ a.edition.program.name = name ∧
      decode decoder name source = .ok a.edition.program := by
  unfold decodeSaved at h
  split at h
  · rename_i program hd
    cases h
    exact ⟨rfl, rfl, decode_name hd, hd⟩
  · cases h

/-- A newly decoded script differs from all before it. -/
theorem Sound.serial_ne {decoder : DecoderConfig} {r : Restoring} (hr : Sound decoder r)
    {a b : LoadedScript} (ha : a.edition.serial = r.nextSerial) (hb : r.Has b) :
    a.edition.serial ≠ b.edition.serial := by
  have := hr.fresh b hb
  omega

/-- One more decoded script, wherever it is put, is told apart from all others. -/
theorem Sound.grow {decoder : DecoderConfig} {r t : Restoring} {name : String}
    {source : List UInt8} {a : LoadedScript} (hr : Sound decoder r)
    (hd : r.decodeSaved decoder name source = .ok a) (hn : t.nextSerial = r.nextSerial + 1)
    (cases : ∀ b, t.Has b → b = a ∨ r.Has b) :
    (∀ b, t.Has b → decode decoder b.edition.program.name b.source = .ok b.edition.program) ∧
      (∀ b, t.Has b → b.edition.serial < t.nextSerial) ∧
      ∀ b c, t.Has b → t.Has c → b.edition.serial = c.edition.serial → b = c := by
  obtain ⟨hsrc, hser, hname, hdec⟩ := decodeSaved_ok hd
  refine ⟨?_, ?_, ?_⟩
  · intro b hb
    rcases cases b hb with rfl | hb
    · rw [hname, hsrc]
      exact hdec
    · exact hr.decoded b hb
  · intro b hb
    rcases cases b hb with rfl | hb
    · omega
    · have := hr.fresh b hb
      omega
  · intro b c hb hc hbc
    rcases cases b hb with hba | hb'
    · rcases cases c hc with hca | hc'
      · rw [hba, hca]
      · exact absurd (hba ▸ hbc) (hr.serial_ne hser hc')
    · rcases cases c hc with hca | hc'
      · exact absurd (hca ▸ hbc.symm) (hr.serial_ne hser hb')
      · exact hr.unique b c hb' hc' hbc

theorem addScript_ok {decoder : DecoderConfig} {r t : Restoring} {saved : String × List UInt8}
    (h : addScript decoder r saved = .ok t) :
    ∃ a, r.decodeSaved decoder saved.1 saved.2 = .ok a ∧
      t = { r with nextSerial := r.nextSerial + 1, scripts := r.scripts.insert saved.1 a } := by
  unfold addScript at h
  cases hd : r.decodeSaved decoder saved.1 saved.2 with
  | error e => rw [hd] at h; cases h
  | ok a =>
    rw [hd] at h
    cases h
    exact ⟨a, rfl, rfl⟩

theorem sound_addScript {decoder : DecoderConfig} {r t : Restoring} {saved : String × List UInt8}
    (hr : Sound decoder r) (h : addScript decoder r saved = .ok t) : Sound decoder t := by
  obtain ⟨a, hd, rfl⟩ := addScript_ok h
  obtain ⟨-, hser, hname, -⟩ := decodeSaved_ok hd
  have look : ∀ (name : String) (b : LoadedScript),
      (r.scripts.insert saved.1 a)[name]? = some b →
        (saved.1 = name ∧ b = a) ∨ r.scripts[name]? = some b := by
    intro name b hb
    rw [OrderedMap.getElem?_insert] at hb
    split at hb
    · rename_i hn
      exact .inl ⟨hn, (Option.some.inj hb).symm⟩
    · exact .inr hb
  -- every script is the new one or was there before
  have cases : ∀ b, Has { r with
      nextSerial := r.nextSerial + 1, scripts := r.scripts.insert saved.1 a } b →
      b = a ∨ r.Has b := by
    rintro b (⟨name, hb⟩ | hb)
    · rcases look name b hb with ⟨-, hb⟩ | hb
      · exact .inl hb
      · exact .inr (.inl ⟨name, hb⟩)
    · exact .inr (.inr hb)
  obtain ⟨hdecoded, hfresh, hunique⟩ := hr.grow hd rfl cases
  refine ⟨?_, hdecoded, hfresh, hunique, ?_, hr.detached⟩
  · intro name b hb
    rcases look name b hb with ⟨rfl, rfl⟩ | hb
    · exact hname
    · exact hr.named name b hb
  · intro name b c hb hc
    rcases look name b hb with ⟨-, rfl⟩ | hb
    · exact hr.serial_ne hser (.inr hc)
    · exact hr.apart name b c hb hc

/-- The script for a detached instance: one that an earlier instance shares, or a new one. -/
theorem addDetached_ok {decoder : DecoderConfig} {instances : List InstanceSnapshot}
    {r t : Restoring} {saved : Nat × List UInt8}
    (h : addDetached decoder instances r saved = .ok t) :
    t = r ∧ instances.find? (fun x => x.id == saved.1) = none ∨
      ∃ x, instances.find? (fun x => x.id == saved.1) = some x ∧
        ((∃ a ∈ r.retired, a.source = saved.2 ∧ a.edition.program.name = x.script ∧
            t = { r with detached := r.detached.insert saved.1 a }) ∨
          ∃ a, r.decodeSaved decoder x.script saved.2 = .ok a ∧
            t = { r with
              nextSerial := r.nextSerial + 1
              retired := r.retired ++ [a]
              detached := r.detached.insert saved.1 a }) := by
  unfold addDetached at h
  split at h
  · rename_i hnone
    cases h
    exact .inl ⟨rfl, hnone⟩
  · rename_i x hx
    refine .inr ⟨x, hx, ?_⟩
    simp only [] at h
    split at h
    · rename_i a ha
      cases h
      have hshared := List.find?_some ha
      simp only [Bool.and_eq_true, beq_iff_eq] at hshared
      exact .inl ⟨a, List.mem_of_find?_eq_some ha, hshared.1, hshared.2, rfl⟩
    · cases hd : r.decodeSaved decoder x.script saved.2 with
      | error e => rw [hd] at h; cases h
      | ok a =>
        rw [hd] at h
        cases h
        exact .inr ⟨a, rfl, rfl⟩

theorem sound_addDetached {decoder : DecoderConfig} {instances : List InstanceSnapshot}
    {r t : Restoring} {saved : Nat × List UInt8} (hr : Sound decoder r)
    (h : addDetached decoder instances r saved = .ok t) : Sound decoder t := by
  rcases addDetached_ok h with ⟨rfl, -⟩ | ⟨x, -, ⟨a, ha, -, -, rfl⟩ | ⟨a, hd, rfl⟩⟩
  · exact hr
  · refine ⟨hr.named, hr.decoded, hr.fresh, hr.unique, hr.apart, ?_⟩
    intro id b hb
    rw [OrderedMap.getElem?_insert] at hb
    split at hb
    · rw [← Option.some.inj hb]
      exact ha
    · exact hr.detached id b hb
  · have hser := (decodeSaved_ok hd).2.1
    have cases : ∀ b, Has { r with
        nextSerial := r.nextSerial + 1
        retired := r.retired ++ [a]
        detached := r.detached.insert saved.1 a } b → b = a ∨ r.Has b := by
      rintro b (hb | hb)
      · exact .inr (.inl hb)
      · rcases List.mem_append.1 hb with hb | hb
        · exact .inr (.inr hb)
        · exact .inl (List.mem_singleton.1 hb)
    obtain ⟨hdecoded, hfresh, hunique⟩ := hr.grow hd rfl cases
    refine ⟨hr.named, hdecoded, hfresh, hunique, ?_, ?_⟩
    · intro name b c hb hc
      rcases List.mem_append.1 hc with hc | hc
      · exact hr.apart name b c hb hc
      · rw [List.mem_singleton.1 hc]
        exact (hr.serial_ne hser (.inl ⟨name, hb⟩)).symm
    · intro id b hb
      rw [OrderedMap.getElem?_insert] at hb
      split at hb
      · rw [← Option.some.inj hb]
        exact List.mem_append_right _ (List.mem_singleton_self a)
      · exact List.mem_append_left _ (hr.detached id b hb)

end Restoring

/-! ## The whole restore -/

/-- The session `t` is `s` with a saved session in place, whose scripts are those of `r`. -/
structure Restored (s : Session) (saved : SessionSnapshot) (r : Restoring) (t : Session) :
    Prop where
  field : t.field = saved.field
  decoder : t.decoder = s.decoder
  config : t.scheduler.config = s.scheduler.config
  tick : t.scheduler.tick = saved.scheduler.tick
  nextId : t.scheduler.nextId = saved.scheduler.nextId
  instances : t.scheduler.instances.map some =
    saved.scheduler.instances.map fun x => (r.edition? x).map (Instance.ofSnapshot · x)
  scripts : t.scripts = r.scripts
  retired : t.retired = r.retired
  timers : t.timers = Std.ExtTreeMap.ofList saved.timers
  nextSerial : t.nextSerial = r.nextSerial

/-- The scripts that a restore decodes. -/
def restoring (s : Session) (saved : SessionSnapshot) : Except Error Restoring := do
  let r ← saved.scripts.foldlM (Restoring.addScript s.decoder) ⟨s.nextSerial, ∅, [], ∅⟩
  saved.detached.foldlM (Restoring.addDetached s.decoder saved.scheduler.instances) r

theorem restore_eq (s : Session) (saved : SessionSnapshot) :
    s.restore saved =
      match s.restoring saved with
      | .error e => (.error e, s)
      | .ok r =>
        match s.scheduler.restore saved.scheduler r.edition? with
        | (.error e, _) => (.error e, s)
        | (.ok (), scheduler) =>
          (.ok (), { s with
            field := saved.field
            scheduler := scheduler
            scripts := r.scripts
            retired := r.retired
            timers := Std.ExtTreeMap.ofList saved.timers
            nextSerial := r.nextSerial }) := by
  unfold restore restoring
  cases saved.scripts.foldlM (Restoring.addScript s.decoder) ⟨s.nextSerial, ∅, [], ∅⟩ with
  | error e => rfl
  | ok r => rfl

/-- The registered scripts are taken in first, then those of instances that run another one. -/
theorem restoring_ok {s : Session} {saved : SessionSnapshot} {r : Restoring}
    (h : s.restoring saved = .ok r) :
    ∃ r₁, saved.scripts.foldlM (Restoring.addScript s.decoder) ⟨s.nextSerial, ∅, [], ∅⟩ = .ok r₁ ∧
      saved.detached.foldlM (Restoring.addDetached s.decoder saved.scheduler.instances) r₁ =
        .ok r := by
  unfold restoring at h
  cases hr₁ : saved.scripts.foldlM (Restoring.addScript s.decoder) ⟨s.nextSerial, ∅, [], ∅⟩ with
  | error e => rw [hr₁] at h; cases h
  | ok r₁ =>
    rw [hr₁] at h
    exact ⟨r₁, rfl, h⟩

theorem restoring_sound {s : Session} {saved : SessionSnapshot} {r : Restoring}
    (h : s.restoring saved = .ok r) : r.Sound s.decoder := by
  obtain ⟨r₁, hscripts, hdetached⟩ := restoring_ok h
  have hr₁ : r₁.Sound s.decoder :=
    foldlM_ok (fun _ _ _ hb hc => Restoring.sound_addScript hb hc) saved.scripts
      (Restoring.sound_start _ _) hscripts
  exact foldlM_ok (fun _ _ _ hb hc => Restoring.sound_addDetached hb hc) saved.detached hr₁
    hdetached

/-- **A restore that succeeds.** The scripts it decoded are sound, and all else is as saved. -/
theorem restore_ok {s t : Session} {saved : SessionSnapshot} (h : s.restore saved = (.ok (), t)) :
    ∃ r, s.restoring saved = .ok r ∧ r.Sound s.decoder ∧ Restored s saved r t := by
  rw [restore_eq] at h
  cases hr : s.restoring saved with
  | error e => rw [hr] at h; cases h
  | ok r =>
    rw [hr] at h
    refine ⟨r, rfl, restoring_sound hr, ?_⟩
    simp only [Scheduler.restore] at h
    cases hi : Scheduler.instancesOf r.edition? saved.scheduler.instances with
    | error e => rw [hi] at h; cases h
    | ok l =>
      rw [hi] at h
      cases h
      exact ⟨rfl, rfl, rfl, rfl, rfl, Scheduler.instancesOf_ok hi, rfl, rfl, rfl, rfl⟩

/-- A restore changes nothing, or puts a saved session in place. -/
theorem perform_restore (s : Session) (saved : SessionSnapshot) :
    (s.perform (.restore saved)).2 = s ∨
      ∃ r, s.restoring saved = .ok r ∧ r.Sound s.decoder ∧
        Restored s saved r (s.perform (.restore saved)).2 := by
  rw [perform]
  rcases (s.restore_harmless saved).cases with ⟨e, hr⟩ | ⟨_, t, hr⟩ <;> rw [hr]
  · exact .inl rfl
  · exact .inr (restore_ok hr)

end Session

end FieldEngine
