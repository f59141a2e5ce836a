import FieldEngine.Proofs.Script.Settings
import FieldEngine.Proofs.Session.Continuation
import FieldEngine.Proofs.Session.Editions
import FieldEngine.Proofs.Session.SavedBytes

/-!
# Loading a script leaves running instances alone

A load changes scripts only, so the session before it and the one after it are in step and stay so
(`InStep.after`). Saving and restoring keeps a session in step with itself, also if its decoder
settings have changed since its scripts were loaded: if all its scripts decode again at all, they
decode to the programs they had (`Grounded.reproducible`). So in the runs of both, with reloads at
any points of either, nothing tells whether the script was loaded:

    s.Runs ops replies u → (s.loadScript name source).2.Runs ops replies' u' → replies = replies' ∧
      u.field = u'.field ∧ u.scheduler.snapshot = u'.scheduler.snapshot ∧ u.timers = u'.timers
                                                                       (loadScript_undisturbing)
-/

namespace FieldEngine.Session

/-! ## Scripts that decode again -/

/-- Each step of a fold that succeeds has succeeded, from a state with what the steps keep. -/
theorem foldlM_each {ε α β : Type} {f : β → α → Except ε β} {P : β → Prop}
    (step : ∀ b a c, P b → f b a = .ok c → P c) (l : List α) {b c : β} (hb : P b)
    (h : l.foldlM f b = .ok c) : ∀ a ∈ l, ∃ d e, P d ∧ f d a = .ok e := by
  induction l generalizing b with
  | nil => simp
  | cons a l ih =>
    rw [List.foldlM_cons] at h
    cases ha : f b a with
    | error e => rw [ha] at h; cases h
    | ok d =>
      rw [ha] at h
      intro a' ha'
      rcases List.mem_cons.1 ha' with rfl | ha'
      · exact ⟨b, d, hb, ha⟩
      · exact ih (step b a d hb ha) h a' ha'

/-- A restore that gets past the scripts has decoded all of them. -/
theorem restoring_decodes {s : Session} {saved : SessionSnapshot} {r : Restoring}
    (h : s.restoring saved = .ok r) :
    (∀ e ∈ saved.scripts, ∃ program, decode s.decoder e.1 e.2 = .ok program) ∧
      ∀ e ∈ saved.detached, ∀ x, saved.scheduler.instances.find? (fun x => x.id == e.1) = some x →
        ∃ program, decode s.decoder x.script e.2 = .ok program := by
  obtain ⟨r₁, hscripts, hdetached⟩ := restoring_ok h
  have hscript : ∀ b a c, b.Sound s.decoder → Restoring.addScript s.decoder b a = .ok c →
      c.Sound s.decoder := fun _ _ _ hb hc => Restoring.sound_addScript hb hc
  have hstart := Restoring.sound_start s.decoder s.nextSerial
  constructor
  · intro e he
    obtain ⟨b, c, -, hc⟩ := foldlM_each hscript saved.scripts hstart hscripts e he
    obtain ⟨a, ha, -⟩ := Restoring.addScript_ok hc
    exact ⟨_, (Restoring.decodeSaved_ok ha).2.2.2⟩
  · have hr₁ := foldlM_ok hscript saved.scripts hstart hscripts
    intro e he x hx
    obtain ⟨b, c, hb, hc⟩ := foldlM_each
      (fun _ _ _ hb hc => Restoring.sound_addDetached hb hc) saved.detached hr₁ hdetached e he
    rcases Restoring.addDetached_ok hc with ⟨-, hnone⟩ | ⟨y, hy, hcases⟩
    · rw [hx] at hnone
      cases hnone
    · cases hx.symm.trans hy
      rcases hcases with ⟨a, ha, hsource, hname, -⟩ | ⟨a, ha, -⟩
      · -- the script is shared with one that was decoded before
        have hdecoded := hb.decoded a (.inr ha)
        rw [hname, hsource] at hdecoded
        exact ⟨_, hdecoded⟩
      · exact ⟨_, (Restoring.decodeSaved_ok ha).2.2.2⟩

/-- The bytes of an instance that does not run the registered edition are in the snapshot. -/
theorem mem_detached {s : Session} {i : Instance} (hi : i ∈ s.scheduler.instances)
    (hreg : ¬ s.runsRegistered i = true) {source : List UInt8} (h : s.sourceOf? i = some source) :
    (i.id, source) ∈ s.snapshot.detached := by
  refine List.mem_filterMap.2 ⟨i, hi, ?_⟩
  rw [if_neg hreg, h]
  rfl

/-- **If a snapshot can be restored,** its session is reproducible with the present settings. -/
theorem Grounded.reproducible {s t u : Session} (hs : s.Grounded) (hdec : t.decoder = s.decoder)
    (h : t.restore s.snapshot = (.ok (), u)) : s.Reproducible where
  toAccounted := hs.toAccounted
  toOrdered := hs.toOrdered
  decoded := by
    obtain ⟨r, hr, -, -⟩ := restore_ok h
    obtain ⟨hscripts, hdetached⟩ := restoring_decodes hr
    rw [hdec] at hscripts hdetached
    -- whatever the bytes of a known script decode to, it is the program of the script
    have hagree : ∀ a, s.Knows a →
        (∃ program, decode s.decoder a.edition.program.name a.source = .ok program) →
        decode s.decoder a.edition.program.name a.source = .ok a.edition.program := by
      rintro a ha ⟨program, hprogram⟩
      obtain ⟨config, hconfig⟩ := hs.decodes a ha
      rw [hprogram, decode_agree hprogram hconfig]
    have hregistered : ∀ (name : String) (a : LoadedScript), s.scripts[name]? = some a →
        decode s.decoder a.edition.program.name a.source = .ok a.edition.program := by
      intro name a ha
      refine hagree a (.inl ⟨name, ha⟩) ?_
      rw [hs.named name a ha]
      refine hscripts (name, a.source) (List.mem_map.2 ⟨(name, a), ?_, rfl⟩)
      exact Std.ExtTreeMap.mem_toList_iff_getElem?_eq_some.2 ha
    intro a ha
    rcases ha with ⟨name, ha⟩ | ha
    · exact hregistered name a ha
    · obtain ⟨i, hi, hia⟩ := hs.run_edition ha
      by_cases hreg : s.runsRegistered i = true
      · obtain ⟨b, hb, hserial⟩ := (runsRegistered_iff s i).1 hreg
        have hba : b = a := hs.unique b a (.inl ⟨_, hb⟩) (.inr ha) (by rw [hserial, hia])
        exact hregistered _ a (hba ▸ hb)
      · refine hagree a (.inr ha) ?_
        have hsource := hs.sourceOf?_eq (.inr ha) (congrArg Edition.serial hia.symm)
        have hdecodes := hdetached _ (mem_detached hi hreg hsource) _ (hs.find?_snapshot hi)
        rw [← hia]
        exact hdecodes

/-! ## Reloads -/

/-- What is read back after a save: the snapshot itself, or what its bytes hold. -/
def SavedAs (s : Session) (saved : SessionSnapshot) : Prop :=
  saved = s.snapshot ∨ s.snapshot.InRange ∧ SessionSnapshot.ofBytes? s.snapshot.toBytes = some saved

/-- The session is saved and restored, by itself or by another one of the same settings. If another
one refuses that, the host goes on with the session that it has; if the session itself does, with
what that leaves of it. -/
inductive Reload (s : Session) : Session → Prop
  | restored {host t : Session} {saved : SessionSnapshot} (decoder : host.decoder = s.decoder)
      (config : host.scheduler.config = s.scheduler.config) (read : s.SavedAs saved)
      (h : host.restore saved = (.ok (), t)) : Reload s t
  | kept {host : Session} {saved : SessionSnapshot} {e : Error} (read : s.SavedAs saved)
      (h : (host.restore saved).1 = .error e) : Reload s s
  | refused {t : Session} {saved : SessionSnapshot} {e : Error} (read : s.SavedAs saved)
      (h : s.restore saved = (.error e, t)) : Reload s t

theorem SavedAs.eq {s : Session} {saved : SessionSnapshot} (h : s.SavedAs saved) :
    saved = s.snapshot := by
  rcases h with h | ⟨hrange, hread⟩
  · exact h
  · have hpacked := SessionSnapshot.read_toBytes hrange []
    rw [List.append_nil] at hpacked
    unfold SessionSnapshot.ofBytes? at hread
    rw [hpacked] at hread
    exact Option.some.inj (hread.symm.trans (SessionSnapshot.carries (d := 0) hrange 0).reads)

/-- A reload leaves a session in step with itself. -/
theorem Reload.inStep {s t : Session} (h : s.Reload t) (hs : s.Grounded) :
    t.InStep s ∧ t.Grounded := by
  cases h with
  | kept => exact ⟨.refl s, hs⟩
  | refused _ h =>
    rw [(s.restore_harmless _).eq h]
    exact ⟨.refl s, hs⟩
  | restored hdec hconf hread hrestore =>
    cases hread.eq
    obtain ⟨u, hu, -, hcontent⟩ := restore_snapshot (hs.reproducible hdec hrestore) hdec hconf
    cases hrestore.symm.trans hu
    obtain ⟨r, hrestoring, -, hres⟩ := restore_ok hrestore
    exact ⟨inStep_of_content hcontent, .restored hs.toOrdered hrestoring hres⟩

theorem Reload.reproducible {s t : Session} (h : s.Reload t) (hs : s.Reproducible) :
    t.Reproducible := by
  cases h with
  | kept => exact hs
  | refused _ h =>
    rw [(s.restore_harmless _).eq h]
    exact hs
  | restored hdec hconf hread hrestore =>
    cases hread.eq
    obtain ⟨r, -, hsound, hres⟩ := restore_ok hrestore
    exact hs.restored hsound hres

/-! ## Runs -/

/-- The session `u` is reached from `s` by some operations with these replies. In between it may
have been reloaded, any number of times. -/
inductive Runs : Session → List Operation → List Reply → Session → Prop
  | nil (s : Session) : Runs s [] [] s
  | act {s u : Session} {op : Operation} {ops : List Operation} {replies : List Reply} :
      Runs (s.perform op).2 ops replies u → Runs s (op :: ops) ((s.perform op).1 :: replies) u
  | reload {s t u : Session} {ops : List Operation} {replies : List Reply} :
      s.Reload t → Runs t ops replies u → Runs s ops replies u

def replies (s : Session) : List Operation → List Reply
  | [] => []
  | op :: ops => (s.perform op).1 :: (s.perform op).2.replies ops

/-- Sessions in step stay so. -/
theorem InStep.after {s t : Session} (h : s.InStep t) (ops : List Operation)
    (hops : ∀ op ∈ ops, op.Drives) :
    s.replies ops = t.replies ops ∧ (s.after ops).InStep (t.after ops) := by
  induction ops generalizing s t with
  | nil => exact ⟨rfl, h⟩
  | cons op ops ih =>
    obtain ⟨hreply, hstep⟩ := h.perform (hops op List.mem_cons_self)
    obtain ⟨hreplies, hafter⟩ := ih hstep fun op' h' => hops op' (List.mem_cons_of_mem op h')
    refine ⟨?_, hafter⟩
    rw [replies, replies, hreply, hreplies]

theorem drives_ne_restore {op : Operation} (h : op.Drives) (saved : SessionSnapshot) :
    op ≠ .restore saved := by
  rintro rfl
  exact h

/-- **Reloads go unnoticed**: a run is in step with the one that has no reloads. -/
theorem Runs.inStep {s u : Session} {ops : List Operation} {replies : List Reply}
    (h : s.Runs ops replies u) (hs : s.Grounded) (hops : ∀ op ∈ ops, op.Drives) :
    replies = s.replies ops ∧ u.InStep (s.after ops) := by
  induction h with
  | nil s => exact ⟨rfl, .refl s⟩
  | act _ ih =>
    rename_i s u op ops replies _
    have hop := drives_ne_restore (hops op List.mem_cons_self)
    obtain ⟨hreplies, hstep⟩ := ih (hs.transition (perform_transition s op hop))
      fun op' h' => hops op' (List.mem_cons_of_mem op h')
    exact ⟨congrArg _ hreplies, hstep⟩
  | reload hreload _ ih =>
    obtain ⟨hself, ht⟩ := hreload.inStep hs
    obtain ⟨hreplies, hstep⟩ := ih ht hops
    obtain ⟨hreplies', hstep'⟩ := hself.after _ hops
    exact ⟨hreplies.trans hreplies', hstep.trans hstep'⟩

theorem Runs.reproducible {s u : Session} {ops : List Operation} {replies : List Reply}
    (h : s.Runs ops replies u) (hs : s.Reproducible) (hops : ∀ op ∈ ops, op.Drives) :
    u.Reproducible := by
  induction h with
  | nil s => exact hs
  | act _ ih =>
    rename_i s u op ops replies _
    have hop := drives_ne_restore (hops op List.mem_cons_self)
    exact ih (hs.transition (perform_transition s op hop))
      fun op' h' => hops op' (List.mem_cons_of_mem op h')
  | reload hreload _ ih => exact ih (hreload.reproducible hs) hops

/-- A load changes scripts only. -/
theorem inStep_loadScript (s : Session) (name : String) (source : List UInt8) :
    s.InStep (s.loadScript name source).2 := by
  cases hd : decode s.decoder name source with
  | error e =>
    rw [loadScript_error s hd]
    exact ⟨rfl, rfl, rfl⟩
  | ok program =>
    have hloaded := (loadScript_ok s hd).2
    exact ⟨hloaded.field.symm, congrArg _ hloaded.scheduler.symm, hloaded.timers.symm⟩

/-- Every session of the same settings restores the snapshot. -/
def Restorable (s : Session) : Prop :=
  ∀ host : Session, host.decoder = s.decoder → host.scheduler.config = s.scheduler.config →
    ∃ t, host.restore s.snapshot = (.ok (), t)

theorem Reproducible.restorable {s : Session} (hs : s.Reproducible) : s.Restorable := by
  intro host hdec hconf
  obtain ⟨t, ht, -, -⟩ := restore_snapshot hs hdec hconf
  exact ⟨t, ht⟩

/-- **Loading a script disturbs no running instance**, whether it replaces a script or not, and
whether it succeeds or not: what is done to the session and to the one after the load gives the same
replies and ends with the same field, instances and timers, with any reloads on either side. If the
decoder settings have not changed since the first load, no reload is ever refused. -/
theorem loadScript_undisturbing {s : Session} (hs : s.Attained fun _ => True) (name : String)
    (source : List UInt8) {ops : List Operation} (hops : ∀ op ∈ ops, op.Drives)
    {replies replies' : List Reply} {u u' : Session} (hu : s.Runs ops replies u)
    (hu' : (s.loadScript name source).2.Runs ops replies' u') :
    replies = replies' ∧ u.field = u'.field ∧ u.scheduler.snapshot = u'.scheduler.snapshot ∧
      u.timers = u'.timers ∧ (s.Attained Blank → u.Restorable ∧ u'.Restorable) := by
  have hload := loadScript_transition s name source
  obtain ⟨hreplies, hstep⟩ := hu.inStep hs.grounded hops
  obtain ⟨hreplies', hstep'⟩ := hu'.inStep (hs.grounded.transition hload) hops
  obtain ⟨hsame, hafter⟩ := (inStep_loadScript s name source).after ops hops
  have hends : u.InStep u' := (hstep.trans hafter).trans hstep'.symm
  refine ⟨?_, hends.field, hends.snapshot, hends.timers, ?_⟩
  · rw [hreplies, hreplies', hsame]
  · intro hblank
    exact ⟨(hu.reproducible hblank.reproducible hops).restorable,
      (hu'.reproducible (hblank.reproducible.transition hload) hops).restorable⟩

/-- A case in which the script of a waiting instance is replaced, and both sessions are reloaded
before the wait ends, the one by itself and the other, after two ticks, by a new session. -/
theorem loadScript_undisturbing_replaced :
    let s := (ofSeed 7).after [.edit (.place "npc"),
      .load "door" [0x03, 0x00, 0x07, 0x00, 0x00, 0x00, 0x23, 0x00], .spawn "door" ⟨0, 1⟩, .tick]
    let s' := (s.loadScript "door" []).2
    s.scheduler.instances.map Instance.status = [.suspended (.timer 3)] ∧ s'.retired.length = 1 ∧
      ∃ t t', s.restore s.snapshot = (.ok (), t) ∧
        (ofSeed 0).restore (s'.after [.tick, .tick]).snapshot = (.ok (), t') ∧
        let u := t.after [.tick, .tick, .tick]
        let u' := t'.after [.tick]
        t.replies [.tick, .tick, .tick] = s'.replies [.tick, .tick] ++ t'.replies [.tick] ∧
          u.field = u'.field ∧ u.scheduler.snapshot = u'.scheduler.snapshot ∧
          u.timers = u'.timers := by
  intro s s'
  have hs : s.Attained fun _ => True := Attained.after (.start _) _ (by simp)
  have hblank : s.Attained Blank := Attained.after (.start _) _ (by simp)
  have hwaits : (s'.after [.tick, .tick]).Attained Blank :=
    (hblank.step (.load "door" []) nofun).after _ (by simp)
  obtain ⟨t, ht⟩ := hblank.reproducible.restorable s rfl rfl
  obtain ⟨t', ht'⟩ := hwaits.reproducible.restorable (ofSeed 0) (by decide) (by decide)
  have hu : s.Runs [.tick, .tick, .tick] _ (t.after [.tick, .tick, .tick]) :=
    .reload (.restored rfl rfl (.inl rfl) ht) (.act (.act (.act (.nil _))))
  have hu' : s'.Runs [.tick, .tick, .tick] _ (t'.after [.tick]) :=
    .act (.act (.reload (.restored (by decide) (by decide) (.inl rfl) ht') (.act (.nil _))))
  have hops : ∀ op ∈ [Operation.tick, .tick, .tick], op.Drives := by simp [Operation.Drives]
  obtain ⟨hreplies, hfield, hsnapshot, htimers, -⟩ :=
    loadScript_undisturbing hs "door" [] hops hu hu'
  exact ⟨by decide, by decide, t, t', ht, ht', hreplies, hfield, hsnapshot, htimers⟩

end FieldEngine.Session
