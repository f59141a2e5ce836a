import FieldEngine.Proofs.Script.Settings
import FieldEngine.Proofs.Session.Restoring

/-!
# Sessions under other decoder settings

A session looks at its decoder settings only when it loads a script or restores a snapshot, and
settings that accept the same bytes decode them to the same program. So an operation that two
settings carry out ends alike under both, and so does a whole run:

    s.Takes op → (s.withDecoder config).Takes op →
      (s.withDecoder config).perform op =
        ((s.perform op).1, (s.perform op).2.withDecoder config)          (perform_withDecoder)
    s.Accepts ops → (s.withDecoder config).Accepts ops →
      (s.withDecoder config).trail ops = s.trail ops                       (trail_withDecoder)

Main statement: whatever the settings, a script comes to the same program or the same error, unless
the tighter settings refuse it for the very thing in which they are tighter; and what two settings
accept runs the same (`decoder_settings_agree`).
-/

namespace FieldEngine

def Operation.Decodes : Operation → Prop
  | .load _ _ | .restore _ => True
  | _ => False

namespace Session

/-- The session carries out the operation, if that is one that decodes scripts. -/
def Takes (s : Session) (op : Operation) : Prop :=
  op.Decodes → ∀ e, (s.perform op).1 ≠ .failed e

/-- The session carries out all operations that decode scripts. -/
def Accepts (s : Session) : List Operation → Prop
  | [] => True
  | op :: ops => s.Takes op ∧ (s.perform op).2.Accepts ops

/-! ## Loading -/

theorem decode_of_takes {s : Session} {name : String} {source : List UInt8}
    (h : s.Takes (.load name source)) :
    ∃ program, decode s.decoder name source = .ok program := by
  have hload : ∀ e, (s.perform (.load name source)).1 ≠ .failed e := h trivial
  rw [perform, loadScript] at hload
  cases hdecode : decode s.decoder name source with
  | error e =>
    simp only [hdecode] at hload
    exact absurd rfl (hload _)
  | ok program => exact ⟨program, rfl⟩

theorem loadScript_withDecoder {s : Session} {config : DecoderConfig} {name : String}
    {source : List UInt8} (h : s.Takes (.load name source))
    (h' : (s.withDecoder config).Takes (.load name source)) :
    (s.withDecoder config).loadScript name source =
      ((s.loadScript name source).1, (s.loadScript name source).2.withDecoder config) := by
  obtain ⟨program, hdecode⟩ := decode_of_takes h
  obtain ⟨program', hdecode'⟩ := decode_of_takes h'
  cases decode_agree hdecode hdecode'
  have hscripts : ∀ event, ((s.withDecoder config).record event).scripts = s.scripts :=
    fun _ => rfl
  have hown : ∀ event, (s.record event).scripts = s.scripts := fun _ => rfl
  unfold loadScript
  rw [hdecode, hdecode']
  simp only [hscripts, hown]
  cases s.scripts[name]? with
  | none => rfl
  | some replaced => rfl

/-! ## Restoring -/

/-- Two folds agree where both succeed, if their steps do. -/
theorem foldlM_agree {ε α β : Type} {f g : β → α → Except ε β}
    (step : ∀ b a x y, f b a = .ok x → g b a = .ok y → x = y) (l : List α) {b x y : β}
    (hf : l.foldlM f b = .ok x) (hg : l.foldlM g b = .ok y) : x = y := by
  induction l generalizing b with
  | nil =>
    cases hf
    cases hg
    rfl
  | cons a l ih =>
    rw [List.foldlM_cons] at hf hg
    cases hfa : f b a with
    | error e => rw [hfa] at hf; cases hf
    | ok c =>
      cases hga : g b a with
      | error e => rw [hga] at hg; cases hg
      | ok d =>
        cases step b a c d hfa hga
        rw [hfa] at hf
        rw [hga] at hg
        exact ih hf hg

namespace Restoring

variable {c c' : DecoderConfig} {r x y : Restoring}

theorem decodeSaved_agree {name : String} {source : List UInt8} {a b : LoadedScript}
    (ha : r.decodeSaved c name source = .ok a) (hb : r.decodeSaved c' name source = .ok b) :
    a = b := by
  obtain ⟨hsource, hserial, -, hdecode⟩ := decodeSaved_ok ha
  obtain ⟨hsource', hserial', -, hdecode'⟩ := decodeSaved_ok hb
  have hprogram := decode_agree hdecode hdecode'
  obtain ⟨sourceA, serialA, programA⟩ := a
  obtain ⟨sourceB, serialB, programB⟩ := b
  simp only at hsource hsource' hserial hserial' hprogram
  rw [hsource, hsource', hserial, hserial', hprogram]

theorem addScript_agree {saved : String × List UInt8} (hx : addScript c r saved = .ok x)
    (hy : addScript c' r saved = .ok y) : x = y := by
  obtain ⟨a, ha, rfl⟩ := addScript_ok hx
  obtain ⟨b, hb, rfl⟩ := addScript_ok hy
  cases decodeSaved_agree ha hb
  rfl

theorem addDetached_agree {instances : List InstanceSnapshot} {saved : Nat × List UInt8}
    (hx : addDetached c instances r saved = .ok x)
    (hy : addDetached c' instances r saved = .ok y) : x = y := by
  unfold addDetached at hx hy
  cases hfind : instances.find? fun i => i.id == saved.1 with
  | none =>
    simp only [hfind] at hx hy
    cases hx
    cases hy
    rfl
  | some i =>
    simp only [hfind] at hx hy
    cases hshared : r.retired.find? fun script =>
        script.source == saved.2 && script.edition.program.name == i.script with
    | some script =>
      simp only [hshared] at hx hy
      cases hx
      cases hy
      rfl
    | none =>
      simp only [hshared] at hx hy
      cases ha : r.decodeSaved c i.script saved.2 with
      | error e => rw [ha] at hx; cases hx
      | ok a =>
        cases hb : r.decodeSaved c' i.script saved.2 with
        | error e => rw [hb] at hy; cases hy
        | ok b =>
          cases decodeSaved_agree ha hb
          rw [ha] at hx
          rw [hb] at hy
          cases hx
          cases hy
          rfl

end Restoring

theorem restoring_agree {s : Session} {config : DecoderConfig} {saved : SessionSnapshot}
    {x y : Restoring} (hx : s.restoring saved = .ok x)
    (hy : (s.withDecoder config).restoring saved = .ok y) : x = y := by
  obtain ⟨a, hscripts, hx⟩ := restoring_ok hx
  obtain ⟨b, hscripts', hy⟩ := restoring_ok hy
  cases foldlM_agree (fun _ _ _ _ => Restoring.addScript_agree) saved.scripts hscripts hscripts'
  exact foldlM_agree (fun _ _ _ _ => Restoring.addDetached_agree) saved.detached hx hy

theorem restore_ok_of_takes {s : Session} {saved : SessionSnapshot}
    (h : s.Takes (.restore saved)) : ∃ t, s.restore saved = (.ok (), t) := by
  have hrestore : ∀ e, (s.perform (.restore saved)).1 ≠ .failed e := h trivial
  rw [perform] at hrestore
  rcases (s.restore_harmless saved).cases with ⟨e, ht⟩ | ⟨_, t, ht⟩
  · rw [ht] at hrestore
    exact absurd rfl (hrestore e)
  · exact ⟨t, ht⟩

theorem restore_withDecoder {s : Session} {config : DecoderConfig} {saved : SessionSnapshot}
    (h : s.Takes (.restore saved)) (h' : (s.withDecoder config).Takes (.restore saved)) :
    (s.withDecoder config).restore saved =
      ((s.restore saved).1, (s.restore saved).2.withDecoder config) := by
  obtain ⟨t, ht⟩ := restore_ok_of_takes h
  obtain ⟨t', ht'⟩ := restore_ok_of_takes h'
  obtain ⟨r, hr, -⟩ := restore_ok ht
  obtain ⟨r', hr', -⟩ := restore_ok ht'
  cases restoring_agree hr hr'
  have hscheduler : (s.withDecoder config).scheduler = s.scheduler := rfl
  rw [restore_eq, restore_eq, hr, hr', hscheduler]
  dsimp only
  rcases s.scheduler.restore saved.scheduler r.edition? with ⟨e | _, scheduler⟩ <;> rfl

/-! ## All operations -/

theorem releaseTimers_withDecoder (s : Session) (config : DecoderConfig) (ids : List Nat) :
    ids.foldl releaseTimer (s.withDecoder config) =
      (ids.foldl releaseTimer s).withDecoder config := by
  induction ids generalizing s with
  | nil => rfl
  | cons id ids ih => exact ih (s.releaseTimer id)

theorem tick_withDecoder (s : Session) (config : DecoderConfig) :
    (s.withDecoder config).tick = (s.tick.1, s.tick.2.withDecoder config) := by
  have hdue : (s.withDecoder config).dueTimers = s.dueTimers := rfl
  unfold tick
  rw [hdue, releaseTimers_withDecoder]
  rfl

/-- **One operation** that two settings carry out ends alike under both. -/
theorem perform_withDecoder {s : Session} {config : DecoderConfig} {op : Operation}
    (h : s.Takes op) (h' : (s.withDecoder config).Takes op) :
    (s.withDecoder config).perform op =
      ((s.perform op).1, (s.perform op).2.withDecoder config) := by
  cases op with
  | load name source =>
    rw [perform, perform, loadScript_withDecoder h h']
    rfl
  | restore saved =>
    rw [perform, perform, restore_withDecoder h h']
    rfl
  | tick =>
    rw [perform, perform, tick_withDecoder]
    rfl
  | spawn script owner =>
    have hscripts : (s.withDecoder config).scripts = s.scripts := rfl
    have hfield : (s.withDecoder config).field = s.field := rfl
    rw [perform, perform, spawn, spawn, hscripts, hfield]
    cases s.scripts[script]? with
    | none => rfl
    | some loaded =>
      dsimp only
      cases s.field.entity owner with
      | error fault => rfl
      | ok record => rfl
  | resume id =>
    have hscheduler : (s.withDecoder config).scheduler = s.scheduler := rfl
    rw [perform, perform, resume, resume, hscheduler]
    rcases s.scheduler.resume id with ⟨e | _, scheduler⟩ <;> rfl
  | cancel id =>
    have hscheduler : (s.withDecoder config).scheduler = s.scheduler := rfl
    rw [perform, perform, cancel, cancel, hscheduler]
    rcases s.scheduler.cancel id with ⟨e | removed, scheduler⟩ <;> rfl
  | _ => rfl

/-- **A run** in which two settings carry out all that is to be decoded: the host sees the same. -/
theorem trail_withDecoder {s : Session} {config : DecoderConfig} {ops : List Operation}
    (h : s.Accepts ops) (h' : (s.withDecoder config).Accepts ops) :
    (s.withDecoder config).trail ops = s.trail ops := by
  induction ops generalizing s with
  | nil => rfl
  | cons op ops ih =>
    have hperform := perform_withDecoder h.1 h'.1
    have hrest : ((s.perform op).2.withDecoder config).Accepts ops := by
      have := h'.2
      rwa [hperform] at this
    rw [trail, trail, hperform]
    dsimp only
    rw [ih h.2 hrest]
    rfl

end Session

/-! ## All settings -/

/-- **Decoder settings agree.** Under a lower depth limit a script overflows the operand stack, at
that limit, or comes to the same program or the same error; decoded strictly it leaves operands on
the stack, or comes to the same as if decoded leniently. So all settings that accept a script give
it the same program, and a run whose loads and restores they accept looks the same under each. -/
theorem decoder_settings_agree :
    (∀ (name : String) (source : List UInt8),
      (∀ (strict : Bool) (d d' : Nat), d ≤ d' →
        (∃ offset, decode ⟨d, strict⟩ name source = .error (.stackOverflow offset d)) ∨
          decode ⟨d, strict⟩ name source = decode ⟨d', strict⟩ name source) ∧
      (∀ d : Nat,
        (∃ offset mnemonic depth,
          decode ⟨d, true⟩ name source = .error (.stackImbalance offset mnemonic depth)) ∨
          decode ⟨d, true⟩ name source = decode ⟨d, false⟩ name source) ∧
      ∀ c c' program program', decode c name source = .ok program →
        decode c' name source = .ok program' → program = program') ∧
    ∀ (s : Session) (config : DecoderConfig) (ops : List Operation), s.Accepts ops →
      (s.withDecoder config).Accepts ops → (s.withDecoder config).trail ops = s.trail ops := by
  refine ⟨fun name source => ⟨?_, ?_, ?_⟩, ?_⟩
  · intro strict d d' hle
    have htighter : DecoderConfig.Tighter ⟨d, strict⟩ ⟨d', strict⟩ := ⟨hle, id⟩
    rcases decode_generous htighter name source with ⟨e, he, hblames⟩ | heq
    · -- the settings are equally strict, so only the limit can be to blame
      cases e with
      | stackOverflow offset limit =>
        obtain ⟨rfl, -⟩ := hblames
        exact .inl ⟨offset, he⟩
      | stackImbalance offset mnemonic depth =>
        obtain ⟨htrue, hfalse⟩ := hblames
        rw [htrue] at hfalse
        cases hfalse
      | _ => exact hblames.elim
    · exact .inr heq
  · intro d
    have htighter : DecoderConfig.Tighter ⟨d, true⟩ ⟨d, false⟩ := ⟨Nat.le_refl d, fun _ => rfl⟩
    rcases decode_generous htighter name source with ⟨e, he, hblames⟩ | heq
    · cases e with
      | stackImbalance offset mnemonic depth => exact .inl ⟨offset, mnemonic, depth, he⟩
      | stackOverflow offset limit => exact absurd hblames.2 (Nat.lt_irrefl d)
      | _ => exact hblames.elim
    · exact .inr heq
  · intro c c' program program' h h'
    exact decode_agree h h'
  · intro s config ops h h'
    exact Session.trail_withDecoder h h'

/-- A message of two operands: a limit of one overflows at the second push; a limit of two and the
usual one give the same program, and the same is seen when it is loaded and started. -/
theorem decoder_settings_agree_message :
    let source : List UInt8 := [1, 0, 7, 0, 2, 0, 7, 0, 0, 0, 36, 0]
    let ops : List Operation :=
      [.load "talk" source, .edit (.place "npc"), .spawn "talk" ⟨0, 1⟩, .tick]
    let s := (Session.ofSeed 0).withDecoder ⟨2, true⟩
    decode ⟨1, true⟩ "talk" source = .error (.stackOverflow 4 1) ∧
      decode ⟨2, true⟩ "talk" source = decode ⟨64, true⟩ "talk" source ∧
      s.Accepts ops ∧ (s.withDecoder ⟨64, false⟩).trail ops = s.trail ops := by
  intro source ops s
  obtain ⟨hdecode, hrun⟩ := decoder_settings_agree
  have hok : decode ⟨2, true⟩ "talk" source =
      .ok ⟨"talk", #[(0, .message (.const 1) (.const 2))], 12⟩ := by rfl
  have hsame : decode ⟨2, true⟩ "talk" source = decode ⟨64, true⟩ "talk" source := by
    rcases (hdecode "talk" source).1 true 2 64 (by decide) with ⟨offset, h⟩ | h
    · rw [hok] at h
      cases h
    · exact h
  have haccepts : ∀ config : DecoderConfig, decode config "talk" source =
      .ok ⟨"talk", #[(0, .message (.const 1) (.const 2))], 12⟩ →
      ((Session.ofSeed 0).withDecoder config).Accepts ops := by
    intro config hconfig
    refine ⟨?_, False.elim, False.elim, False.elim, trivial⟩
    intro _ e
    have hdecoder : ((Session.ofSeed 0).withDecoder config).decoder = config := rfl
    rw [Session.perform, Session.loadScript, hdecoder, hconfig]
    intro heq
    cases heq
  refine ⟨rfl, hsame, haccepts _ hok, hrun s ⟨64, false⟩ ops (haccepts _ hok) ?_⟩
  exact haccepts ⟨64, false⟩ rfl

end FieldEngine
