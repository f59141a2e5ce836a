import FieldEngine.Console.Basic
import FieldEngine.Host.Disk
import FieldEngine.Proofs.Field.Refusals
import FieldEngine.Proofs.Session.Transition

/-!
# Failures leave a session as it is

An operation of a session that fails, and a console line that fails, change nothing but the trace,
which may get the record of a script that does not decode (`Session.Unharmed`). This holds of every
session, however it came about, of the restore of every snapshot, and of every store from which
files are read:

    s.perform op = (.failed e, t) → s.Unharmed e t                            (perform_failed)
    (eval s line).run store = ((.error e, t), store') → s.Unharmed e t           (eval_failed)
-/

namespace FieldEngine

namespace Session

/-- What the failure `e` leaves of the session `s`. -/
structure Unharmed (s : Session) (e : Error) (t : Session) : Prop where
  /-- All but the trace is as before. -/
  rest : t = { s with tracer := t.tracer }
  /-- So is the trace, but for the record of a script that does not decode. -/
  trace : t.tracer = s.tracer ∨ ∃ name error,
    e = ⟨.decode error, some ⟨some name, error.offset?⟩⟩ ∧
      t.tracer = s.tracer.record (.decodeFailed name error)

theorem Unharmed.of_eq {s t : Session} {e : Error} (h : t = s) : s.Unharmed e t := by
  rw [h]
  exact ⟨rfl, .inl rfl⟩

/-! ## Operations -/

theorem loadScript_failed {s t : Session} {name : String} {source : List UInt8} {e : Error}
    (h : s.loadScript name source = (.error e, t)) : s.Unharmed e t := by
  cases hd : decode s.decoder name source with
  | error error =>
    rw [loadScript_error s hd] at h
    cases h
    exact ⟨rfl, .inr ⟨name, error, rfl, rfl⟩⟩
  | ok program =>
    have hloaded := (loadScript_ok s hd).1
    rw [h] at hloaded
    cases hloaded

theorem ofResult_failed {α : Type} {r : Except Error α × Session} {reply : α → Reply} {e : Error}
    {t : Session} (h : r.map (Reply.ofResult reply) id = (.failed e, t))
    (hreply : ∀ a, reply a ≠ .failed e) : r = (.error e, t) := by
  obtain ⟨result, u⟩ := r
  cases result with
  | error e' =>
    cases h
    rfl
  | ok a => exact absurd (congrArg Prod.fst h) (hreply a)

theorem ofChange_ne_failed {α : Type} {reply : α → Reply} {e : Error}
    (hreply : ∀ a, reply a ≠ .failed e) (r : Except Fault α) :
    Reply.ofChange reply r ≠ .failed e := by
  cases r with
  | error fault => nofun
  | ok a => exact hreply a

/-- An edit of the field faults, or succeeds; it never gives an error of the engine. -/
theorem edit_ne_failed (f : Field) (edit : HostEdit) (e : Error) :
    (f.edit edit).1 ≠ .failed e := by
  cases edit with
  | place name => nofun
  | remove _ | write _ _ _ | setFlag _ _ | setPassable _ _ =>
    refine ofChange_ne_failed ?_ _
    nofun
  | draw count => nofun

/-- **An operation that fails** leaves the session as it was, its trace apart. -/
theorem perform_failed {s t : Session} {op : Operation} {e : Error}
    (h : s.perform op = (.failed e, t)) : s.Unharmed e t := by
  cases op with
  | edit edit => exact absurd (congrArg Prod.fst h) (edit_ne_failed s.field edit e)
  | load name source => exact loadScript_failed (ofResult_failed h fun _ => nofun)
  | spawn script owner =>
    exact .of_eq ((s.spawn_harmless script owner).eq (ofResult_failed h fun _ => nofun))
  | resume id => exact .of_eq ((s.resume_harmless id).eq (ofResult_failed h fun _ => nofun))
  | cancel id => exact .of_eq ((s.cancel_harmless id).eq (ofResult_failed h fun _ => nofun))
  | restore saved =>
    exact .of_eq ((s.restore_harmless saved).eq (ofResult_failed h fun _ => nofun))
  | _ => cases h

end Session

namespace Console

open Session

/-! ## Commands -/

theorem answer_failed {α : Type} {r : Except Error α × Session} {text : α → String} {e : Error}
    {t : Session} (h : answer r text = (.error e, t)) : r = (.error e, t) := by
  obtain ⟨result, u⟩ := r
  cases result with
  | error e' =>
    cases h
    rfl
  | ok a => cases h

theorem answer_harmless {α : Type} {s : Session} {r : Except Error α × Session}
    (h : Harmless s r) (text : α → String) : Harmless s (answer r text) :=
  fun _ he => h.eq (answer_failed (Prod.ext he rfl))

theorem answerChange_harmless {s : Session} {change : Except Fault Unit × Field}
    (h : Harmless s.field change) (text : String) : Harmless s (answerChange s change text) := by
  rcases h.cases with ⟨fault, rfl⟩ | ⟨_, field, rfl⟩
  · exact .error _
  · exact .ok text

theorem executeLocal_harmless (s : Session) (command : Command) :
    Harmless s (executeLocal s command) := by
  cases command with
  | spawn script owner =>
    rw [executeLocal]
    split
    · exact .error _
    · exact answer_harmless (s.spawn_harmless script _) _
  | notify event =>
    rw [executeLocal]
    split
    · exact .error _
    · exact .ok _
  | resume id => exact answer_harmless (s.resume_harmless id) _
  | cancel id =>
    cases id with
    | none => exact .ok _
    | some id => exact answer_harmless (s.cancel_harmless id) _
  | disasm script => exact fun _ _ => rfl
  | peek bank index => exact fun _ _ => rfl
  | poke bank index value => exact answerChange_harmless (s.field.write_harmless bank index value) _
  | flag index value =>
    cases value with
    | none => exact fun _ _ => rfl
    | some value => exact answerChange_harmless (s.field.setFlag_harmless index value) _
  | _ => exact .ok _

theorem restoreBytes_harmless (s : Session) (bytes : List UInt8) :
    Harmless s (restoreBytes s bytes) := by
  unfold restoreBytes
  split
  · exact .error _
  · exact s.restore_harmless _

theorem loadBytes_failed {s t : Session} {name : String} {source : List UInt8} {e : Error}
    (h : loadBytes s name source = (.error e, t)) : s.Unharmed e t :=
  loadScript_failed (answer_failed h)

/-! ## Files -/

section Files

variable {σ : Type} [FileStore (StateM σ)] {s t : Session} {e : Error} {store store' : σ}

theorem loadFile_failed {path : String} {name : Option String}
    (h : (loadFile s path name : StateM σ Answer).run store = ((.error e, t), store')) :
    s.Unharmed e t := by
  unfold loadFile at h
  rw [StateT.run_bind] at h
  cases hread : (FileStore.readFile path : StateM σ _).run store with
  | mk result later =>
    rw [hread] at h
    cases result with
    | error error =>
      cases h
      exact .of_eq rfl
    | ok source => exact loadBytes_failed (congrArg Prod.fst h)

theorem saveFile_failed {path : String}
    (h : (saveFile s path : StateM σ Answer).run store = ((.error e, t), store')) : t = s := by
  unfold saveFile at h
  rw [StateT.run_bind] at h
  cases hwrite : (FileStore.writeFile path s.snapshot.toBytes : StateM σ _).run store with
  | mk result later =>
    rw [hwrite] at h
    cases result with
    | error error =>
      cases h
      rfl
    | ok _ => cases h

theorem restoreFile_failed {path : String}
    (h : (restoreFile s path : StateM σ Answer).run store = ((.error e, t), store')) : t = s := by
  unfold restoreFile at h
  rw [StateT.run_bind] at h
  cases hread : (FileStore.readFile path : StateM σ _).run store with
  | mk result later =>
    rw [hread] at h
    cases result with
    | error error => cases error <;> cases h <;> rfl
    | ok bytes =>
      exact (answer_harmless (restoreBytes_harmless s bytes) _).eq (congrArg Prod.fst h)

/-- **A command that fails** leaves the session as it was, its trace apart. -/
theorem execute_failed {command : Command}
    (h : (execute s command : StateM σ Answer).run store = ((.error e, t), store')) :
    s.Unharmed e t := by
  have hlocal : executeLocal s command = (.error e, t) → s.Unharmed e t :=
    fun hanswer => .of_eq ((executeLocal_harmless s command).eq hanswer)
  cases command with
  | load path name => exact loadFile_failed h
  | save path => exact .of_eq (saveFile_failed h)
  | restore path => exact .of_eq (restoreFile_failed h)
  | _ => exact hlocal (congrArg Prod.fst h)

/-- **A line that fails**, also one that is no command. -/
theorem eval_failed {line : String}
    (h : (eval s line : StateM σ _).run store = ((.error e, t), store')) : s.Unharmed e t := by
  unfold eval at h
  cases hparse : Command.parse line with
  | error error =>
    rw [hparse] at h
    cases h
    exact .of_eq rfl
  | ok command =>
    rw [hparse] at h
    split at h
    · rename_i heq
      cases heq
    · cases h
    · cases h
    · -- a command that is not `quit`
      rename_i command _ _
      rw [StateT.run_bind] at h
      cases hexecute : (execute s command : StateM σ Answer).run store with
      | mk answer later =>
        obtain ⟨result, u⟩ := answer
        rw [hexecute] at h
        cases result with
        | ok text => cases h
        | error error =>
          cases h
          exact execute_failed hexecute

end Files

/-- **Failures are harmless.** Whatever operation, command or line fails, in whatever session, it
leaves the session as it was, its trace apart. -/
theorem failure_harmless (s : Session) :
    (∀ op e t, s.perform op = (.failed e, t) → s.Unharmed e t) ∧
      ∀ (σ : Type) [FileStore (StateM σ)] (store store' : σ) (e : Error) (t : Session),
        (∀ command, (execute s command : StateM σ _).run store = ((.error e, t), store') →
          s.Unharmed e t) ∧
        ∀ line, (eval s line : StateM σ _).run store = ((.error e, t), store') →
          s.Unharmed e t := by
  refine ⟨fun op e t h => perform_failed h, ?_⟩
  intro σ _ store store' e t
  exact ⟨fun command h => execute_failed h, fun line h => eval_failed h⟩

/-- Cases with an instance in the session and its trace on: a script that ends too early, which is
recorded, a snapshot without the script of its instance, and a line that is no command. -/
theorem failure_harmless_traced :
    let s := (ofSeed 7).after [.setTracing true, .edit (.place "npc"),
      .load "door" [0x03, 0x00, 0x07, 0x00, 0x00, 0x00, 0x23, 0x00], .spawn "door" ⟨0, 1⟩, .tick]
    let load := s.perform (.load "door" [0xFF])
    let restore := s.perform (.restore { s.snapshot with scripts := [] })
    let line := (eval s "jump" : StateM Disk _).run .empty
    let e : Error := ⟨.decode (.truncated 0 3), some ⟨some "door", some 0⟩⟩
    load.1 = .failed e ∧ load.2.tracer ≠ s.tracer ∧ s.Unharmed e load.2 ∧
      restore.1 = .failed (.of (.unknownScript "door")) ∧
      s.Unharmed (.of (.unknownScript "door")) restore.2 ∧
      line.1.1 = .error (CommandError.unknown "jump").toError ∧
      s.Unharmed (CommandError.unknown "jump").toError line.1.2 := by
  intro s load restore line e
  obtain ⟨hop, hconsole⟩ := failure_harmless s
  have hload : load.1 = .failed e := by decide
  have hrestore : restore.1 = .failed (.of (.unknownScript "door")) := by decide
  have hline : line.1.1 = .error (CommandError.unknown "jump").toError := by
    have hparse : Command.parse "jump" = .error (.unknown "jump") := by
      have hwords : Text.words "jump" = ["jump"] := by decide
      have hcommand : ¬ "jump".startsWith "#" = true := by simp
      unfold Command.parse
      rw [hwords]
      exact if_neg hcommand
    show ((eval s "jump" : StateM Disk _).run .empty).1.1 = _
    unfold eval
    rw [hparse]
    rfl
  refine ⟨hload, by decide, hop _ _ _ (Prod.ext hload rfl), hrestore,
    hop _ _ _ (Prod.ext hrestore rfl), hline, ?_⟩
  exact (hconsole Disk .empty line.2 _ _).2 "jump" (Prod.ext (Prod.ext hline rfl) rfl)

end Console

end FieldEngine
