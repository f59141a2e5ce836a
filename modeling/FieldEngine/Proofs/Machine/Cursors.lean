import Mathlib.Data.List.Induction
import FieldEngine.Proofs.Machine.Steps
import FieldEngine.Proofs.Script.Targets

/-!
# Cursors along a run

A step leaves a cursor where it is, or takes it to the next instruction, to the target of a jump,
into a call or back from one (`Cursor.Moves`). What every cursor of a run satisfies follows from
that, however the field changes between the steps: it is in its program, no more calls are pending
than the limit allows, and each of them returns to the instruction after a call (`Cursor.Placed`).

In a run, calls and returns are brackets. Which return closes which call is told by counting them
(`Cursor.Matches`), without a look at the stack. Main statement: `cursor_along_run`.
-/

namespace FieldEngine

/-! ## One step -/

theorem Program.resolve?_le {p : Program} {target : Int} {pc : Nat}
    (h : p.resolve? target = some pc) : pc ≤ p.size := by
  rcases resolve?_eq_some_iff.1 h with ⟨-, rfl⟩ | ⟨-, offset, -, hoffset, -⟩
  · exact Nat.le_refl _
  · exact Nat.le_of_lt (lt_size_of_offsetOf? hoffset)

/-- How many more returns are pending once the instruction has gone on. -/
def Instruction.opens : Instruction → Int
  | call _ => 1
  | ret => -1
  | _ => 0

namespace Cursor

/-- How a step can end and where it can take a cursor. -/
inductive Moves (p : Program) (limit : Nat) (c : Cursor) : Except Fault Step → Cursor → Prop
  | faulted (f : Fault) : Moves p limit c (.error f) c
  | ended (hi : ∀ i, p.get? c.pc = some i → i = .halt) : Moves p limit c (.ok .halt) c
  /-- The next instruction comes next; a value may be in a scratch slot. -/
  | passed {i : Instruction} {stop : Step} (temps : Temps) (hi : p.get? c.pc = some i)
      (hopens : i.opens = 0) (hstop : stop ≠ .halt) :
      Moves p limit c (.ok stop) ⟨c.pc + 1, c.calls, temps⟩
  | jumped {i : Instruction} {target : Int} {pc : Nat} (hi : p.get? c.pc = some i)
      (hopens : i.opens = 0) (htarget : p.resolve? target = some pc) :
      Moves p limit c (.ok .continue) { c with pc }
  | called {target : Int} {pc : Nat} (hi : p.get? c.pc = some (.call target))
      (htarget : p.resolve? target = some pc) (hdepth : c.calls.length < limit) :
      Moves p limit c (.ok .continue) ⟨pc, (c.pc + 1) :: c.calls, c.temps⟩
  | returned {pc : Nat} {calls : List Nat} (hi : p.get? c.pc = some .ret)
      (hcalls : c.calls = pc :: calls) : Moves p limit c (.ok .continue) ⟨pc, calls, c.temps⟩

end Cursor

namespace ExecState

variable {p : Program} {limit : Nat} {s : ExecState} {c : Cursor}

theorem attempt_moves {α : Type} {r : Except Fault α} {next : α → StepResult}
    (h : ∀ a, r = .ok a → s.cursor.Moves p limit (next a).1 (next a).2.cursor) :
    s.cursor.Moves p limit (s.attempt r next).1 (s.attempt r next).2.cursor := by
  cases r with
  | error f => exact .faulted f
  | ok a => exact h a rfl

theorem withField_moves {change : Except Fault Unit × Field} {i : Instruction}
    (hi : p.get? s.cursor.pc = some i) (hopens : i.opens = 0) :
    s.cursor.Moves p limit (s.withField change).1 (s.withField change).2.cursor :=
  attempt_moves (s := { s with field := change.2 }) fun _ _ =>
    .passed s.cursor.temps hi hopens (by simp)

theorem storeTemp_moves {slot : UInt8} {value : Int32} {i : Instruction}
    (hi : p.get? s.cursor.pc = some i) (hopens : i.opens = 0) :
    s.cursor.Moves p limit (s.storeTemp slot value).1 (s.storeTemp slot value).2.cursor := by
  unfold storeTemp Cursor.setTemp
  by_cases hslot : slot.toNat < tempSlots
  · rw [dif_pos hslot]
    exact .passed _ hi hopens (by simp)
  · rw [dif_neg hslot]
    exact .faulted _

end ExecState

namespace Machine

open ExecState

theorem resolve_ok {m : Machine} {target : Int} {pc : Nat} (h : m.resolve target = .ok pc) :
    m.program.resolve? target = some pc := by
  unfold resolve at h
  split at h
  · rename_i found hfound
    cases h
    exact hfound
  · cases h

theorem execute_moves (m : Machine) (s : ExecState) {i : Instruction}
    (hi : m.program.get? s.cursor.pc = some i) :
    s.cursor.Moves m.program m.maxCallDepth (m.execute s i).1 (m.execute s i).2.cursor := by
  cases i with
  | nop => exact .passed s.cursor.temps hi rfl (by simp)
  | placeholder opcode mnemonic args => exact .passed s.cursor.temps hi rfl (by simp)
  | halt => exact .ended fun j hj => Option.some.inj (hj.symm.trans hi)
  | jump target => exact attempt_moves fun pc hpc => .jumped hi rfl (resolve_ok hpc)
  | jumpIfZero condition target =>
    refine attempt_moves fun value _ => ?_
    split
    · exact attempt_moves fun pc hpc => .jumped hi rfl (resolve_ok hpc)
    · exact .passed s.cursor.temps hi rfl (by simp)
  | call target =>
    refine attempt_moves fun pc hpc => ?_
    split
    · rename_i hdepth
      exact .called hi (resolve_ok hpc) hdepth
    · exact .faulted _
  | ret =>
    rw [execute]
    split
    · exact .faulted _
    · rename_i pc calls hcalls
      exact .returned hi hcalls
  | popTemp slot value => exact attempt_moves fun v _ => storeTemp_moves hi rfl
  | popMem v value => exact attempt_moves fun x _ => withField_moves hi rfl
  | setFlag flag value => exact withField_moves hi rfl
  | random slot => exact storeTemp_moves (s := { s with field := s.field.randomByte.2 }) hi rfl
  | setPassable passable => exact withField_moves hi rfl
  | wait frames => exact attempt_moves fun n _ => .passed s.cursor.temps hi rfl (by simp)
  | message channel number =>
    refine attempt_moves fun c _ => ?_
    exact attempt_moves fun n _ => .passed s.cursor.temps hi rfl (by simp)
  | animate animation => exact .passed s.cursor.temps hi rfl (by simp)

/-- **Where a step takes a cursor.** -/
theorem step_moves (m : Machine) (s : ExecState) :
    s.cursor.Moves m.program m.maxCallDepth (m.step s).1 (m.step s).2.cursor := by
  unfold step
  split
  · rename_i hnone
    exact .ended fun i hi => by rw [hnone] at hi; cases hi
  · rename_i i hi
    exact m.execute_moves s hi

end Machine

/-! ## Runs -/

/-- What a step meets: whom it is taken for, and the field. -/
structure Scene where
  owner : EntityId
  field : Field

namespace Cursor

section Runs

variable (p : Program) (limit : Nat)

/-- A step of a program with a limit on calls. -/
def stepIn (c : Cursor) (scene : Scene) : StepResult :=
  Machine.step ⟨p, scene.owner, limit⟩ ⟨c, scene.field⟩

def after (c : Cursor) (scenes : List Scene) : Cursor :=
  scenes.foldl (fun c scene => (c.stepIn p limit scene).2.cursor) c

/-- How many more returns are pending after a step: one after a call that went on, one less after a
return that went on. -/
def bracket (c : Cursor) (scene : Scene) : Int :=
  match p.get? c.pc, (c.stepIn p limit scene).1 with
  | some i, .ok _ => i.opens
  | _, _ => 0

/-- How many more returns are pending after a run. -/
def level (c : Cursor) : List Scene → Int
  | [] => 0
  | scene :: scenes => c.bracket p limit scene + level (c.stepIn p limit scene).2.cursor scenes

/-- A call, a run in which every return closes a call of that run and none of them is left open, and
the return that closes the call. -/
structure Matches (c : Cursor) (call : Scene) (body : List Scene) (ret : Scene) : Prop where
  opens : c.bracket p limit call = 1
  within : ∀ part, part <+: body → 0 ≤ (c.after p limit [call]).level p limit part
  level : (c.after p limit [call]).level p limit body = 0
  closes : (c.after p limit (call :: body)).bracket p limit ret = -1

/-- The cursor is at an instruction or past the last one, the limit on calls is kept, and each
pending return leads to the instruction after a call. -/
structure Placed (c : Cursor) : Prop where
  pc : c.pc ≤ p.size
  depth : c.calls.length ≤ limit
  returns : ∀ r ∈ c.calls, 1 ≤ r ∧ r ≤ p.size ∧ ∃ target, p.get? (r - 1) = some (.call target)

end Runs

variable {p : Program} {limit : Nat} {c d : Cursor}

theorem stepIn_moves (p : Program) (limit : Nat) (c : Cursor) (scene : Scene) :
    c.Moves p limit (c.stepIn p limit scene).1 (c.stepIn p limit scene).2.cursor :=
  Machine.step_moves ⟨p, scene.owner, limit⟩ ⟨c, scene.field⟩

theorem after_append (c : Cursor) (scenes more : List Scene) :
    c.after p limit (scenes ++ more) = (c.after p limit scenes).after p limit more :=
  List.foldl_append

theorem level_append (c : Cursor) (scenes more : List Scene) :
    c.level p limit (scenes ++ more) =
      c.level p limit scenes + (c.after p limit scenes).level p limit more := by
  induction scenes generalizing c with
  | nil => exact (Int.zero_add _).symm
  | cons scene scenes ih =>
    rw [List.cons_append, level, level, ih, Int.add_assoc]
    rfl

theorem level_concat (c : Cursor) (scenes : List Scene) (scene : Scene) :
    c.level p limit (scenes ++ [scene]) =
      c.level p limit scenes + (c.after p limit scenes).bracket p limit scene := by
  rw [level_append, level, level, Int.add_zero]

/-! ## Cursors stay in their program -/

theorem Moves.placed {r : Except Fault Step} (h : c.Moves p limit r d) (hc : c.Placed p limit) :
    d.Placed p limit := by
  cases h with
  | faulted f => exact hc
  | ended hi => exact hc
  | passed temps hi => exact ⟨Program.lt_size_of_get? hi, hc.depth, hc.returns⟩
  | jumped hi hopens htarget => exact ⟨Program.resolve?_le htarget, hc.depth, hc.returns⟩
  | called hi htarget hdepth =>
    refine ⟨Program.resolve?_le htarget, hdepth, ?_⟩
    intro r hr
    rcases List.mem_cons.1 hr with rfl | hr
    · exact ⟨Nat.succ_pos _, Program.lt_size_of_get? hi, _, hi⟩
    · exact hc.returns r hr
  | returned hi hcalls =>
    have hdepth := hc.depth
    have hreturns := hc.returns
    rw [hcalls] at hdepth hreturns
    refine ⟨(hreturns _ List.mem_cons_self).2.1, Nat.le_of_succ_le hdepth, ?_⟩
    intro r hr
    exact hreturns r (List.mem_cons_of_mem _ hr)

/-- **Every cursor of a run** is in its program. -/
theorem placed_after (scenes : List Scene) (hc : c.Placed p limit) :
    (c.after p limit scenes).Placed p limit := by
  induction scenes generalizing c with
  | nil => exact hc
  | cons scene scenes ih => exact ih ((stepIn_moves p limit c scene).placed hc)

theorem placed_start (p : Program) (limit : Nat) : start.Placed p limit :=
  ⟨Nat.zero_le _, Nat.zero_le _, nofun⟩

/-! ## One bracket -/

/-- A step that does not change the number of pending returns does not change any of them; a call
adds the next index to them, and a return goes to the last one. -/
theorem bracket_cases (p : Program) (limit : Nat) (c : Cursor) (scene : Scene) :
    (c.bracket p limit scene = 0 ∧ (c.after p limit [scene]).calls = c.calls) ∨
    (c.bracket p limit scene = 1 ∧ (c.after p limit [scene]).calls = (c.pc + 1) :: c.calls) ∨
    (c.bracket p limit scene = -1 ∧
      c.calls = (c.after p limit [scene]).pc :: (c.after p limit [scene]).calls) := by
  have hmoves := stepIn_moves p limit c scene
  have hafter : c.after p limit [scene] = (c.stepIn p limit scene).2.cursor := rfl
  rw [hafter]
  unfold bracket
  generalize (c.stepIn p limit scene).1 = r at hmoves ⊢
  generalize (c.stepIn p limit scene).2.cursor = d at hmoves ⊢
  cases hmoves with
  | faulted f =>
    refine .inl ⟨?_, rfl⟩
    split
    · contradiction
    · rfl
  | ended hi =>
    refine .inl ⟨?_, rfl⟩
    split
    · rename_i i _ hat _
      rw [hi i hat]
      rfl
    · rfl
  | passed temps hi hopens =>
    rw [hi]
    exact .inl ⟨hopens, rfl⟩
  | jumped hi hopens =>
    rw [hi]
    exact .inl ⟨hopens, rfl⟩
  | called hi =>
    rw [hi]
    exact .inr (.inl ⟨rfl, rfl⟩)
  | returned hi hcalls =>
    rw [hi]
    exact .inr (.inr ⟨rfl, hcalls⟩)

theorem calls_of_call {scene : Scene} (h : c.bracket p limit scene = 1) :
    (c.after p limit [scene]).calls = (c.pc + 1) :: c.calls := by
  rcases bracket_cases p limit c scene with ⟨hbracket, -⟩ | ⟨-, hopened⟩ | ⟨hbracket, -⟩
  · rw [h] at hbracket
    cases hbracket
  · exact hopened
  · rw [h] at hbracket
    cases hbracket

theorem calls_of_return {scene : Scene} (h : c.bracket p limit scene = -1) :
    c.calls = (c.after p limit [scene]).pc :: (c.after p limit [scene]).calls := by
  rcases bracket_cases p limit c scene with ⟨hbracket, -⟩ | ⟨hbracket, -⟩ | ⟨-, hclosed⟩
  · rw [h] at hbracket
    cases hbracket
  · rw [h] at hbracket
    cases hbracket
  · exact hclosed

/-! ## Returns close calls -/

/-- **A run that never returns from more calls than it made** leaves the pending returns from before
it as they are, below those of its own. -/
theorem calls_after (body : List Scene)
    (hwithin : ∀ part, part <+: body → 0 ≤ c.level p limit part) :
    ∃ inner, (c.after p limit body).calls = inner ++ c.calls ∧
      (inner.length : Int) = c.level p limit body := by
  induction body using List.reverseRecOn with
  | nil => exact ⟨[], rfl, rfl⟩
  | append_singleton body scene ih =>
    obtain ⟨inner, hcalls, hlength⟩ := ih fun part hpart =>
      hwithin part (hpart.trans (List.prefix_append _ _))
    have hlevel := hwithin _ (List.prefix_refl _)
    rw [level_concat] at hlevel ⊢
    rw [after_append]
    rcases bracket_cases p limit (c.after p limit body) scene with
      ⟨hbracket, hsame⟩ | ⟨hbracket, hopened⟩ | ⟨hbracket, hclosed⟩
    · exact ⟨inner, hsame.trans hcalls, by omega⟩
    · refine ⟨_ :: inner, by rw [hopened, hcalls]; rfl, ?_⟩
      rw [List.length_cons]
      omega
    · -- the return is from a call of this run, since one is still open
      cases inner with
      | nil =>
        rw [List.length_nil] at hlength
        omega
      | cons r inner =>
        rw [hclosed] at hcalls
        refine ⟨inner, (List.cons.inj hcalls).2, ?_⟩
        rw [List.length_cons] at hlength
        omega

/-- **A return goes to the instruction after the call that it closes**, and leaves pending what was
pending before that call. -/
theorem Matches.returns {call ret : Scene} {body : List Scene}
    (h : c.Matches p limit call body ret) :
    (c.after p limit (call :: (body ++ [ret]))).pc = c.pc + 1 ∧
      (c.after p limit (call :: (body ++ [ret]))).calls = c.calls := by
  obtain ⟨inner, hbody, hlength⟩ := calls_after body h.within
  have hnil : inner = [] := by
    rw [h.level] at hlength
    exact List.eq_nil_of_length_eq_zero (by omega)
  rw [hnil, List.nil_append, calls_of_call h.opens, ← after_append, List.singleton_append] at hbody
  have hret : c.after p limit (call :: (body ++ [ret])) =
      (c.after p limit (call :: body)).after p limit [ret] := by
    rw [← after_append]
    rfl
  have hclosed := calls_of_return h.closes
  rw [hbody] at hclosed
  obtain ⟨hpc, hcalls⟩ := List.cons.inj hclosed
  rw [hret]
  exact ⟨hpc.symm, hcalls.symm⟩

/-! ## Every return closes a call -/

/-- A call of a run from the start that is still open at its end, and with it so many calls that the
run has made since. -/
def OpenCall (p : Program) (limit : Nat) (scenes : List Scene) (since : Nat) : Prop :=
  ∃ before call body, scenes = before ++ call :: body ∧
    (start.after p limit before).bracket p limit call = 1 ∧
    (∀ part, part <+: body → 0 ≤ (start.after p limit (before ++ [call])).level p limit part) ∧
    (start.after p limit (before ++ [call])).level p limit body = since

/-- A call stays open unless the next step returns from it. -/
theorem OpenCall.step {scenes : List Scene} {since since' : Nat} (h : OpenCall p limit scenes since)
    {scene : Scene}
    (hsince : (since : Int) + (start.after p limit scenes).bracket p limit scene = since') :
    OpenCall p limit (scenes ++ [scene]) since' := by
  obtain ⟨before, call, body, rfl, hcall, hwithin, hlevel⟩ := h
  have hbody :
      (start.after p limit (before ++ [call])).level p limit (body ++ [scene]) = since' := by
    rw [level_concat, hlevel, ← after_append, List.append_assoc, List.singleton_append]
    exact hsince
  refine ⟨before, call, body ++ [scene], by simp, hcall, ?_, hbody⟩
  intro part hpart
  rcases List.prefix_concat_iff.1 hpart with rfl | hpart
  · rw [hbody]
    exact Int.natCast_nonneg _
  · exact hwithin part hpart

/-- **Every pending return has its call** in the run; those above it are from calls made since. -/
theorem openCall_of_pending (scenes : List Scene) (inner outer : List Nat) (r : Nat)
    (h : (start.after p limit scenes).calls = inner ++ r :: outer) :
    OpenCall p limit scenes inner.length := by
  induction scenes using List.reverseRecOn generalizing inner with
  | nil => cases inner <;> cases h
  | append_singleton scenes scene ih =>
    rw [after_append] at h
    rcases bracket_cases p limit (start.after p limit scenes) scene with
      ⟨hbracket, hsame⟩ | ⟨hbracket, hopened⟩ | ⟨hbracket, hclosed⟩
    · exact (ih inner (hsame.symm.trans h)).step (by omega)
    · rw [hopened] at h
      cases inner with
      | nil =>
        refine ⟨scenes, scene, [], rfl, hbracket, ?_, rfl⟩
        intro part hpart
        rw [List.prefix_nil.1 hpart]
        exact Int.le_refl _
      | cons s inner =>
        refine (ih inner (List.cons.inj h).2).step ?_
        rw [hbracket, List.length_cons]
        omega
    · rw [h] at hclosed
      refine (ih (_ :: inner) hclosed).step ?_
      rw [hbracket, List.length_cons]
      omega

/-- **Every return of a run closes a call of it.** -/
theorem matches_of_return (scenes : List Scene) {ret : Scene}
    (h : (start.after p limit scenes).bracket p limit ret = -1) :
    ∃ before call body, scenes = before ++ call :: body ∧
      (start.after p limit before).Matches p limit call body ret := by
  obtain ⟨before, call, body, rfl, hcall, hwithin, hlevel⟩ :=
    openCall_of_pending scenes [] _ _ (calls_of_return h)
  rw [after_append] at hwithin hlevel h
  exact ⟨before, call, body, rfl, hcall, hwithin, hlevel, h⟩

/-! ## Ends -/

/-- A step ends a run only at an instruction that says so, or past the last one. -/
theorem Placed.of_halt {scene : Scene} (hc : c.Placed p limit)
    (h : (c.stepIn p limit scene).1 = .ok .halt) : p.get? c.pc = some .halt ∨ c.pc = p.size := by
  have hmoves := stepIn_moves p limit c scene
  rw [h] at hmoves
  generalize (c.stepIn p limit scene).2.cursor = d at hmoves
  cases hmoves with
  | passed temps hi hopens hstop => exact absurd rfl hstop
  | ended hi =>
    cases hat : p.get? c.pc with
    | some i => exact .inl (by rw [hi i hat])
    | none =>
      have hpast : p.size ≤ c.pc := by
        simpa [Program.get?, Program.size] using hat
      exact .inr (Nat.le_antisymm hc.pc hpast)

end Cursor

/-- **Cursors along a run.** Take any instructions at any offsets with any end, any limit on calls,
and any run from the start, with any owner and on any field at each step. The cursor is in the
program or past its last instruction, no more calls are pending than the limit allows, and each
pending return leads to the instruction after a call. A return goes to the instruction after the
call that it closes, and there is such a call for every return. A step ends the run only at an
instruction that says so or past the last one. -/
theorem cursor_along_run (p : Program) (limit : Nat) (scenes : List Scene) :
    let c := Cursor.start.after p limit scenes
    (c.pc ≤ p.size ∧ c.calls.length ≤ limit ∧
      ∀ r ∈ c.calls, 1 ≤ r ∧ r ≤ p.size ∧ ∃ target, p.get? (r - 1) = some (.call target)) ∧
    (∀ call body ret, c.Matches p limit call body ret →
      (c.after p limit (call :: (body ++ [ret]))).pc = c.pc + 1 ∧
      (c.after p limit (call :: (body ++ [ret]))).calls = c.calls) ∧
    (∀ ret, c.bracket p limit ret = -1 → ∃ before call body, scenes = before ++ call :: body ∧
      (Cursor.start.after p limit before).Matches p limit call body ret) ∧
    ∀ scene, (c.stepIn p limit scene).1 = .ok .halt →
      p.get? c.pc = some .halt ∨ c.pc = p.size := by
  intro c
  have hplaced : c.Placed p limit := Cursor.placed_after scenes (Cursor.placed_start p limit)
  exact ⟨⟨hplaced.pc, hplaced.depth, hplaced.returns⟩, fun _ _ _ hmatches => hmatches.returns,
    fun _ hret => Cursor.matches_of_return scenes hret, fun _ hhalt => hplaced.of_halt hhalt⟩

/-- A case of a call inside a call: the first one, at the start, is closed by the second return. -/
theorem cursor_along_run_nested :
    let p := Program.ofInstructions "door" [.call 8, .halt, .call 16, .ret, .ret]
    let scene : Scene := ⟨⟨0, 1⟩, .empty 0 4⟩
    Cursor.start.Matches p 2 scene [scene, scene] scene ∧
      (Cursor.start.after p 2 [scene, scene, scene, scene]).pc = 1 := by
  intro p scene
  have hmatches : Cursor.start.Matches p 2 scene [scene, scene] scene := by
    refine ⟨by decide, ?_, by decide, by decide⟩
    intro part hpart
    simp only [List.prefix_cons_iff, List.prefix_nil] at hpart
    rcases hpart with rfl | ⟨_, rfl, rfl | ⟨_, rfl, rfl⟩⟩
    · decide
    · decide
    · decide
  exact ⟨hmatches, ((cursor_along_run p 2 []).2.1 scene [scene, scene] scene hmatches).1⟩

end FieldEngine
