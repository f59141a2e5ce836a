import FieldEngine.Console.Basic
import FieldEngine.Host.Disk
import FieldEngine.Proofs.Console.Completing
import FieldEngine.Proofs.Console.Numbers
import FieldEngine.Proofs.Field.Views
import FieldEngine.Proofs.Script.Readability
import FieldEngine.Proofs.Session.History

/-!
# Variables on the console

A line that reads a variable is compared with the expression that a script would use
(`Console.ShowsAs`). They agree for the banks that are views of memory; flags and scratch slots are
never read by such a line, though flags are among the banks that are offered for it:

    ShowsAs (answer to the line) bank index (value of the variable) ↔ bank ≠ .flag ∧ bank ≠ .temp

A value that a line has stored is the one that a later line shows, as far as the bank holds it.
Main statement: `variables_on_lines`.
-/

namespace FieldEngine.Console

open Completion Text

/-- The text for the value of a variable. -/
def shown (bank : Bank) (index : UInt16) (value : Int32) : String :=
  s!"{bank.name}[{index}] = {value}"

/-- An answer shows what a variable is seen as: its value or the fault. -/
def ShowsAs (answer : Except Error (Option String)) (bank : Bank) (index : UInt16)
    (seen : Except Fault Int32) : Prop :=
  (∀ value, answer = .ok (some (shown bank index value)) ↔ seen = .ok value) ∧
    ∀ fault, answer = .error (.of (.fault fault)) ↔ seen = .error fault

theorem shown_inj {bank : Bank} {index : UInt16} {x y : Int32}
    (h : shown bank index x = shown bank index y) : x = y := by
  have htext : ∀ z : Int32, (shown bank index z).toList =
      (bank.name ++ "[" ++ toString index ++ "] = ").toList ++ (toString z.toInt).toList := by
    intro z
    show (bank.name ++ "[" ++ toString index ++ "] = " ++ toString z.toInt).toList = _
    rw [String.toList_append]
  have hlist := congrArg String.toList h
  rw [htext, htext] at hlist
  have hint := Reading.toString_int_inj (String.toList_inj.1 (List.append_cancel_left hlist))
  exact Int32.toInt_inj.1 hint

/-! ## Answers -/

section Answers

variable {s : Session} {bank : Bank} {index : UInt16} {line : String}
  {σ : Type} [FileStore (StateM σ)] {store : σ}

/-- A line that reads a variable changes nothing. -/
theorem eval_peek (h : Command.parse line = .ok (some (.peek bank index))) :
    (eval s line : StateM σ _).run store =
      (((ofFault (s.field.read bank index)).map fun value => some (shown bank index value), s),
        store) := by
  have hlocal : executeLocal s (.peek bank index) =
      ((ofFault (s.field.read bank index)).map (shown bank index), s) := rfl
  unfold eval
  rw [h]
  show (let answer := executeLocal s (.peek bank index)
    ((answer.1.map some, answer.2), store)) = _
  rw [hlocal]
  cases s.field.read bank index with
  | ok value => rfl
  | error fault => rfl

/-- A line that stores a value changes the memory only. -/
theorem eval_poke {value : Int32} {text : Option String} {t : Session} {store' : σ}
    (h : Command.parse line = .ok (some (.poke bank index value)))
    (hrun : (eval s line : StateM σ _).run store = ((.ok text, t), store')) :
    ∃ memory, s.field.memory.write bank index value = (.ok (), memory) ∧
      t = { s with field := { s.field with memory } } ∧ store' = store := by
  have hlocal : executeLocal s (.poke bank index value) =
      answerChange s (s.field.write bank index value) s!"{bank.name}[{index}] <- {value}" := rfl
  unfold eval at hrun
  rw [h] at hrun
  replace hrun : (let answer := executeLocal s (.poke bank index value)
    ((answer.1.map some, answer.2), store)) = ((.ok text, t), store') := hrun
  rw [hlocal, Field.write] at hrun
  rcases (s.field.memory.write_harmless bank index value).cases with
    ⟨fault, hwrite⟩ | ⟨_, memory, hwrite⟩ <;> rw [hwrite] at hrun <;> cases hrun
  exact ⟨memory, hwrite, rfl, rfl⟩

end Answers

/-! ## Agreement -/

theorem showsAs_of_eq (bank : Bank) (index : UInt16) (seen : Except Fault Int32) :
    ShowsAs ((ofFault seen).map fun value => some (shown bank index value)) bank index seen := by
  cases seen with
  | ok x =>
    refine ⟨fun value => ⟨fun h => ?_, fun h => by rw [h]; rfl⟩, fun fault => ⟨?_, ?_⟩⟩
    · have htext : shown bank index x = shown bank index value :=
        Option.some.inj (Except.ok.inj h)
      rw [shown_inj htext]
    · intro h
      cases h
    · intro h
      cases h
  | error f =>
    refine ⟨fun value => ⟨?_, ?_⟩, fun fault => ⟨fun h => ?_, fun h => by rw [h]; rfl⟩⟩
    · intro h
      cases h
    · intro h
      cases h
    · have herror : Error.of (.fault f) = Error.of (.fault fault) := Except.error.inj h
      rw [Cause.fault.inj (congrArg Error.cause herror)]

/-- Memory is what scripts see through its banks. -/
theorem eval_var_of_ne {bank : Bank} (hflag : bank ≠ .flag) (htemp : bank ≠ .temp) (field : Field)
    (temps : Temps) (index : UInt16) :
    Expr.eval field temps (.var ⟨bank, index⟩) = field.read bank index := by
  show Expr.load field temps ⟨bank, index⟩ = _
  cases bank <;> first | rfl | contradiction

/-- Scripts never see a flag or a scratch slot as of no bank. -/
theorem eval_var_ne_invalidBank {bank : Bank} (h : bank = .flag ∨ bank = .temp) (field : Field)
    (temps : Temps) (index : UInt16) :
    Expr.eval field temps (.var ⟨bank, index⟩) ≠ .error (.invalidBank bank) := by
  show Expr.load field temps ⟨bank, index⟩ ≠ _
  rcases h with rfl | rfl
  · unfold Expr.load Field.flag Field.checkFlag
    simp only
    split <;> intro h <;> cases h
  · unfold Expr.load
    simp only
    split <;> intro h <;> cases h

theorem read_of_not_memory {bank : Bank} (h : bank = .flag ∨ bank = .temp) (field : Field)
    (index : UInt16) : field.read bank index = .error (.invalidBank bank) :=
  Memory.read_eq_iff.2 (.denied (.bank h))

theorem showsAs_eval_iff (s : Session) (bank : Bank) (index : UInt16) (temps : Temps) :
    ShowsAs ((ofFault (s.field.read bank index)).map fun value => some (shown bank index value))
      bank index (Expr.eval s.field temps (.var ⟨bank, index⟩)) ↔ bank ≠ .flag ∧ bank ≠ .temp := by
  constructor
  · intro hshows
    apply Classical.byContradiction
    intro hbank
    have hno : bank = .flag ∨ bank = .temp := by
      by_cases hflag : bank = .flag
      · exact .inl hflag
      · exact .inr (Classical.byContradiction fun htemp => hbank ⟨hflag, htemp⟩)
    have hfault := (hshows.2 (.invalidBank bank)).1 (by rw [read_of_not_memory hno]; rfl)
    exact eval_var_ne_invalidBank hno s.field temps index hfault
  · rintro ⟨hflag, htemp⟩
    rw [eval_var_of_ne hflag htemp]
    exact showsAs_of_eq bank index _

/-- The banks that are offered are all but the scratch slots. -/
theorem mem_choices_iff (bank : Bank) :
    (bank.name ∈ choices "peek" ↔ bank ≠ .temp) ∧ (bank.name ∈ choices "poke" ↔ bank ≠ .temp) := by
  cases bank <;> decide

/-- A bank has only one value for a number. -/
theorem eq_of_inRange {bank : Bank} {width : Nat} {signed : Bool} (h : bank.InMemory width signed)
    {x y : Int} (hx : Bank.InRange signed width x) (hy : Bank.InRange signed width y)
    (hmod : x ≡ y [ZMOD 2 ^ (8 * width)]) : x = y := by
  unfold Bank.InRange at hx hy
  unfold Int.ModEq at hmod
  cases h <;> simp at hx hy hmod <;> omega

/-- **Variables on lines.** Of the banks, all but the scratch slots are offered for lines that read
and store variables. A line that reads changes nothing, and shows the variable as scripts see it, in
value and fault, exactly if the bank is no bank of flags and none of scratch slots; of these it says
that they cannot be read. After a line that has stored a value, lines that read show the value that
the bank has of it: the value itself, if the bank has it. -/
theorem variables_on_lines (s : Session) (bank : Bank) (index : UInt16) (temps : Temps) {σ : Type}
    [FileStore (StateM σ)] (store : σ) (line : String)
    (hline : Command.parse line = .ok (some (.peek bank index))) :
    (bank.name ∈ choices "peek" ↔ bank ≠ .temp) ∧ (bank.name ∈ choices "poke" ↔ bank ≠ .temp) ∧
    (∃ answer, (eval s line : StateM σ _).run store = ((answer, s), store) ∧
      (ShowsAs answer bank index (Expr.eval s.field temps (.var ⟨bank, index⟩)) ↔
        bank ≠ .flag ∧ bank ≠ .temp) ∧
      (bank = .flag ∨ bank = .temp → answer = .error (.of (.fault (.invalidBank bank))))) ∧
    ∀ (storing : String) (value : Int32) (text : Option String) (t : Session) (store' : σ),
      Command.parse storing = .ok (some (.poke bank index value)) →
      (eval s storing : StateM σ _).run store = ((.ok text, t), store') →
      ∃ width signed x, bank.InMemory width signed ∧
        (eval t line : StateM σ _).run store' = ((.ok (some (shown bank index x)), t), store') ∧
        Bank.InRange signed width x.toInt ∧ x.toInt ≡ value.toInt [ZMOD 2 ^ (8 * width)] ∧
        (Bank.InRange signed width value.toInt → x = value) := by
  obtain ⟨hpeek, hpoke⟩ := mem_choices_iff bank
  refine ⟨hpeek, hpoke,
    ⟨_, eval_peek hline, showsAs_eval_iff s bank index temps, fun hno => ?_⟩, ?_⟩
  · rw [read_of_not_memory hno]
    rfl
  · intro storing value text t store' hstoring hrun
    obtain ⟨memory, hwrite, rfl, rfl⟩ := eval_poke hstoring hrun
    obtain ⟨width, signed, x, hbank, hread, hrange, hmod⟩ := Memory.read_of_write hwrite
    refine ⟨width, signed, x, hbank, ?_, hrange, hmod, fun hvalue => ?_⟩
    · rw [eval_peek hline]
      show (((ofFault (memory.read bank index)).map _, _), _) = _
      rw [hread]
      rfl
    · exact Int32.toInt_inj.1 (eq_of_inRange hbank hrange hvalue hmod)

/-- A case at the last byte of a memory: 200 is stored, and the byte with a sign has -56 of it. -/
theorem variables_on_lines_signed :
    let s := Session.ofField (.empty 7 8)
    let storing := (eval s "poke sbyte 7 200" : StateM Disk _).run .empty
    Command.parse "peek sbyte 7" = .ok (some (.peek .signedByte 7)) ∧
      Command.parse "poke sbyte 7 200" = .ok (some (.poke .signedByte 7 200)) ∧
      storing.1.1 = .ok (some "sbyte[7] <- 200") ∧
      ((eval storing.1.2 "peek sbyte 7" : StateM Disk _).run storing.2).1.1 =
        .ok (some "sbyte[7] = -56") := by
  intro s storing
  have hseven : Base.decimal.Writes 7 "7" := spells_toDigits (by decide) 7
  have hvalue : Base.decimal.Writes 200 "200" := spells_toDigits (by decide) 200
  have hline : Command.parse "peek sbyte 7" = .ok (some (.peek .signedByte 7)) :=
    Command.parse_peek (Command.stands_index hseven) .signedByte
  have hstoring : Command.parse "poke sbyte 7 200" = .ok (some (.poke .signedByte 7 200)) :=
    Command.parse_poke (Command.stands_index hseven) (Command.stands_value hvalue) .signedByte
  have htext : storing.1.1 = .ok (some "sbyte[7] <- 200") := by
    show ((eval s "poke sbyte 7 200" : StateM Disk _).run .empty).1.1 = _
    unfold eval
    rw [hstoring]
    rfl
  obtain ⟨-, -, -, hafter⟩ :=
    variables_on_lines s .signedByte 7 (.replicate _ 0) Disk.empty "peek sbyte 7" hline
  obtain ⟨width, signed, x, hbank, hrun, hrange, hmod, -⟩ :=
    hafter "poke sbyte 7 200" 200 _ storing.1.2 storing.2 hstoring
      (Prod.ext (Prod.ext htext rfl) rfl)
  refine ⟨hline, hstoring, htext, ?_⟩
  rw [hrun]
  have hx : x.toInt = -56 := by
    unfold Bank.InRange at hrange
    unfold Int.ModEq at hmod
    cases hbank
    simp at hrange hmod
    omega
  rw [Int32.toInt_inj.1 (hx.trans (by decide : (-56 : Int) = (-56 : Int32).toInt))]
  decide

/-- A flag is offered, and scripts see it set, but a line does not show it. -/
theorem flag_not_shown :
    let s := (Session.ofSeed 0).after [.edit (.setFlag 3 true)]
    Bank.flag.name ∈ choices "peek" ∧
      Command.parse "peek flag 3" = .ok (some (.peek .flag 3)) ∧
      Expr.eval s.field (.replicate _ 0) (.var ⟨.flag, 3⟩) = .ok 1 ∧
      ((eval s "peek flag 3" : StateM Disk _).run .empty).1.1 =
        .error (.of (.fault (.invalidBank .flag))) := by
  intro s
  have hthree : Base.decimal.Writes 3 "3" := spells_toDigits (by decide) 3
  have hline : Command.parse "peek flag 3" = .ok (some (.peek .flag 3)) :=
    Command.parse_peek (Command.stands_index hthree) .flag
  refine ⟨by decide, hline, by decide, ?_⟩
  rw [eval_peek hline, read_of_not_memory (.inl rfl)]
  rfl

end FieldEngine.Console
