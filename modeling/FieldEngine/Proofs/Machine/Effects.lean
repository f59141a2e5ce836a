import FieldEngine.Machine.Step
import FieldEngine.Proofs.Field.Handles
import FieldEngine.Proofs.Field.Refusals
import FieldEngine.Proofs.Script.Words

/-!
# What an instruction does to the field

An instruction leaves the field alone, or changes it in one of four ways: it stores in memory, sets
or clears a flag, draws a random number, or makes its owner passable or solid. All of them keep
within one frame, which can be put together along a run:

    Instruction.Effect m.owner s.field i (m.execute s i).2.field                 (execute_effect)
    Instruction.Effect owner f i g → f.Framed (· = owner) g                       (Effect.framed)
    f.Framed owners g → g.Framed owners k → f.Framed owners k                     (Framed.trans)

Random numbers are drawn by one instruction only, one at a time (`Instruction.Effect.draws`).
-/

namespace FieldEngine

/-! ## Frames -/

namespace Field

/-- What scripts of some owners leave of a field as it was, and how far they change the rest. -/
structure Framed (owners : EntityId → Prop) (f g : Field) : Prop where
  seed : g.seed = f.seed
  memory : g.memory.size = f.memory.size
  generations : g.entities.generations = f.entities.generations
  free : g.entities.free = f.entities.free
  /-- The same slots are occupied, under the same names. -/
  names : ∀ slot : Nat, g.entities.records[slot]?.map EntityRecord.name =
    f.entities.records[slot]?.map EntityRecord.name
  entity : ∀ id, ¬ owners id → g.entity id = f.entity id
  flags : ∀ index ∈ g.flags, index ∉ f.flags → index.toNat < flagCount

namespace Framed

variable {owners owners' : EntityId → Prop} {f g k : Field}

/-- The entities may be left alone altogether. -/
theorem of_entities (hentities : g.entities = f.entities) (hseed : g.seed = f.seed)
    (hmemory : g.memory.size = f.memory.size)
    (hflags : ∀ index ∈ g.flags, index ∉ f.flags → index.toNat < flagCount) :
    f.Framed owners g where
  seed := hseed
  memory := hmemory
  generations := by rw [hentities]
  free := by rw [hentities]
  names slot := by rw [hentities]
  entity id _ := by rw [Field.entity, Field.entity, hentities]
  flags := hflags

theorem refl (f : Field) : f.Framed owners f :=
  of_entities rfl rfl rfl fun _ hset hclear => absurd hset hclear

theorem trans (h : f.Framed owners g) (h' : g.Framed owners k) : f.Framed owners k where
  seed := h'.seed.trans h.seed
  memory := h'.memory.trans h.memory
  generations := h'.generations.trans h.generations
  free := h'.free.trans h.free
  names slot := (h'.names slot).trans (h.names slot)
  entity id hid := (h'.entity id hid).trans (h.entity id hid)
  flags index hset hclear := by
    by_cases hbetween : index ∈ g.flags
    · exact h.flags index hbetween hclear
    · exact h'.flags index hset hbetween

theorem mono (h : f.Framed owners g) (howners : ∀ id, owners id → owners' id) :
    f.Framed owners' g :=
  { h with entity := fun id hid => h.entity id fun hown => hid (howners id hown) }

theorem occupied (h : f.Framed owners g) (slot : Nat) :
    slot ∈ g.entities.records ↔ slot ∈ f.entities.records := by
  have hsome := congrArg Option.isSome (h.names slot)
  rw [Option.isSome_map, Option.isSome_map] at hsome
  rw [Std.ExtTreeMap.mem_iff_isSome_getElem?, hsome, Std.ExtTreeMap.mem_iff_isSome_getElem?]

theorem isPassable (h : f.Framed owners g) {id : EntityId}
    (hchanged : g.isPassable id ≠ f.isPassable id) : owners id := by
  apply Classical.byContradiction
  intro hid
  apply hchanged
  rw [Field.isPassable, Field.isPassable, h.entity id hid]

end Framed

end Field

/-! ## The four changes -/

theorem Memory.size_overwrite (bytes : Array UInt8) (start : Nat) (new : List UInt8) :
    (overwrite bytes start new).size = bytes.size := by
  induction new generalizing bytes start with
  | nil => rfl
  | cons b new ih => rw [overwrite, ih, Array.size_setIfInBounds]

namespace Field

variable {owners : EntityId → Prop} {f g : Field}

theorem write_ok {bank : Bank} {index : UInt16} {value : Int32}
    (h : f.write bank index value = (.ok (), g)) :
    ∃ memory, memory.size = f.memory.size ∧ g = { f with memory } := by
  unfold write Memory.write at h
  cases hspan : f.memory.span bank index with
  | error fault =>
    rw [hspan] at h
    cases h
  | ok width =>
    rw [hspan] at h
    cases h
    exact ⟨_, Memory.size_overwrite _ _ _, rfl⟩

theorem setFlag_ok {index : UInt16} {value : Bool} (h : f.setFlag index value = (.ok (), g)) :
    index.toNat < flagCount ∧
      g = { f with flags := if value then f.flags.insert index else f.flags.erase index } := by
  unfold setFlag checkFlag at h
  by_cases hindex : index.toNat < flagCount
  · rw [if_pos hindex] at h
    cases h
    exact ⟨hindex, rfl⟩
  · rw [if_neg hindex] at h
    cases h

theorem setPassable_ok {id : EntityId} {passable : Bool}
    (h : f.setPassable id passable = (.ok (), g)) :
    ∃ record, f.entities.isLive id = true ∧ f.entities.records[id.slot]? = some record ∧
      g = { f with entities := { f.entities with
        records := f.entities.records.insert id.slot { record with passable } } } := by
  unfold setPassable EntityTable.setPassable at h
  cases hget : f.entities.get id with
  | error fault =>
    rw [hget] at h
    cases h
  | ok record =>
    rw [hget] at h
    cases h
    unfold EntityTable.get at hget
    split at hget
    · rename_i hlive
      split at hget
      · rename_i found hfound
        cases hget
        exact ⟨record, hlive, hfound, rfl⟩
      · cases hget
    · cases hget

theorem framed_write {bank : Bank} {index : UInt16} {value : Int32}
    (h : f.write bank index value = (.ok (), g)) : f.Framed owners g := by
  obtain ⟨memory, hsize, rfl⟩ := write_ok h
  exact .of_entities rfl rfl hsize fun _ hset hclear => absurd hset hclear

theorem framed_setFlag {index : UInt16} {value : Bool}
    (h : f.setFlag index value = (.ok (), g)) : f.Framed owners g := by
  obtain ⟨hindex, rfl⟩ := setFlag_ok h
  refine .of_entities rfl rfl rfl ?_
  intro other hset hclear
  cases value with
  | true =>
    rcases Std.ExtTreeSet.mem_insert.1 hset with heq | hset
    · rw [← Std.LawfulEqOrd.compare_eq_iff_eq.1 heq]
      exact hindex
    · exact absurd hset hclear
  | false => exact absurd (Std.ExtTreeSet.mem_of_mem_erase hset) hclear

theorem framed_randomByte (f : Field) : f.Framed owners f.randomByte.2 :=
  .of_entities rfl rfl rfl fun _ hset hclear => absurd hset hclear

/-- Passability is set for one entity, and its name stays. -/
theorem framed_setPassable {id : EntityId} {passable : Bool}
    (h : f.setPassable id passable = (.ok (), g)) : f.Framed (· = id) g := by
  obtain ⟨record, hlive, hrecord, rfl⟩ := setPassable_ok h
  refine ⟨rfl, rfl, rfl, rfl, ?_, ?_, fun _ hset hclear => absurd hset hclear⟩
  · intro slot
    rw [OrderedMap.getElem?_insert]
    split
    · rename_i hslot
      rw [← hslot, hrecord]
      rfl
    · rfl
  · intro other hother
    rw [entity, entity, EntityTable.get_eq, EntityTable.get_eq, EntityTable.record?_replace hlive,
      if_neg (fun heq => hother heq.symm)]

end Field

/-! ## Instructions -/

namespace Instruction

/-- The instruction draws a random number. -/
def isRandom : Instruction → Bool
  | random _ => true
  | _ => false

/-- What an instruction of a script can make of a field. -/
inductive Effect (owner : EntityId) (f : Field) : Instruction → Field → Prop
  | unchanged {i : Instruction} (hi : i.isRandom = false) : Effect owner f i f
  | stored {v : Variable} {value : Expr} {x : Int32} {g : Field}
      (h : f.write v.bank v.index x = (.ok (), g)) : Effect owner f (.popMem v value) g
  | flagged {flag : UInt16} {value : Bool} {g : Field} (h : f.setFlag flag value = (.ok (), g)) :
      Effect owner f (.setFlag flag value) g
  /-- The number is drawn even if there is no scratch slot for it. -/
  | drawn {slot : UInt8} : Effect owner f (.random slot) f.randomByte.2
  | passed {passable : Bool} {g : Field} (h : f.setPassable owner passable = (.ok (), g)) :
      Effect owner f (.setPassable passable) g

namespace Effect

variable {owner : EntityId} {f g : Field} {i : Instruction}

theorem framed (h : Effect owner f i g) : f.Framed (· = owner) g := by
  cases h with
  | unchanged => exact .refl f
  | stored h => exact Field.framed_write h
  | flagged h => exact Field.framed_setFlag h
  | drawn => exact Field.framed_randomByte f
  | passed h => exact Field.framed_setPassable h

theorem draws (h : Effect owner f i g) :
    g.draws = if i.isRandom then f.draws + 1 else f.draws := by
  cases h with
  | unchanged hi =>
    rw [hi]
    rfl
  | stored h =>
    obtain ⟨memory, -, rfl⟩ := Field.write_ok h
    rfl
  | flagged h =>
    obtain ⟨-, rfl⟩ := Field.setFlag_ok h
    rfl
  | drawn => rfl
  | passed h =>
    obtain ⟨record, -, -, rfl⟩ := Field.setPassable_ok h
    rfl

end Effect

end Instruction

namespace ExecState

variable {s : ExecState} {P : Field → Prop}

theorem attempt_field {α : Type} {r : Except Fault α} {next : α → StepResult} (hs : P s.field)
    (h : ∀ a, r = .ok a → P (next a).2.field) : P (s.attempt r next).2.field := by
  cases r with
  | error f => exact hs
  | ok a => exact h a rfl

theorem withField_field {change : Except Fault Unit × Field} (hs : P s.field)
    (hchange : Harmless s.field change) (h : ∀ f, change = (.ok (), f) → P f) :
    P (s.withField change).2.field := by
  rcases hchange.cases with ⟨fault, rfl⟩ | ⟨_, f, rfl⟩
  · exact hs
  · exact h f rfl

theorem storeTemp_field (hs : P s.field) (slot : UInt8) (value : Int32) :
    P (s.storeTemp slot value).2.field :=
  attempt_field (s := { s with cursor := (s.cursor.setTemp slot value).2 }) hs fun _ _ => hs

end ExecState

open ExecState in
/-- **What an instruction does to the field**, whether it goes on, waits, ends or faults. -/
theorem Machine.execute_effect (m : Machine) (s : ExecState) (i : Instruction) :
    i.Effect m.owner s.field (m.execute s i).2.field := by
  cases i with
  | nop => exact .unchanged rfl
  | placeholder opcode mnemonic args => exact .unchanged rfl
  | halt => exact .unchanged rfl
  | jump target => exact attempt_field (.unchanged rfl) fun _ _ => .unchanged rfl
  | jumpIfZero condition target =>
    refine attempt_field (.unchanged rfl) fun value _ => ?_
    split
    · exact attempt_field (.unchanged rfl) fun _ _ => .unchanged rfl
    · exact .unchanged rfl
  | call target =>
    refine attempt_field (.unchanged rfl) fun pc _ => ?_
    split
    · exact .unchanged rfl
    · exact .unchanged rfl
  | ret =>
    rw [execute]
    split
    · exact .unchanged rfl
    · exact .unchanged rfl
  | popTemp slot value =>
    exact attempt_field (.unchanged rfl) fun v _ => storeTemp_field (.unchanged rfl) slot v
  | popMem v value =>
    refine attempt_field (.unchanged rfl) fun x _ => ?_
    exact withField_field (.unchanged rfl) (Field.write_harmless _ _ _ _) fun _ => .stored
  | setFlag flag value =>
    exact withField_field (.unchanged rfl) (Field.setFlag_harmless _ _ _) fun _ => .flagged
  | random slot =>
    exact storeTemp_field (s := { s with field := s.field.randomByte.2 }) .drawn slot _
  | setPassable passable =>
    exact withField_field (.unchanged rfl) (Field.setPassable_harmless _ _ _) fun _ => .passed
  | wait frames => exact attempt_field (.unchanged rfl) fun _ _ => .unchanged rfl
  | message channel number =>
    refine attempt_field (.unchanged rfl) fun c _ => ?_
    exact attempt_field (.unchanged rfl) fun _ _ => .unchanged rfl
  | animate animation => exact .unchanged rfl

end FieldEngine
