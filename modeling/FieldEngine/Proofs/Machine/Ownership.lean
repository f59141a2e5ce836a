import FieldEngine.Proofs.Machine.Effects

/-!
# Scripts and their owners

A script touches the entity table in one way only: it makes its own owner passable or solid. So a
run of it is a series of such requests on the table,

    ∃ changes, (m.run limit s).2.field.entities =
      s.field.entities.after (changes.map (.setPassable m.owner))                  (run_entities)

and if the owner has been removed, all of them are refused: whatever entity is in the slot by then
is left alone. Main statement: `handles_never_confused`.
-/

namespace FieldEngine

/-! ## What a script does to the table -/

namespace Machine

variable {m : Machine} {s : ExecState}

/-- No instruction but the one that sets passability touches the table. -/
theorem execute_entities {i : Instruction} (hi : ∀ passable, i ≠ .setPassable passable) :
    (m.execute s i).2.field.entities = s.field.entities := by
  have heffect := m.execute_effect s i
  generalize (m.execute s i).2.field = g at heffect ⊢
  cases heffect with
  | unchanged => rfl
  | stored h =>
    obtain ⟨memory, -, rfl⟩ := Field.write_ok h
    rfl
  | flagged h =>
    obtain ⟨-, rfl⟩ := Field.setFlag_ok h
    rfl
  | drawn => rfl
  | @passed passable => exact absurd rfl (hi passable)

/-- Setting passability is a request on the table. -/
theorem execute_setPassable (passable : Bool) :
    (m.execute s (.setPassable passable)).2.field.entities =
      (s.field.entities.ask (.setPassable m.owner passable)).2 := by
  rw [execute, EntityTable.ask, Field.setPassable]
  rcases s.field.entities.setPassable m.owner passable with ⟨result, entities⟩
  cases result with
  | error fault => rfl
  | ok _ => rfl

/-- **One step** makes at most one request on the table, for the owner. -/
theorem step_entities (m : Machine) (s : ExecState) :
    ∃ changes : List Bool, (m.step s).2.field.entities =
      s.field.entities.after (changes.map (.setPassable m.owner)) := by
  unfold step
  split
  · exact ⟨[], rfl⟩
  · rename_i i hi
    by_cases hset : ∃ passable, i = .setPassable passable
    · obtain ⟨passable, rfl⟩ := hset
      exact ⟨[passable], execute_setPassable passable⟩
    · exact ⟨[], execute_entities fun passable heq => hset ⟨passable, heq⟩⟩

end Machine

theorem EntityTable.after_append (t : EntityTable) (a b : List EntityRequest) :
    t.after (a ++ b) = (t.after a).after b := by
  induction a generalizing t with
  | nil => rfl
  | cons request a ih => exact ih (t.ask request).2

/-- **A run** makes requests for the owner only. -/
theorem Machine.run_entities (m : Machine) (limit : Nat) (s : ExecState) :
    ∃ changes : List Bool, (m.run limit s).2.field.entities =
      s.field.entities.after (changes.map (.setPassable m.owner)) := by
  induction limit generalizing s with
  | zero => exact ⟨[], rfl⟩
  | succ limit ih =>
    obtain ⟨changes, hstep⟩ := m.step_entities s
    rw [run]
    split
    · rename_i t heq
      rw [heq] at hstep
      obtain ⟨more, hrest⟩ := ih t
      refine ⟨changes ++ more, ?_⟩
      rw [List.map_append, EntityTable.after_append, ← hstep]
      exact hrest
    · rename_i t heq
      rw [heq] at hstep
      exact ⟨changes, hstep⟩
    · rename_i t _ _ heq
      rw [heq] at hstep
      exact ⟨changes, hstep⟩
    · rename_i f t heq
      rw [heq] at hstep
      exact ⟨changes, hstep⟩

/-! ## Owners that are gone -/

namespace EntityTable

variable {t : EntityTable} {log : List EntityEntry} {id : EntityId}

theorem Keeps.not_live (h : t.Keeps log) (hid : Removed log id) : ¬ t.isLive id = true := by
  intro hlive
  have hlt := h.removed id hid
  rw [(isLive_iff.1 hlive).1] at hlt
  exact Nat.lt_irrefl _ hlt

theorem setPassable_of_not_live (h : ¬ t.isLive id = true) (passable : Bool) :
    t.setPassable id passable = (.error (.unknownEntity id), t) := by
  rw [setPassable_eq, record?_of_not_live h]
  rfl

theorem after_of_not_live (h : ¬ t.isLive id = true) (changes : List Bool) :
    t.after (changes.map (.setPassable id)) = t := by
  induction changes with
  | nil => rfl
  | cons passable changes ih =>
    rw [List.map_cons, after, ask, setPassable_of_not_live h]
    exact ih

/-! ## Handles -/

/-- No look-up by slot goes past the slots, and no live entity is without its record: in the free
list, in the list of entities, on removal. -/
structure InBounds (t : EntityTable) : Prop where
  free : ∀ slot ∈ t.free, slot < t.generations.size
  records : ∀ slot record, t.records[slot]? = some record → slot < t.generations.size
  live : ∀ id, t.isLive id = true → ∃ record, t.records[id.slot]? = some record

/-- All that can be asked about a handle is answered as befits the record of its entity, or as
befits a handle that names none. -/
structure Answers (t : EntityTable) (id : EntityId) (known : Option EntityRecord) : Prop where
  isLive : t.isLive id = known.isSome
  get : t.get id = answerFor id known
  destroy : (t.destroy id).1 = answerFor id known
  setPassable : ∀ passable, t.setPassable id passable =
    ((answerFor id known).map fun _ => (), t.withPassable id passable known)

namespace Sound

theorem inBounds (ht : t.Sound) : t.InBounds where
  free slot h := ((ht.free slot).1 h).1
  records slot record h := ht.slot_lt (by rw [h]; rfl)
  live id h := by
    have hsome := ht.isSome_record? id
    rw [record?, if_pos h, h] at hsome
    exact Option.isSome_iff_exists.1 hsome

theorem answers (ht : t.Sound) (id : EntityId) : t.Answers id (t.record? id) :=
  ⟨(ht.isSome_record? id).symm, get_eq t id, destroy_fst t id, setPassable_eq t id⟩

/-- The list of entities has each live handle with its record. -/
theorem mem_toList (ht : t.Sound) (id : EntityId) (record : EntityRecord) :
    (id, record) ∈ t.toList ↔ t.record? id = some record := by
  unfold toList
  rw [List.mem_map]
  constructor
  · rintro ⟨⟨slot, found⟩, hmem, heq⟩
    cases heq
    have hlook := Std.ExtTreeMap.mem_toList_iff_getElem?_eq_some.1 hmem
    have hodd := (ht.occupied slot).1 (by rw [hlook]; rfl)
    rw [record?, if_pos (isLive_iff.2 ⟨rfl, hodd⟩), hlook]
  · intro hrecord
    have hlive : t.isLive id = true := by
      rw [← ht.isSome_record? id, hrecord]
      rfl
    rw [record?, if_pos hlive] at hrecord
    refine ⟨(id.slot, record), Std.ExtTreeMap.mem_toList_iff_getElem?_eq_some.2 hrecord, ?_⟩
    show (EntityId.mk id.slot (t.generation id.slot), record) = (id, record)
    rw [(isLive_iff.1 hlive).1]

theorem ask_failed (ht : t.Sound) {request : EntityRequest} {fault : Fault}
    (h : (t.ask request).1 = .failed fault) : (t.ask request).2 = t := by
  cases request with
  | spawn record => cases h
  | destroy id =>
    by_cases hlive : t.isLive id = true
    · -- a live entity has a record, so its removal does not fail
      obtain ⟨record, hrecord⟩ := ht.inBounds.live id hlive
      have hanswer : (t.destroy id).1 = .ok record := by
        rw [destroy_fst, record?, if_pos hlive, hrecord]
        rfl
      rw [ask] at h
      split at h
      · cases h
      · rename_i heq
        rw [heq] at hanswer
        cases hanswer
    · rw [ask, destroy_of_not_live hlive]
  | setPassable id passable =>
    rcases (setPassable_harmless t id passable).cases with ⟨e, hset⟩ | ⟨_, u, hset⟩
    · rw [ask, hset]
    · rw [ask, hset] at h
      cases h

end Sound

theorem Keeps.fresh (h : t.Keeps log) (record : EntityRecord) :
    ¬ Issued log (t.spawn record).1 := by
  intro hissued
  have hle := h.issued _ hissued
  rw [(spawned h.toSound record).handle] at hle
  omega

end EntityTable

open EntityTable in
/-- **Handles are never confused.** After any requests on an empty table: the slots are in order,
and no look-up by slot can miss; a spawn returns a handle that no spawn has returned before; every
question about a handle is answered by the record that the log gives it, from the spawn that
returned it until it is destroyed; the list of entities is that of these handles; and a request that
fails changes nothing. A script makes requests for its own owner only. If the owner has been
removed, the script faults where it would make the owner passable or solid, and leaves the table
alone, whatever it does. -/
theorem handles_never_confused (requests : List EntityRequest) :
    let t := EntityTable.empty.after requests
    let log := EntityTable.empty.log requests
    t.Sound ∧ t.InBounds ∧
    (∀ record, ¬ Issued log (t.spawn record).1) ∧
    (∀ id, t.Answers id (occupant log id)) ∧
    (∀ id record, (id, record) ∈ t.toList ↔ occupant log id = some record) ∧
    (∀ request fault, (t.ask request).1 = .failed fault → (t.ask request).2 = t) ∧
    ∀ (m : Machine) (s : ExecState), s.field.entities = t →
      (∀ limit, ∃ changes : List Bool, (m.run limit s).2.field.entities =
        t.after (changes.map (.setPassable m.owner))) ∧
      (Removed log m.owner →
        (∀ passable, m.program.get? s.cursor.pc = some (.setPassable passable) →
          m.step s = (.error (.unknownEntity m.owner), s)) ∧
        ∀ limit, (m.run limit s).2.field.entities = t) := by
  intro t log
  have hkeeps : t.Keeps log := keeps_after keeps_empty requests
  refine ⟨hkeeps.toSound, hkeeps.inBounds, hkeeps.fresh, ?_, ?_, ?_, ?_⟩
  · intro id
    rw [← hkeeps.record]
    exact hkeeps.answers id
  · intro id record
    rw [← hkeeps.record]
    exact hkeeps.mem_toList id record
  · intro request fault h
    exact hkeeps.ask_failed h
  · intro m s hs
    constructor
    · intro limit
      obtain ⟨changes, hrun⟩ := m.run_entities limit s
      exact ⟨changes, by rw [hrun, hs]⟩
    · intro hgone
      have hlive := hkeeps.not_live hgone
      constructor
      · intro passable hget
        rw [Machine.step, hget]
        show s.withField (s.field.setPassable m.owner passable) = _
        rw [← hs] at hlive
        rw [Field.setPassable, setPassable_of_not_live hlive]
        rfl
      · intro limit
        obtain ⟨changes, hrun⟩ := m.run_entities limit s
        rw [hrun, hs, after_of_not_live hlive]

/-- The slot of a removed entity is given to another one; a script of the former is refused, and the
latter stays as it is. -/
theorem handles_never_confused_reused :
    let requests : List EntityRequest :=
      [.spawn ⟨"guard", false⟩, .destroy ⟨0, 1⟩, .spawn ⟨"door", false⟩]
    let m : Machine := ⟨.ofInstructions "guard" [.setPassable true], ⟨0, 1⟩, 8⟩
    let s : ExecState :=
      ⟨.start, { Field.ofSeed 0 with entities := EntityTable.empty.after requests }⟩
    s.field.entities.get ⟨0, 3⟩ = .ok ⟨"door", false⟩ ∧
    m.step s = (.error (.unknownEntity ⟨0, 1⟩), s) ∧
    ∀ limit, (m.run limit s).2.field.entities = s.field.entities := by
  intro requests m s
  obtain ⟨-, -, -, hanswers, -, -, hscripts⟩ := handles_never_confused requests
  have hgone : EntityTable.Removed (EntityTable.empty.log requests) m.owner :=
    ⟨⟨"guard", false⟩, by decide +kernel⟩
  obtain ⟨hstep, hrun⟩ := (hscripts m s rfl).2 hgone
  have hdoor : EntityTable.occupant (EntityTable.empty.log requests) ⟨0, 3⟩ =
      some ⟨"door", false⟩ := by decide +kernel
  refine ⟨?_, hstep true (by decide +kernel), hrun⟩
  have hget := (hanswers ⟨0, 3⟩).get
  rw [hdoor] at hget
  exact hget

end FieldEngine
