import FieldEngine.Field.EntityTable
import FieldEngine.Proofs.OrderedMap

/-!
# Entity handles

What can be asked of an entity table, as data: `EntityTable.ask` carries out one request,
`EntityTable.after` and `EntityTable.log` a sequence of them, the latter with the answers. A log
says by itself which handles name an entity and what its record is (`EntityTable.occupant`): a
handle names one from the spawn that returned it until a request to destroy it. The table keeps to
its log:

    t.Keeps log → (t.ask request).2.Keeps (log ++ [(request, (t.ask request).1)])      (keeps_ask)
    (empty.after requests).Keeps (empty.log requests)                                (keeps_after)

`EntityTable.Keeps` has the slots in order (`EntityTable.Sound`) and bounds the generations of the
handles that were issued or have been removed, so that none is issued again.
-/

namespace FieldEngine

/-! ## Requests -/

/-- What can be asked of an entity table. -/
inductive EntityRequest
  | spawn (record : EntityRecord)
  | destroy (id : EntityId)
  | setPassable (id : EntityId) (passable : Bool)
deriving DecidableEq

inductive EntityAnswer
  | placed (id : EntityId)
  | removed (record : EntityRecord)
  | done
  | failed (fault : Fault)
deriving DecidableEq

abbrev EntityEntry := EntityRequest × EntityAnswer

namespace EntityTable

def ask (t : EntityTable) : EntityRequest → EntityAnswer × EntityTable
  | .spawn record => (t.spawn record).map .placed id
  | .destroy id =>
    match t.destroy id with
    | (.ok record, u) => (.removed record, u)
    | (.error fault, u) => (.failed fault, u)
  | .setPassable id passable =>
    match t.setPassable id passable with
    | (.ok (), u) => (.done, u)
    | (.error fault, u) => (.failed fault, u)

def after (t : EntityTable) : List EntityRequest → EntityTable
  | [] => t
  | request :: rest => (t.ask request).2.after rest

def log (t : EntityTable) : List EntityRequest → List EntityEntry
  | [] => []
  | request :: rest => (request, (t.ask request).1) :: (t.ask request).2.log rest

/-! ## What a log says -/

/-- A spawn has returned the handle. -/
def Issued (log : List EntityEntry) (id : EntityId) : Prop :=
  ∃ record, (.spawn record, .placed id) ∈ log

/-- The entity of the handle has been removed. -/
def Removed (log : List EntityEntry) (id : EntityId) : Prop :=
  ∃ record, (.destroy id, .removed record) ∈ log

/-- What one entry says of the entity of a handle, of which something may be known before. -/
def note (id : EntityId) (known : Option EntityRecord) : EntityEntry → Option EntityRecord
  | (.spawn record, .placed issued) => if issued = id then some record else known
  | (.spawn _, _) => known
  | (.destroy target, _) => if target = id then none else known
  | (.setPassable target passable, _) =>
    if target = id then known.map fun record => { record with passable } else known

/-- The record of the entity that a handle names at the end of a log. -/
def occupant (log : List EntityEntry) (id : EntityId) : Option EntityRecord :=
  log.foldl (note id) none

theorem occupant_append (log : List EntityEntry) (entry : EntityEntry) (id : EntityId) :
    occupant (log ++ [entry]) id = note id (occupant log id) entry := by
  rw [occupant, List.foldl_append]
  rfl

theorem issued_append {log : List EntityEntry} {entry : EntityEntry} {id : EntityId}
    (h : Issued (log ++ [entry]) id) :
    Issued log id ∨ ∃ record, entry = (.spawn record, .placed id) := by
  obtain ⟨record, hmem⟩ := h
  rcases List.mem_append.1 hmem with hmem | hmem
  · exact .inl ⟨record, hmem⟩
  · exact .inr ⟨record, (List.mem_singleton.1 hmem).symm⟩

theorem removed_append {log : List EntityEntry} {entry : EntityEntry} {id : EntityId}
    (h : Removed (log ++ [entry]) id) :
    Removed log id ∨ ∃ record, entry = (.destroy id, .removed record) := by
  obtain ⟨record, hmem⟩ := h
  rcases List.mem_append.1 hmem with hmem | hmem
  · exact .inl ⟨record, hmem⟩
  · exact .inr ⟨record, (List.mem_singleton.1 hmem).symm⟩

/-! ## Slots -/

/-- The slots are in order: a slot has a record exactly if its generation is odd, and the free slots
are those of even generation, each listed once. -/
structure Sound (t : EntityTable) : Prop where
  occupied : ∀ slot, t.records[slot]?.isSome = true ↔ t.generation slot % 2 = 1
  free : ∀ slot, slot ∈ t.free ↔ slot < t.generations.size ∧ t.generation slot % 2 = 0
  nodup : t.free.Nodup

variable {t : EntityTable} {id : EntityId}

theorem generation_of_le {slot : Nat} (h : t.generations.size ≤ slot) : t.generation slot = 0 := by
  unfold generation
  rw [Array.getD_eq_getD_getElem?, Array.getElem?_eq_none h]
  rfl

/-- A handle is live if its generation is that of its slot, and odd. -/
theorem isLive_iff :
    t.isLive id = true ↔ t.generation id.slot = id.generation ∧ id.generation % 2 = 1 := by
  unfold isLive generation
  rw [Array.getD_eq_getD_getElem?]
  simp only [Bool.and_eq_true, beq_iff_eq]
  cases h : t.generations[id.slot]? with
  | some g => simp
  | none =>
    simp only [Option.getD_none]
    constructor
    · rintro ⟨hnone, -⟩
      cases hnone
    · rintro ⟨hzero, hodd⟩
      omega

/-- The record of the entity that a handle names. -/
def record? (t : EntityTable) (id : EntityId) : Option EntityRecord :=
  if t.isLive id then t.records[id.slot]? else none

theorem record?_of_not_live (h : ¬ t.isLive id = true) : t.record? id = none :=
  if_neg h

/-- What a handle names depends on its own slot only. -/
theorem record?_congr {u : EntityTable} (hgeneration : u.generation id.slot = t.generation id.slot)
    (hrecord : u.records[id.slot]? = t.records[id.slot]?) : u.record? id = t.record? id := by
  have hlive : u.isLive id = t.isLive id := by
    rw [Bool.eq_iff_iff, isLive_iff, isLive_iff, hgeneration]
  rw [record?, record?, hlive, hrecord]

theorem eq_of_slot {a b : EntityId} (hslot : a.slot = b.slot)
    (hgeneration : a.generation = b.generation) : a = b := by
  cases a
  cases b
  cases hslot
  cases hgeneration
  rfl

namespace Sound

theorem isSome_record? (ht : t.Sound) (id : EntityId) :
    (t.record? id).isSome = t.isLive id := by
  unfold record?
  cases hlive : t.isLive id with
  | false => rfl
  | true =>
    obtain ⟨hgeneration, hodd⟩ := isLive_iff.1 hlive
    exact (ht.occupied id.slot).2 (by rw [hgeneration]; exact hodd)

theorem slot_lt (ht : t.Sound) {slot : Nat} (h : t.records[slot]?.isSome = true) :
    slot < t.generations.size := by
  have hodd := (ht.occupied slot).1 h
  by_cases hslot : slot < t.generations.size
  · exact hslot
  · rw [generation_of_le (Nat.le_of_not_lt hslot)] at hodd
    omega

end Sound

theorem sound_empty : empty.Sound := by
  refine ⟨?_, ?_, List.nodup_nil⟩
  · intro slot
    simp [empty, generation]
  · intro slot
    simp [empty]

/-! ## Spawning -/

theorem getD_modify (generations : Array Nat) {slot : Nat} (h : slot < generations.size) (k : Nat) :
    (generations.modify slot (· + 1)).getD k 0 =
      if k = slot then generations.getD k 0 + 1 else generations.getD k 0 := by
  rw [Array.getD_eq_getD_getElem?, Array.getD_eq_getD_getElem?, Array.getElem?_modify]
  by_cases hk : k = slot
  · subst hk
    rw [if_pos rfl, if_pos rfl, Array.getElem?_eq_getElem h]
    rfl
  · rw [if_neg hk, if_neg (fun heq => hk heq.symm)]

theorem getD_push (generations : Array Nat) (k : Nat) :
    (generations.push 1).getD k 0 =
      if k = generations.size then generations.getD k 0 + 1 else generations.getD k 0 := by
  rw [Array.getD_eq_getD_getElem?, Array.getD_eq_getD_getElem?, Array.getElem?_push]
  by_cases hk : k = generations.size
  · subst hk
    rw [if_pos rfl, if_pos rfl, Array.getElem?_eq_none (Nat.le_refl _)]
    rfl
  · rw [if_neg hk, if_neg hk]

/-- What a spawn does: the entity gets a slot of even generation, which goes up by one; nothing else
changes but that this slot is not free any more. -/
structure Spawned (t : EntityTable) (record : EntityRecord) (id : EntityId) (u : EntityTable) :
    Prop where
  even : t.generation id.slot % 2 = 0
  handle : id.generation = t.generation id.slot + 1
  generation : ∀ k, u.generation k =
    if k = id.slot then t.generation k + 1 else t.generation k
  records : u.records = t.records.insert id.slot record
  free : ∀ k, k ∈ u.free ↔ k ∈ t.free ∧ k ≠ id.slot
  size : ∀ k, k < u.generations.size ↔ k < t.generations.size ∨ k = id.slot
  nodup : u.free.Nodup

theorem spawned (ht : t.Sound) (record : EntityRecord) :
    t.Spawned record (t.spawn record).1 (t.spawn record).2 := by
  unfold spawn
  cases hfree : t.free with
  | cons slot free =>
    have hslot := (ht.free slot).1 (by rw [hfree]; exact List.mem_cons_self)
    have hnodup := ht.nodup
    rw [hfree] at hnodup
    obtain ⟨hnot, hrest⟩ := List.nodup_cons.1 hnodup
    refine ⟨hslot.2, ?_, ?_, rfl, ?_, ?_, hrest⟩
    · show (t.generations.modify slot (· + 1)).getD slot 0 = t.generation slot + 1
      rw [getD_modify _ hslot.1, if_pos rfl]
      rfl
    · exact getD_modify _ hslot.1
    · intro k
      show k ∈ free ↔ k ∈ t.free ∧ k ≠ slot
      rw [hfree]
      constructor
      · intro hk
        exact ⟨List.mem_cons_of_mem _ hk, fun heq => hnot (heq ▸ hk)⟩
      · rintro ⟨hk, hne⟩
        exact (List.mem_cons.1 hk).resolve_left hne
    · intro k
      show k < (t.generations.modify slot (· + 1)).size ↔ k < t.generations.size ∨ k = slot
      rw [Array.size_modify]
      omega
  | nil =>
    have hzero : t.generation t.generations.size = 0 := generation_of_le (Nat.le_refl _)
    refine ⟨?_, ?_, getD_push t.generations, rfl, ?_, ?_, List.nodup_nil⟩
    · show t.generation t.generations.size % 2 = 0
      rw [hzero]
    · show 1 = t.generation t.generations.size + 1
      rw [hzero]
    · intro k
      show k ∈ [] ↔ k ∈ t.free ∧ k ≠ t.generations.size
      simp [hfree]
    · intro k
      show k < (t.generations.push 1).size ↔ k < t.generations.size ∨ k = t.generations.size
      rw [Array.size_push]
      omega

namespace Spawned

variable {u : EntityTable} {record : EntityRecord}

theorem sound (h : t.Spawned record id u) (ht : t.Sound) : u.Sound := by
  refine ⟨?_, ?_, h.nodup⟩
  · intro k
    rw [h.records, OrderedMap.getElem?_insert, h.generation]
    by_cases hk : k = id.slot
    · rw [if_pos hk.symm, if_pos hk]
      have heven := h.even
      rw [← hk] at heven
      simp only [Option.isSome_some, true_iff]
      omega
    · rw [if_neg (fun heq => hk heq.symm), if_neg hk]
      exact ht.occupied k
  · intro k
    rw [h.free, ht.free, h.size, h.generation]
    by_cases hk : k = id.slot
    · rw [if_pos hk]
      have heven := h.even
      rw [← hk] at heven
      constructor
      · rintro ⟨-, hne⟩
        exact absurd hk hne
      · rintro ⟨-, hodd⟩
        omega
    · rw [if_neg hk]
      constructor
      · rintro ⟨⟨hlt, heven⟩, -⟩
        exact ⟨.inl hlt, heven⟩
      · rintro ⟨hlt, heven⟩
        exact ⟨⟨hlt.resolve_right hk, heven⟩, hk⟩

theorem record? (h : t.Spawned record id u) (other : EntityId) :
    u.record? other = if id = other then some record else t.record? other := by
  have hlook : u.records[other.slot]? =
      if id.slot = other.slot then some record else t.records[other.slot]? := by
    rw [h.records, OrderedMap.getElem?_insert]
  by_cases hslot : other.slot = id.slot
  · have hgeneration : u.generation other.slot = id.generation := by
      rw [h.generation, if_pos hslot, hslot, h.handle]
    by_cases hid : id = other
    · subst hid
      have hlive : u.isLive id = true := by
        have heven := h.even
        have hhandle := h.handle
        exact isLive_iff.2 ⟨hgeneration, by omega⟩
      rw [if_pos rfl, EntityTable.record?, if_pos hlive, hlook, if_pos rfl]
    · -- the slot was free before, and now has another generation
      have hnew : ¬ u.isLive other = true := by
        intro hlive
        have hsame := (isLive_iff.1 hlive).1
        rw [hgeneration] at hsame
        exact hid (eq_of_slot hslot.symm hsame)
      have hold : ¬ t.isLive other = true := by
        intro hlive
        obtain ⟨hsame, hodd⟩ := isLive_iff.1 hlive
        have heven := h.even
        rw [← hslot] at heven
        omega
      rw [if_neg hid, record?_of_not_live hnew, record?_of_not_live hold]
  · have hid : id ≠ other := fun heq => hslot (heq ▸ rfl)
    rw [if_neg hid]
    apply record?_congr
    · rw [h.generation, if_neg hslot]
    · rw [hlook, if_neg (fun heq => hslot heq.symm)]

end Spawned

/-! ## Answers about a handle -/

/-- The answer for a handle whose entity has a record, or for one that names no entity. -/
def answerFor (id : EntityId) : Option EntityRecord → Except Fault EntityRecord
  | some record => .ok record
  | none => .error (.unknownEntity id)

theorem get_eq (t : EntityTable) (id : EntityId) : t.get id = answerFor id (t.record? id) := by
  unfold get record?
  split
  · cases t.records[id.slot]? with
    | none => rfl
    | some record => rfl
  · rfl

theorem destroy_fst (t : EntityTable) (id : EntityId) :
    (t.destroy id).1 = answerFor id (t.record? id) := by
  unfold destroy record?
  split
  · dsimp only
    cases t.records[id.slot]? with
    | none => rfl
    | some record => rfl
  · rfl

/-- The table with another passability for an entity that has a record. -/
def withPassable (t : EntityTable) (id : EntityId) (passable : Bool) :
    Option EntityRecord → EntityTable
  | some record => { t with records := t.records.insert id.slot { record with passable } }
  | none => t

theorem setPassable_eq (t : EntityTable) (id : EntityId) (passable : Bool) :
    t.setPassable id passable =
      ((answerFor id (t.record? id)).map fun _ => (),
        t.withPassable id passable (t.record? id)) := by
  unfold setPassable
  rw [get_eq]
  cases t.record? id with
  | none => rfl
  | some record => rfl

/-! ## Destroying -/

theorem destroy_of_not_live (h : ¬ t.isLive id = true) :
    t.destroy id = (.error (.unknownEntity id), t) := by
  unfold destroy
  rw [if_neg h]

/-- What the removal of a live entity does: the generation of its slot goes up by one, and the slot
is free. -/
structure Freed (t : EntityTable) (id : EntityId) (u : EntityTable) : Prop where
  live : t.isLive id = true
  generation : ∀ k, u.generation k =
    if k = id.slot then t.generation k + 1 else t.generation k
  records : u.records = t.records.erase id.slot
  free : u.free = id.slot :: t.free
  size : u.generations.size = t.generations.size

theorem freed (ht : t.Sound) (h : t.isLive id = true) : t.Freed id (t.destroy id).2 := by
  have hsome : t.records[id.slot]?.isSome = true := by
    have := ht.isSome_record? id
    rwa [record?, if_pos h, h] at this
  have hslot := ht.slot_lt hsome
  have hdestroy : (t.destroy id).2 =
      ⟨t.generations.modify id.slot (· + 1), id.slot :: t.free, t.records.erase id.slot⟩ := by
    unfold destroy
    rw [if_pos h]
    dsimp only
    cases t.records[id.slot]? with
    | none => rfl
    | some record => rfl
  rw [hdestroy]
  exact ⟨h, getD_modify _ hslot, rfl, rfl, Array.size_modify⟩

namespace Freed

variable {u : EntityTable}

theorem sound (h : t.Freed id u) (ht : t.Sound) : u.Sound := by
  obtain ⟨hsame, hodd⟩ := isLive_iff.1 h.live
  rw [← hsame] at hodd
  refine ⟨?_, ?_, ?_⟩
  · intro k
    rw [h.records, OrderedMap.getElem?_erase, h.generation]
    by_cases hk : k = id.slot
    · rw [if_pos hk.symm, if_pos hk]
      rw [← hk] at hodd
      simp only [Option.isSome_none, Bool.false_eq_true, false_iff]
      omega
    · rw [if_neg (fun heq => hk heq.symm), if_neg hk]
      exact ht.occupied k
  · intro k
    rw [h.free, List.mem_cons, ht.free, h.size, h.generation]
    by_cases hk : k = id.slot
    · rw [if_pos hk]
      rw [← hk] at hodd
      have hlt := ht.slot_lt ((ht.occupied k).2 hodd)
      simp only [hk, true_or, true_iff]
      rw [← hk]
      omega
    · rw [if_neg hk]
      simp only [hk, false_or]
  · rw [h.free, List.nodup_cons]
    refine ⟨?_, ht.nodup⟩
    rw [ht.free]
    omega

theorem record? (h : t.Freed id u) (other : EntityId) :
    u.record? other = if id = other then none else t.record? other := by
  obtain ⟨hsame, hodd⟩ := isLive_iff.1 h.live
  by_cases hslot : other.slot = id.slot
  · -- neither the removed entity nor any other is in the slot now
    have hnew : ¬ u.isLive other = true := by
      intro hlive
      obtain ⟨hgeneration, hother⟩ := isLive_iff.1 hlive
      rw [h.generation, if_pos hslot, hslot, hsame] at hgeneration
      omega
    rw [record?_of_not_live hnew]
    by_cases hid : id = other
    · rw [if_pos hid]
    · rw [if_neg hid, record?_of_not_live]
      intro hlive
      have hgeneration := (isLive_iff.1 hlive).1
      rw [hslot, hsame] at hgeneration
      exact hid (eq_of_slot hslot.symm hgeneration)
  · have hid : id ≠ other := fun heq => hslot (heq ▸ rfl)
    rw [if_neg hid]
    apply record?_congr
    · rw [h.generation, if_neg hslot]
    · rw [h.records, OrderedMap.getElem?_erase, if_neg (fun heq => hslot heq.symm)]

end Freed

/-! ## Walking through -/

/-- Putting another record in the place of that of a live entity. -/
theorem sound_replace (ht : t.Sound) (h : t.isLive id = true) (record : EntityRecord) :
    Sound { t with records := t.records.insert id.slot record } := by
  refine ⟨?_, ht.free, ht.nodup⟩
  intro k
  show (t.records.insert id.slot record)[k]?.isSome = true ↔ t.generation k % 2 = 1
  obtain ⟨hsame, hodd⟩ := isLive_iff.1 h
  rw [OrderedMap.getElem?_insert]
  by_cases hk : id.slot = k
  · rw [if_pos hk, ← hk, hsame, hodd]
    simp
  · rw [if_neg hk]
    exact ht.occupied k

theorem record?_replace (h : t.isLive id = true) (record : EntityRecord) (other : EntityId) :
    record? { t with records := t.records.insert id.slot record } other =
      if id = other then some record else t.record? other := by
  have hlive : isLive { t with records := t.records.insert id.slot record } other =
      t.isLive other := rfl
  rw [record?, record?, hlive, OrderedMap.getElem?_insert]
  by_cases hid : id = other
  · rw [if_pos hid, if_pos (hid ▸ h), if_pos (hid ▸ rfl)]
  · rw [if_neg hid]
    by_cases hother : t.isLive other = true
    · -- live handles of one slot are equal
      have hslot : id.slot ≠ other.slot := by
        intro hslot
        have hsame := (isLive_iff.1 h).1
        have hsame' := (isLive_iff.1 hother).1
        rw [hslot, hsame'] at hsame
        exact hid (eq_of_slot hslot hsame.symm)
      rw [if_pos hother, if_pos hother, if_neg hslot]
    · rw [if_neg hother, if_neg hother]

/-! ## Keeping to a log -/

/-- The table is in order, a handle names what the log says, and the handles of the log are of
generations that their slots have reached, those of removed entities of earlier ones. -/
structure Keeps (log : List EntityEntry) (t : EntityTable) : Prop extends t.Sound where
  record : ∀ id, t.record? id = occupant log id
  issued : ∀ id, Issued log id → id.generation ≤ t.generation id.slot
  removed : ∀ id, Removed log id → id.generation < t.generation id.slot

variable {log : List EntityEntry}

theorem keeps_empty : empty.Keeps [] where
  toSound := sound_empty
  record id := record?_of_not_live (by simp [isLive, empty])
  issued id h := by
    obtain ⟨record, h⟩ := h
    cases h
  removed id h := by
    obtain ⟨record, h⟩ := h
    cases h

/-- One more entry: no generation goes down, and the handle that the entry issues or removes is of a
generation that its slot has reached or left. -/
theorem Keeps.next {u : EntityTable} {entry : EntityEntry} (h : t.Keeps log) (hsound : u.Sound)
    (hrecord : ∀ id, u.record? id = note id (t.record? id) entry)
    (hle : ∀ k, t.generation k ≤ u.generation k)
    (hissued : ∀ id record, entry = (.spawn record, .placed id) →
      id.generation ≤ u.generation id.slot)
    (hremoved : ∀ id record, entry = (.destroy id, .removed record) →
      id.generation < u.generation id.slot) :
    u.Keeps (log ++ [entry]) where
  toSound := hsound
  record id := by rw [hrecord, h.record, occupant_append]
  issued id hid := by
    rcases issued_append hid with hid | ⟨record, heq⟩
    · exact Nat.le_trans (h.issued id hid) (hle _)
    · exact hissued id record heq
  removed id hid := by
    rcases removed_append hid with hid | ⟨record, heq⟩
    · exact Nat.lt_of_lt_of_le (h.removed id hid) (hle _)
    · exact hremoved id record heq

theorem le_of_raised {slot : Nat} {u : EntityTable} (h : ∀ k, u.generation k =
    if k = slot then t.generation k + 1 else t.generation k) (k : Nat) :
    t.generation k ≤ u.generation k := by
  rw [h]
  split <;> omega

theorem keeps_spawn (h : t.Keeps log) (record : EntityRecord) :
    (t.spawn record).2.Keeps (log ++ [(.spawn record, .placed (t.spawn record).1)]) := by
  have hspawned := spawned h.toSound record
  generalize (t.spawn record).1 = id at hspawned ⊢
  generalize (t.spawn record).2 = u at hspawned ⊢
  refine h.next (hspawned.sound h.toSound) hspawned.record? (le_of_raised hspawned.generation) ?_
    nofun
  intro other record' heq
  cases heq
  have hgeneration := hspawned.generation id.slot
  rw [if_pos rfl] at hgeneration
  exact Nat.le_of_eq (hspawned.handle.trans hgeneration.symm)

theorem keeps_destroy (h : t.Keeps log) (id : EntityId) :
    (t.ask (.destroy id)).2.Keeps (log ++ [(.destroy id, (t.ask (.destroy id)).1)]) := by
  have hanswer := destroy_fst t id
  by_cases hlive : t.isLive id = true
  · obtain ⟨record, hrecord⟩ : ∃ record, t.record? id = some record := by
      rw [← Option.isSome_iff_exists, h.isSome_record?]
      exact hlive
    have hfreed := freed h.toSound hlive
    rw [hrecord] at hanswer
    have hask : t.ask (.destroy id) = (.removed record, (t.destroy id).2) := by
      rw [ask]
      cases hdestroy : t.destroy id with
      | mk result u =>
        rw [hdestroy] at hanswer
        cases hanswer
        rfl
    rw [hask]
    generalize (t.destroy id).2 = u at hfreed
    refine h.next (hfreed.sound h.toSound) hfreed.record? (le_of_raised hfreed.generation) nofun ?_
    intro other record' heq
    cases heq
    rw [hfreed.generation, if_pos rfl, (isLive_iff.1 hlive).1]
    exact Nat.lt_succ_self _
  · have hask : t.ask (.destroy id) = (.failed (.unknownEntity id), t) := by
      rw [ask, destroy_of_not_live hlive]
    rw [hask]
    refine h.next h.toSound ?_ (fun _ => Nat.le_refl _) nofun nofun
    intro other
    show t.record? other = if id = other then none else t.record? other
    by_cases hid : id = other
    · rw [if_pos hid, ← hid, record?_of_not_live hlive]
    · rw [if_neg hid]

theorem keeps_setPassable (h : t.Keeps log) (id : EntityId) (passable : Bool) :
    (t.ask (.setPassable id passable)).2.Keeps
      (log ++ [(.setPassable id passable, (t.ask (.setPassable id passable)).1)]) := by
  have hset := setPassable_eq t id passable
  cases hrecord : t.record? id with
  | none =>
    have hask : t.ask (.setPassable id passable) = (.failed (.unknownEntity id), t) := by
      rw [ask, hset, hrecord]
      rfl
    rw [hask]
    refine h.next h.toSound ?_ (fun _ => Nat.le_refl _) nofun nofun
    intro other
    show t.record? other = if id = other then _ else t.record? other
    by_cases hid : id = other
    · rw [if_pos hid, ← hid, hrecord]
      rfl
    · rw [if_neg hid]
  | some record =>
    have hlive : t.isLive id = true := by
      rw [← h.isSome_record? id, hrecord]
      rfl
    have hask : t.ask (.setPassable id passable) =
        (.done, { t with records := t.records.insert id.slot { record with passable } }) := by
      rw [ask, hset, hrecord]
      rfl
    rw [hask]
    refine h.next (sound_replace h.toSound hlive _) ?_ (fun _ => Nat.le_refl _) nofun nofun
    intro other
    rw [record?_replace hlive]
    show _ = if id = other then _ else t.record? other
    by_cases hid : id = other
    · rw [if_pos hid, if_pos hid, ← hid, hrecord]
      rfl
    · rw [if_neg hid, if_neg hid]

/-- **One request:** the table keeps to the log. -/
theorem keeps_ask (h : t.Keeps log) (request : EntityRequest) :
    (t.ask request).2.Keeps (log ++ [(request, (t.ask request).1)]) := by
  cases request with
  | spawn record => exact keeps_spawn h record
  | destroy id => exact keeps_destroy h id
  | setPassable id passable => exact keeps_setPassable h id passable

/-- **Any sequence of requests.** -/
theorem keeps_after (h : t.Keeps log) (requests : List EntityRequest) :
    (t.after requests).Keeps (log ++ t.log requests) := by
  induction requests generalizing t log with
  | nil =>
    rw [EntityTable.log, List.append_nil]
    exact h
  | cons request rest ih =>
    have hrest := ih (keeps_ask h request)
    rw [List.append_assoc] at hrest
    exact hrest

end EntityTable

end FieldEngine
