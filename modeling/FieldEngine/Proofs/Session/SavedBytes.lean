import FieldEngine.Proofs.OrderedMap
import FieldEngine.Proofs.Packed.Shapes
import FieldEngine.Session.Codec

/-!
# Snapshots are read as they were written

Each type of a snapshot is carried by its packed value, as long as its numbers are in the range of
their type and its collections and texts have less than `2 ^ 32` entries or bytes. So the bytes of
a snapshot, whatever follows them, are read as that snapshot:

    s.InRange → ofBytes? (s.toBytes ++ junk) = some s                    (ofBytes?_toBytes)
-/

namespace FieldEngine

open Packed

/-! ## Ranges -/

/-- The numbers of a handle have 32 bits. -/
def EntityId.InRange (e : EntityId) : Prop :=
  e.slot < word32 ∧ e.generation < word32

/-- The numbers of a table have 32 bits, and it is not too large. -/
structure EntityTable.InRange (t : EntityTable) : Prop where
  slots : t.generations.size < word32
  generation : ∀ g ∈ t.generations.toList, g < word32
  freed : t.free.length < word32
  free : ∀ slot ∈ t.free, slot < word32
  occupied : t.records.toList.length < word32
  record : ∀ entry ∈ t.records.toList, entry.1 < word32 ∧ entry.2.name.utf8ByteSize < word32

/-- The table is in range, and the field is not too large. -/
structure Field.InRange (f : Field) : Prop where
  memory : f.memory.bytes.size < word32
  flags : f.flags.toList.length < word32
  entities : f.entities.InRange

/-- The indices of a cursor have 64 bits, and there are not too many calls. -/
structure Cursor.InRange (c : Cursor) : Prop where
  pc : c.pc < word64
  depth : c.calls.length < word32
  call : ∀ pc ∈ c.calls, pc < word64

def WaitReason.InRange : WaitReason → Prop
  | animation entity _ => entity.InRange
  | timer _ | dialogue _ _ => True

def Fault.InRange : Fault → Prop
  | unresolvedJump target => -0x8000000000000000 ≤ target ∧ target < 0x8000000000000000
  | callStackOverflow limit => limit < word64
  | unknownEntity id => id.InRange
  | callStackUnderflow | divisionByZero | addressOutOfRange _ _ | invalidBank _ => True

def Status.InRange : Status → Prop
  | suspended reason => reason.InRange
  | faulted fault => fault.InRange
  | running | halted => True

/-- The parts of a saved instance are in range. -/
structure InstanceSnapshot.InRange (i : InstanceSnapshot) : Prop where
  id : i.id < word64
  script : i.script.utf8ByteSize < word32
  owner : i.owner.InRange
  cursor : i.cursor.InRange
  status : i.status.InRange

/-- The next number of a saved scheduler has 64 bits, and its instances are in range. -/
structure SchedulerSnapshot.InRange (s : SchedulerSnapshot) : Prop where
  nextId : s.nextId < word64
  count : s.instances.length < word32
  instances : ∀ i ∈ s.instances, i.InRange

/-- Every number of a snapshot is in the range of its type, and every list and text is shorter than
`2 ^ 32`. -/
structure SessionSnapshot.InRange (s : SessionSnapshot) : Prop where
  field : s.field.InRange
  scheduler : s.scheduler.InRange
  registered : s.scripts.length < word32
  script : ∀ e ∈ s.scripts, e.1.utf8ByteSize < word32 ∧ e.2.length < word32
  replaced : s.detached.length < word32
  detached : ∀ e ∈ s.detached, e.1 < word64 ∧ e.2.length < word32
  waiting : s.timers.length < word32
  timer : ∀ e ∈ s.timers, e.1 < word64

/-! ## Numbers and bytes -/

variable {d : Nat}

theorem carries_count {n : Nat} (h : n < word64) : Carries d count? (.uint n) n :=
  carries_nat (Nat.le_refl _) h

theorem carries_word32 {n : Nat} (h : n < word32) : Carries d (nat? word32) (.uint n) n :=
  carries_nat (by decide) h

theorem carries_byte (b : UInt8) : Carries d byte? (.uint b.toNat) b := by
  have h := (carries_nat (d := d) (show 0x100 ≤ _ by decide) b.toNat_lt).map UInt8.ofNat
  rwa [UInt8.ofNat_toNat] at h

theorem carries_uint16 (n : UInt16) : Carries d uint16? (.uint n.toNat) n := by
  have h := (carries_nat (d := d) (show 0x10000 ≤ _ by decide) n.toNat_lt).map UInt16.ofNat
  rwa [UInt16.ofNat_toNat] at h

theorem carries_uint64 (n : UInt64) : Carries d uint64? (.uint n.toNat) n := by
  have h := (carries_nat (d := d) (Nat.le_refl word64) n.toNat_lt).map UInt64.ofNat
  rwa [UInt64.ofNat_toNat] at h

theorem carries_int32 (i : Int32) : Carries d int32? (ofInt i.toInt) i := by
  have h := (carries_int (d := d) 32 (by decide) i.le_toInt i.toInt_lt).map Int32.ofInt
  rwa [Int32.ofInt_toInt] at h

theorem carries_bytes {bytes : List UInt8} (h : bytes.length < word32) :
    Carries (d + 1) unpackBytes? (packBytes bytes) bytes :=
  carries_list h fun b _ => carries_byte b

/-! ## Field -/

theorem Bank.carries (b : Bank) : Carries d Bank.unpack? b.pack b := by
  have hsplit : ∃ before after, Bank.all.map tag = before ++ b.tag :: after ∧ b.tag ∉ before ∧
      Bank.all[before.length]? = some b ∧ b.tag.utf8ByteSize < word32 := by
    cases b with
    | byte => exact ⟨[], _, rfl, by decide, rfl, by decide⟩
    | word => exact ⟨["Byte"], _, rfl, by decide, rfl, by decide⟩
    | long => exact ⟨["Byte", "Word"], _, rfl, by decide, rfl, by decide⟩
    | signedByte => exact ⟨["Byte", "Word", "Long"], _, rfl, by decide, rfl, by decide⟩
    | signedWord =>
      exact ⟨["Byte", "Word", "Long", "SignedByte"], _, rfl, by decide, rfl, by decide⟩
    | flag =>
      exact ⟨["Byte", "Word", "Long", "SignedByte", "SignedWord"], _, rfl, by decide, rfl,
        by decide⟩
    | temp =>
      exact ⟨["Byte", "Word", "Long", "SignedByte", "SignedWord", "Flag"], _, rfl, by decide, rfl,
        by decide⟩
  obtain ⟨before, after, hall, hnotin, hget, hsize⟩ := hsplit
  have hname : Carries d (variant? (Bank.all.map tag)) (ofText b.tag) (before.length, none) :=
    hall ▸ carries_name before b.tag after hnotin hsize
  exact hname.bind hget

theorem EntityId.carries {e : EntityId} (h : e.InRange) (level : Nat) :
    Carries (d + 1) (EntityId.unpack? level) e.pack e := by
  have hslot := carries_word32 (d := d) h.1
  have hgeneration := carries_word32 (d := d) h.2
  have hfields := carries_fields level ["slot", "generation"] [.uint e.slot, .uint e.generation]
    (by decide) rfl (by simpa using ⟨hslot.fits, hgeneration.fits⟩)
  exact hfields.bind (by simp [hslot.reads, hgeneration.reads])

theorem Memory.carries {m : Memory} (h : m.bytes.size < word32) (level : Nat) :
    Carries (d + 2) (Memory.unpack? level) m.pack m := by
  have hbytes : Carries (d + 1) unpackBytes? (packBytes m.bytes.toList) m.bytes.toList :=
    carries_bytes h
  have hfields := carries_fields level ["bytes"] [packBytes m.bytes.toList] (by decide) rfl
    (by simpa using hbytes.fits)
  exact hfields.bind (by simp [hbytes.reads])

theorem EntityRecord.carries {r : EntityRecord} (h : r.name.utf8ByteSize < word32) (level : Nat) :
    Carries (d + 1) (EntityRecord.unpack? level) r.pack r := by
  have hname := carries_text (d := d) h
  have hpassable := carries_bool (d := d) r.passable
  have hfields := carries_fields level ["name", "passable"] [ofText r.name, .bool r.passable]
    (by decide) rfl (by simpa using ⟨hname.fits, hpassable.fits⟩)
  exact hfields.bind (by simp [hname.reads, hpassable.reads])

/-- The records of slots are written in the order of the slots. -/
theorem EntityTable.carries_records {records : Std.ExtTreeMap Nat EntityRecord}
    (hsize : records.toList.length < word32)
    (h : ∀ entry ∈ records.toList, entry.1 < word32 ∧ entry.2.name.utf8ByteSize < word32)
    (level : Nat) :
    Carries (d + 2) (EntityTable.unpackRecords? level) (EntityTable.packRecords records)
      records := by
  have hrecord : ∀ entry ∈ records.toList,
      Carries (d + 1) (EntityRecord.unpack? (level + 1)) entry.2.pack entry.2 :=
    fun entry hentry => EntityRecord.carries (h entry hentry).2 (level + 1)
  refine ⟨.map ?_ ?_ ?_, ?_⟩
  · show (List.map _ records.toList).length < _
    rwa [List.length_map]
  · intro entry hentry
    obtain ⟨saved, hsaved, rfl⟩ := List.mem_map.1 hentry
    exact (carries_word32 (h saved hsaved).1).fits
  · intro entry hentry
    obtain ⟨saved, hsaved, rfl⟩ := List.mem_map.1 hentry
    exact (hrecord saved hsaved).fits
  · show Option.bind ((records.toList.map _).mapM _) _ = some records
    rw [mapM_map_eq_some]
    · exact congrArg some (OrderedMap.ofList_toList records)
    · intro entry hentry
      simp [(carries_word32 (d := d) (h entry hentry).1).reads, (hrecord entry hentry).reads]

theorem EntityTable.carries {t : EntityTable} (h : t.InRange) (level : Nat) :
    Carries (d + 3) (EntityTable.unpack? level) t.pack t := by
  have hgenerations : Carries (d + 2) (list? (nat? word32)) (ofList .uint t.generations.toList)
      t.generations.toList :=
    carries_list h.slots fun g hg => carries_word32 (h.generation g hg)
  have hfree : Carries (d + 2) (list? (nat? word32)) (ofList .uint t.free.reverse)
      t.free.reverse :=
    carries_list (by rw [List.length_reverse]; exact h.freed)
      fun slot hslot => carries_word32 (h.free slot (List.mem_reverse.1 hslot))
  have hrecords : Carries (d + 2) (EntityTable.unpackRecords? (level + 1)) _ t.records :=
    EntityTable.carries_records h.occupied h.record (level + 1)
  have hfields := carries_fields level ["generations", "free_list", "records"]
    [ofList .uint t.generations.toList, ofList .uint t.free.reverse,
      EntityTable.packRecords t.records] (by decide) rfl
    (by simpa using ⟨hgenerations.fits, hfree.fits, hrecords.fits⟩)
  exact hfields.bind (by simp [hgenerations.reads, hfree.reads, hrecords.reads])

theorem Field.carries {f : Field} (h : f.InRange) (level : Nat) :
    Carries (d + 4) (Field.unpack? level) f.pack f := by
  have hmemory : Carries (d + 3) (Memory.unpack? (level + 1)) f.memory.pack f.memory :=
    Memory.carries h.memory (level + 1)
  have hflags : Carries (d + 3) (list? uint16?) _ f.flags.toList :=
    carries_list h.flags fun flag _ => carries_uint16 flag
  have hentities : Carries (d + 3) (EntityTable.unpack? (level + 1)) f.entities.pack f.entities :=
    EntityTable.carries h.entities (level + 1)
  have hseed := carries_uint64 (d := d + 3) f.seed
  have hdraws := carries_uint64 (d := d + 3) f.draws
  have hfields := carries_fields level ["memory", "flags", "entities", "seed", "draws"]
    [f.memory.pack, ofList (fun flag => .uint flag.toNat) f.flags.toList, f.entities.pack,
      .uint f.seed.toNat, .uint f.draws.toNat] (by decide) rfl
    (by simpa using ⟨hmemory.fits, hflags.fits, hentities.fits, hseed.fits, hdraws.fits⟩)
  refine hfields.bind ?_
  simp [hmemory.reads, hflags.reads, hentities.reads, hseed.reads, hdraws.reads,
    OrderedMap.set_ofList_toList]

/-! ## Scheduler -/

theorem Cursor.tempsOf?_toList (temps : Temps) : tempsOf? temps.toList = some temps := by
  unfold tempsOf?
  rw [dif_pos temps.length_toList]
  rfl

theorem Cursor.carries {c : Cursor} (h : c.InRange) (level : Nat) :
    Carries (d + 2) (Cursor.unpack? level) c.pack c := by
  have hpc := carries_count (d := d + 1) h.pc
  have hcalls : Carries (d + 1) (list? count?) (ofList .uint c.calls.reverse) c.calls.reverse :=
    carries_list (by rw [List.length_reverse]; exact h.depth)
      fun pc hpc => carries_count (h.call pc (List.mem_reverse.1 hpc))
  have htemps : Carries (d + 1) (list? int32?) _ c.temps.toList :=
    carries_list (by rw [c.temps.length_toList]; decide) fun value _ => carries_int32 value
  have hfields := carries_fields level ["pc", "call_stack", "temps"]
    [.uint c.pc, ofList .uint c.calls.reverse,
      ofList (fun value => ofInt value.toInt) c.temps.toList] (by decide) rfl
    (by simpa using ⟨hpc.fits, hcalls.fits, htemps.fits⟩)
  have hexact : exactly? tempSlots (ofList (fun value => ofInt value.toInt) c.temps.toList) =
      some (c.temps.toList.map fun value => ofInt value.toInt) :=
    if_pos (by rw [List.length_map, c.temps.length_toList])
  have hvalues : (c.temps.toList.map fun value => ofInt value.toInt).mapM int32? =
      some c.temps.toList := htemps.reads
  refine hfields.bind ?_
  simp [hpc.reads, hcalls.reads, hexact, hvalues, Cursor.tempsOf?_toList]

theorem WaitReason.carries {r : WaitReason} (h : r.InRange) (level : Nat) :
    Carries (d + 3) (WaitReason.unpack? level) r.pack r := by
  cases r with
  | timer frames =>
    have hframes := carries_int32 (d := d + 1) frames
    have hfields := carries_fields level ["frames"] [ofInt frames.toInt] (by decide) rfl
      (by simpa using hframes.fits)
    have hvariant := carries_variant [] "Timer" ["Dialogue", "Animation"] (by decide) (by decide)
      hfields.fits
    exact hvariant.bind ((hfields.bind (by simp [hframes.reads])).reads)
  | dialogue channel message =>
    have hchannel := carries_int32 (d := d + 1) channel
    have hmessage := carries_int32 (d := d + 1) message
    have hfields := carries_fields level ["channel", "message"]
      [ofInt channel.toInt, ofInt message.toInt] (by decide) rfl
      (by simpa using ⟨hchannel.fits, hmessage.fits⟩)
    have hvariant := carries_variant ["Timer"] "Dialogue" ["Animation"] (by decide) (by decide)
      hfields.fits
    exact hvariant.bind ((hfields.bind (by simp [hchannel.reads, hmessage.reads])).reads)
  | animation entity number =>
    have hentity : Carries (d + 1) (EntityId.unpack? (level + 1)) entity.pack entity :=
      EntityId.carries h (level + 1)
    have hnumber := carries_uint16 (d := d + 1) number
    have hfields := carries_fields level ["entity", "animation"]
      [entity.pack, .uint number.toNat] (by decide) rfl
      (by simpa using ⟨hentity.fits, hnumber.fits⟩)
    have hvariant := carries_variant ["Timer", "Dialogue"] "Animation" [] (by decide) (by decide)
      hfields.fits
    exact hvariant.bind ((hfields.bind (by simp [hentity.reads, hnumber.reads])).reads)

theorem Fault.carries {f : Fault} (h : f.InRange) (level : Nat) :
    Carries (d + 2) (Fault.unpack? level) f.pack f := by
  cases f with
  | unresolvedJump target =>
    have htarget := carries_int (d := d) 64 (by decide) h.1 h.2
    have hfields := carries_fields level ["target"] [ofInt target] (by decide) rfl
      (by simpa using htarget.fits)
    have hvariant := carries_variant [] "UnresolvedJump" (tags.drop 1) (by decide) (by decide)
      hfields.fits
    exact hvariant.bind ((hfields.bind (by simp [htarget.reads])).reads)
  | callStackUnderflow =>
    exact (carries_name (tags.take 1) "CallStackUnderflow" (tags.drop 2) (by decide)
      (by decide)).bind rfl
  | callStackOverflow limit =>
    have hlimit : Carries d count? (.uint limit) limit := carries_count h
    have hfields := carries_fields level ["limit"] [.uint limit] (by decide) rfl
      (by simpa using hlimit.fits)
    have hvariant := carries_variant (tags.take 2) "CallStackOverflow" (tags.drop 3) (by decide)
      (by decide) hfields.fits
    exact hvariant.bind ((hfields.bind (by simp [hlimit.reads])).reads)
  | divisionByZero =>
    exact (carries_name (tags.take 3) "DivisionByZero" (tags.drop 4) (by decide)
      (by decide)).bind rfl
  | addressOutOfRange bank index =>
    have hbank := Bank.carries (d := d) bank
    have hindex := carries_uint16 (d := d) index
    have hfields := carries_fields level ["bank", "index"] [bank.pack, .uint index.toNat]
      (by decide) rfl (by simpa using ⟨hbank.fits, hindex.fits⟩)
    have hvariant := carries_variant (tags.take 4) "AddressOutOfRange" (tags.drop 5) (by decide)
      (by decide) hfields.fits
    exact hvariant.bind ((hfields.bind (by simp [hbank.reads, hindex.reads])).reads)
  | invalidBank bank =>
    have hbank := Bank.carries (d := d + 1) bank
    have hvariant := carries_variant (tags.take 5) "InvalidBank" (tags.drop 6) (by decide)
      (by decide) hbank.fits
    exact hvariant.bind (hbank.map _).reads
  | unknownEntity id =>
    have hid : Carries (d + 1) (EntityId.unpack? level) id.pack id := EntityId.carries h level
    have hvariant := carries_variant (tags.take 6) "UnknownEntity" (tags.drop 7) (by decide)
      (by decide) hid.fits
    exact hvariant.bind (hid.map _).reads

theorem Status.carries {s : Status} (h : s.InRange) (level : Nat) :
    Carries (d + 4) (Status.unpack? level) s.pack s := by
  cases s with
  | running =>
    exact (carries_name [] "Running" ["Suspended", "Halted", "Faulted"] (by decide)
      (by decide)).bind rfl
  | suspended reason =>
    have hreason : Carries (d + 3) (WaitReason.unpack? level) reason.pack reason :=
      WaitReason.carries h level
    have hvariant := carries_variant ["Running"] "Suspended" ["Halted", "Faulted"] (by decide)
      (by decide) hreason.fits
    exact hvariant.bind (hreason.map _).reads
  | halted =>
    exact (carries_name ["Running", "Suspended"] "Halted" ["Faulted"] (by decide)
      (by decide)).bind rfl
  | faulted fault =>
    have hfault : Carries (d + 3) (Fault.unpack? level) fault.pack fault := Fault.carries h level
    have hvariant := carries_variant ["Running", "Suspended", "Halted"] "Faulted" [] (by decide)
      (by decide) hfault.fits
    exact hvariant.bind (hfault.map _).reads

theorem InstanceSnapshot.carries {i : InstanceSnapshot} (h : i.InRange) (level : Nat) :
    Carries (d + 5) (InstanceSnapshot.unpack? level) i.pack i := by
  have hid := carries_count (d := d + 4) h.id
  have hscript := carries_text (d := d + 4) h.script
  have howner : Carries (d + 4) (EntityId.unpack? (level + 1)) i.owner.pack i.owner :=
    EntityId.carries h.owner (level + 1)
  have hcursor : Carries (d + 4) (Cursor.unpack? (level + 1)) i.cursor.pack i.cursor :=
    Cursor.carries h.cursor (level + 1)
  have hstatus : Carries (d + 4) (Status.unpack? (level + 1)) i.status.pack i.status :=
    Status.carries h.status (level + 1)
  have hfields := carries_fields level ["id", "script", "owner", "cursor", "state"]
    [.uint i.id, ofText i.script, i.owner.pack, i.cursor.pack, i.status.pack] (by decide) rfl
    (by simpa using ⟨hid.fits, hscript.fits, howner.fits, hcursor.fits, hstatus.fits⟩)
  refine hfields.bind ?_
  simp [hid.reads, hscript.reads, howner.reads, hcursor.reads, hstatus.reads]

theorem SchedulerSnapshot.carries {s : SchedulerSnapshot} (h : s.InRange) (level : Nat) :
    Carries (d + 7) (SchedulerSnapshot.unpack? level) s.pack s := by
  have htick := carries_uint64 (d := d + 6) s.tick
  have hnextId := carries_count (d := d + 6) h.nextId
  have hinstances : Carries (d + 6) (list? (InstanceSnapshot.unpack? (level + 2)))
      (ofList InstanceSnapshot.pack s.instances) s.instances :=
    carries_list h.count fun i hi => InstanceSnapshot.carries (h.instances i hi) (level + 2)
  have hfields := carries_fields level ["tick", "next_id", "instances"]
    [.uint s.tick.toNat, .uint s.nextId, ofList InstanceSnapshot.pack s.instances] (by decide) rfl
    (by simpa using ⟨htick.fits, hnextId.fits, hinstances.fits⟩)
  exact hfields.bind (by simp [htick.reads, hnextId.reads, hinstances.reads])

/-! ## Session -/

theorem SessionSnapshot.carries {s : SessionSnapshot} (h : s.InRange) (level : Nat) :
    Carries (d + 8) (SessionSnapshot.unpack? level) s.pack s := by
  have hfield : Carries (d + 7) (Field.unpack? (level + 1)) s.field.pack s.field :=
    Field.carries h.field (level + 1)
  have hscheduler : Carries (d + 7) (SchedulerSnapshot.unpack? (level + 1)) s.scheduler.pack
      s.scheduler := SchedulerSnapshot.carries h.scheduler (level + 1)
  have hscripts : Carries (d + 7) (list? (pair? text? unpackBytes?)) _ s.scripts :=
    carries_list h.registered fun e he =>
      carries_pair (carries_text (h.script e he).1) (carries_bytes (h.script e he).2)
  have hdetached : Carries (d + 7) (list? (pair? count? unpackBytes?)) _ s.detached :=
    carries_list h.replaced fun e he =>
      carries_pair (carries_count (h.detached e he).1) (carries_bytes (h.detached e he).2)
  have htimers : Carries (d + 7) (list? (pair? count? uint64?)) _ s.timers :=
    carries_list h.waiting fun e he =>
      carries_pair (carries_count (h.timer e he)) (carries_uint64 e.2)
  have hfields := carries_fields level ["field", "scheduler", "scripts", "detached", "timers"]
    [s.field.pack, s.scheduler.pack,
      ofList (fun e => .array [ofText e.1, packBytes e.2]) s.scripts,
      ofList (fun e => .array [.uint e.1, packBytes e.2]) s.detached,
      ofList (fun e => .array [.uint e.1, .uint e.2.toNat]) s.timers] (by decide) rfl
    (by simpa using
      ⟨hfield.fits, hscheduler.fits, hscripts.fits, hdetached.fits, htimers.fits⟩)
  refine hfields.bind ?_
  simp [hfield.reads, hscheduler.reads, hscripts.reads, hdetached.reads, htimers.reads]

theorem SessionSnapshot.read_toBytes {s : SessionSnapshot} (h : s.InRange) (junk : List UInt8) :
    Packed.ofBytes? (s.toBytes ++ junk) = some s.pack := by
  have hs : Carries 8 (SessionSnapshot.unpack? 0) s.pack s := SessionSnapshot.carries h 0
  unfold Packed.ofBytes? toBytes
  rw [read_write hs.fits (by decide)]
  rfl

/-- **Saved bytes are read as what was saved,** whatever bytes follow. -/
theorem SessionSnapshot.ofBytes?_toBytes (s : SessionSnapshot) (h : s.InRange)
    (junk : List UInt8) : ofBytes? (s.toBytes ++ junk) = some s := by
  have hs : Carries 8 (SessionSnapshot.unpack? 0) s.pack s := SessionSnapshot.carries h 0
  unfold ofBytes?
  rw [read_toBytes h]
  exact hs.reads

/-- A snapshot with an instance that waits, one that has failed, and a freed slot. -/
def SessionSnapshot.busy : SessionSnapshot where
  field := ⟨⟨#[0, 127, 128, 255]⟩, .ofList ([2047, 7] : List UInt16),
    ⟨#[1, 2], [1], .ofList [((0 : Nat), EntityRecord.mk "door" true)]⟩, 0xFFFFFFFFFFFFFFFF, 300⟩
  scheduler := ⟨70000, 4,
    [⟨1, "intro", ⟨0, 1⟩, ⟨2, [9, 400], #v[-1, -33, -129, -40000, 0, 127, 128, 65536]⟩,
      .suspended (.animation ⟨0, 1⟩ 40000)⟩,
     ⟨3, "door", ⟨1, 1⟩, .start, .faulted (.unresolvedJump (-0x8000000000000000))⟩]⟩
  scripts := [("intro", [0, 0, 0x1C, 0])]
  detached := [(3, [255])]
  timers := [(1, 70001)]

theorem SessionSnapshot.ofBytes?_toBytes_busy :
    busy.InRange ∧ ofBytes? (busy.toBytes ++ [0xC1]) = some busy := by
  have hfield : busy.field.InRange :=
    ⟨by decide, by decide, ⟨by decide, by decide, by decide, by decide, by decide, by decide⟩⟩
  have hscheduler : busy.scheduler.InRange := by
    refine ⟨by decide, by decide, List.forall_mem_cons.2 ⟨?_, ?_⟩⟩
    · exact ⟨by decide, by decide, ⟨by decide, by decide⟩, ⟨by decide, by decide, by decide⟩,
        ⟨by decide, by decide⟩⟩
    · refine List.forall_mem_cons.2 ⟨?_, by simp⟩
      exact ⟨by decide, by decide, ⟨by decide, by decide⟩, ⟨by decide, by decide, by decide⟩,
        ⟨by decide, by decide⟩⟩
  have hbusy : busy.InRange :=
    ⟨hfield, hscheduler, by decide, by decide, by decide, by decide, by decide, by decide⟩
  exact ⟨hbusy, ofBytes?_toBytes busy hbusy [0xC1]⟩

end FieldEngine
