import FieldEngine.Proofs.Session.Stamps
import FieldEngine.Proofs.Trace.Queries

/-!
# The order of ticks in a session's trace

A tracer is chronological (`Tracer.Chronological`) if the ticks on its records never go down and
none is later than the tick that it stamps now. A deed keeps it so unless it backtracks
(`Session.Backtracks`): a tick is traced while the buffer holds a record of a later one, which takes
a restore or a new scheduler, or the host puts another tracer in place that is not in order.
Evictions and clearings only take records away from the front.

So long as no deed backtracks, the buffer lists each of its ticks once (`tick_queries`). A restore
to an earlier session and another tick are enough for it not to (`tick_listed_twice`).
-/

namespace FieldEngine

/-! ## Chronological buffers -/

/-- The ticks on the records never go down, and none is later than `latest`. -/
structure TraceBuffer.UpTo (b : TraceBuffer) (latest : Nat) : Prop where
  sorted : (b.toList.map TraceRecord.tick).Pairwise (· ≤ ·)
  bounded : ∀ r ∈ b.toList, r.tick ≤ latest

/-- New records under a later tick, and the loss of the oldest ones, leave the records in order. -/
theorem TraceBuffer.UpTo.grown {b c : TraceBuffer} {p : TraceRecord → Prop} {latest now : Nat}
    (h : b.UpTo latest) (hgrown : b.Grown p c) (hle : latest ≤ now) (hp : ∀ r, p r → r.tick = now) :
    c.UpTo now := by
  obtain ⟨fresh, hsuffix, hfresh⟩ := hgrown
  have hall : (b.toList ++ fresh).Pairwise fun r r' => r.tick ≤ r'.tick := by
    refine List.pairwise_append.2 ⟨List.pairwise_map.1 h.sorted, ?_, ?_⟩
    · refine List.pairwise_iff_forall_sublist.2 fun {r r'} hpair => ?_
      rw [hp r (hfresh r (hpair.subset (by simp))), hp r' (hfresh r' (hpair.subset (by simp)))]
    · intro r hr r' hr'
      rw [hp r' (hfresh r' hr')]
      exact Nat.le_trans (h.bounded r hr) hle
  refine ⟨List.pairwise_map.2 (hall.sublist hsuffix.sublist), fun r hr => ?_⟩
  rcases List.mem_append.1 (hsuffix.subset hr) with hr | hr
  · exact Nat.le_trans (h.bounded r hr) hle
  · exact Nat.le_of_eq (hp r (hfresh r hr))

/-- The records are in order, and none is later than the tick stamped now. -/
def Tracer.Chronological (t : Tracer) : Prop :=
  t.buffer.UpTo t.tick

theorem Tracer.chronological_ofConfig (config : TracerConfig) : (ofConfig config).Chronological :=
  ⟨List.Pairwise.nil, nofun⟩

namespace Session

/-! ## Deeds -/

/-- The deed traces a tick while the buffer holds a record of a later one, or puts a tracer in place
that is not chronological. -/
def Backtracks (s : Session) : Deed → Prop
  | .operation .tick =>
    s.tracer.isEnabled = true ∧
      ∃ r ∈ s.released.tracer.buffer.toList, (s.scheduler.tick + 1).toNat < r.tick
  | .operation (.withTracer tracer) | .adjust (.withTracer tracer) => ¬tracer.Chronological
  | .adjust (.lend change) => ¬(change s.tracer).Chronological
  | _ => False

variable {s : Session}

theorem chronological_released (hs : s.tracer.Chronological) :
    s.released.tracer.buffer.UpTo s.tracer.tick :=
  hs.grown s.notes_released.grown (Nat.le_refl _) fun _ hr => hr.2

theorem chronological_tick (hs : s.tracer.Chronological)
    (hdeed : ¬s.Backtracks (.operation .tick)) : (s.perform .tick).2.tracer.Chronological := by
  have hreleased := chronological_released hs
  rw [Tracer.Chronological, stamp_tick]
  split
  · rename_i henabled
    -- The tick of the tracer may be later than the new one; what matters is the records.
    have hnow : s.released.tracer.buffer.UpTo (s.scheduler.tick + 1).toNat :=
      ⟨hreleased.sorted, fun r hr => Nat.le_of_not_lt fun hlt => hdeed ⟨henabled, r, hr, hlt⟩⟩
    exact hnow.grown s.grown_tick (Nat.le_refl _) fun _ hr => hr.2
  · rename_i hdisabled
    exact hreleased.grown s.grown_tick (Nat.le_refl _) fun _ hr => absurd hr.1 hdisabled

/-- **Step.** A deed that does not backtrack leaves the trace in order. -/
theorem chronological_carryOut (hs : s.tracer.Chronological) {deed : Deed}
    (hdeed : ¬s.Backtracks deed) : (s.carryOut deed).2.tracer.Chronological := by
  by_cases htick : deed = .operation .tick
  · subst htick
    exact chronological_tick hs hdeed
  cases hkept : deed.replacesTracer with
  | false =>
    obtain ⟨hstamp, hgrown⟩ := s.kept_carryOut hkept htick
    rw [Tracer.Chronological, hstamp]
    exact hs.grown hgrown (Nat.le_refl _) fun _ hr => hr.2
  | true =>
    -- The tracer that is there afterwards is the one of which the deed's condition speaks.
    cases deed with
    | operation op =>
      cases op with
      | withTracer tracer => exact not_not.1 hdeed
      | _ => cases hkept
    | decoder config => cases hkept
    | lend change => cases hkept
    | adjust adjustment =>
      cases adjustment with
      | withTracer tracer => exact not_not.1 hdeed
      | lend change => exact not_not.1 hdeed
      | _ => cases hkept

/-- **Run.** -/
theorem chronological_following (hs : s.tracer.Chronological) {deeds : List Deed}
    (hdeeds : s.Avoids Backtracks deeds) : (s.following deeds).tracer.Chronological := by
  induction deeds generalizing s with
  | nil => exact hs
  | cons deed rest ih => exact ih (chronological_carryOut hs hdeeds.1) hdeeds.2

open TraceBuffer in
/-- **Queries of a trace.** Whatever a host does to a session, its buffer lists the ticks that its
records carry and no others, it counts exactly the kinds that occur, each with the number of its
records, and the counts add up to the number of all records. That each tick is listed once, that the
number of ticks is the number of distinct ticks, and that the records of the listed ticks make up
the buffer, are one and the same condition: the records of each tick stand together. It holds as
long as no tick is traced while the buffer holds a record of a later tick. -/
theorem tick_queries (field : Field) (deeds : List Deed) :
    let b := ((ofField field).following deeds).tracer.buffer
    (∀ tick, tick ∈ b.ticks ↔ ∃ r ∈ b.toList, r.tick = tick) ∧
    (∀ kind n, b.stats.counts[kind]? = some n ↔ 0 < n ∧ n = (b.ofKind kind).length) ∧
    (b.stats.counts.toList.map Prod.snd).sum = b.stats.records ∧
    b.stats.records = b.toList.length ∧
    [Gathered (b.toList.map TraceRecord.tick), b.ticks.Nodup, b.stats.ticks = b.distinctTicks,
      (b.ticks.flatMap b.ofTick).Perm b.toList].TFAE ∧
    ((ofField field).Avoids Backtracks deeds →
      b.ticks.Nodup ∧ b.stats.ticks = b.distinctTicks ∧
        (b.ticks.flatMap b.ofTick).Perm b.toList) := by
  intro b
  refine ⟨fun _ => b.mem_ticks, fun _ _ => b.getElem?_counts, b.sum_counts, b.length_toList.symm,
    b.ticks_tfae, fun hdeeds => ?_⟩
  have hordered := chronological_following (Tracer.chronological_ofConfig _) hdeeds
  have hgathered := gathered_of_pairwise_le hordered.sorted
  exact ⟨(b.ticks_tfae.out 0 1).1 hgathered, (b.ticks_tfae.out 0 2).1 hgathered,
    (b.ticks_tfae.out 0 3).1 hgathered⟩

/-- A case with room for three records. After two ticks the session goes back to its start and the
trace is cleared, so the same two ticks can be traced again; the oldest of their records is lost. -/
theorem tick_queries_again :
    let tracer := Tracer.ofConfig { enabled := true, capacity := 3 }
    let saved := (ofField (.ofSeed 3)).snapshot
    let deeds : List Deed := [.operation (.withTracer tracer), .operation .tick, .operation .tick,
      .operation (.restore saved), .adjust .clear, .operation .tick, .operation .tick]
    let b := ((ofField (.ofSeed 3)).following deeds).tracer.buffer
    (ofField (.ofSeed 3)).Avoids Backtracks deeds ∧ b.ticks = [1, 2] ∧ b.ticks.Nodup ∧
      b.stats.ticks = b.distinctTicks ∧ (b.ticks.flatMap b.ofTick).Perm b.toList ∧
      b.stats.records = 3 ∧ (b.stats.counts.toList.map Prod.snd).sum = 3 := by
  intro tracer saved deeds b
  have hdeeds : (ofField (.ofSeed 3)).Avoids Backtracks deeds :=
    ⟨fun h => h (Tracer.chronological_ofConfig _), fun h => absurd h.2 (by decide),
      fun h => absurd h.2 (by decide), not_false, not_false, fun h => absurd h.2 (by decide),
      fun h => absurd h.2 (by decide), trivial⟩
  obtain ⟨-, -, hsum, -, -, hticks⟩ := tick_queries (.ofSeed 3) deeds
  obtain ⟨honce, hnumber, hparts⟩ := hticks hdeeds
  have hrecords : b.stats.records = 3 := by decide
  exact ⟨hdeeds, by decide, honce, hnumber, hparts, hrecords, hsum.trans hrecords⟩

/-- A traced session that goes back to its start after two ticks and runs another: the first tick is
listed twice, three ticks are counted where there are two, and the records of the listed ticks are
more than the buffer holds. -/
theorem tick_listed_twice :
    let b := ((ofSeed 0).following [.operation (.setTracing true), .operation .tick,
      .operation .tick, .operation (.restore (ofSeed 0).snapshot),
      .operation .tick]).tracer.buffer
    b.ticks = [1, 2, 1] ∧ ¬b.ticks.Nodup ∧ b.stats.ticks = 3 ∧ b.distinctTicks = 2 ∧
      b.toList.length = 6 ∧ (b.ticks.flatMap b.ofTick).length = 10 := by
  decide

end Session

end FieldEngine
