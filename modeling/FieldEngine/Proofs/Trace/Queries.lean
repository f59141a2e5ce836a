import Mathlib.Algebra.BigOperators.Group.Finset.Basic
import Mathlib.Algebra.GroupWithZero.Nat
import Mathlib.Tactic.TFAE
import FieldEngine.Proofs.OrderedMap
import FieldEngine.Trace.Buffer

/-!
# Ticks and kinds of a trace buffer

A buffer lists its ticks by collapsing neighbours that are equal, so a tick is listed once for every
run of records that carry it. The list is free of repetitions exactly if the records of each tick
stand together (`Gathered`), and so are the answers that rest on it (`ticks_tfae`). Ticks that never
go down are gathered.

The counts of the kinds do not depend on the order of the records: a kind is counted with the number
of its records (`getElem?_counts`), and all counts together make up the buffer (`sum_counts`).
-/

namespace FieldEngine

namespace TraceBuffer

/-! ## Gathered ticks -/

/-- No other number stands between two equal ones. -/
def Gathered (l : List Nat) : Prop :=
  ∀ a b, [a, b, a].Sublist l → b = a

theorem gathered_nil : Gathered [] :=
  nofun

theorem gathered_cons_iff {a : Nat} {l : List Nat} :
    Gathered (a :: l) ↔ Gathered l ∧ ∀ b, [b, a].Sublist l → b = a := by
  constructor
  · intro h
    exact ⟨fun x y hxy => h x y (hxy.cons a), fun b hb => h a b (hb.cons_cons a)⟩
  · rintro ⟨hl, ha⟩ x y hxy
    rcases List.cons_sublist_cons'.1 hxy with hlater | ⟨rfl, hlater⟩
    · exact hl x y hlater
    · exact ha y hlater

theorem gathered_of_pairwise_le {l : List Nat} (h : l.Pairwise (· ≤ ·)) : Gathered l := by
  intro a b hab
  have hsorted := h.sublist hab
  simp only [List.pairwise_cons, List.mem_cons, List.not_mem_nil] at hsorted
  exact Nat.le_antisymm (hsorted.2.1 a (by simp)) (hsorted.1 b (by simp))

/-- A repetition does not change whether numbers are gathered. -/
theorem gathered_cons_self_iff {a : Nat} {l : List Nat} :
    Gathered (a :: a :: l) ↔ Gathered (a :: l) := by
  rw [gathered_cons_iff (l := a :: l)]
  refine and_iff_left_of_imp fun hl b hb => ?_
  rcases List.cons_sublist_cons'.1 hb with hb | ⟨rfl, -⟩
  · exact (gathered_cons_iff.1 hl).2 b hb
  · rfl

/-- A number that differs from the next one does not come again. -/
theorem gathered_cons_cons_iff {a b : Nat} {l : List Nat} (hab : a ≠ b) :
    Gathered (a :: b :: l) ↔ a ∉ b :: l ∧ Gathered (b :: l) := by
  rw [gathered_cons_iff, and_comm]
  refine and_congr_left fun _ => ⟨fun h hmem => ?_, fun hnot c hc => ?_⟩
  · have hlater : a ∈ l := (List.mem_cons.1 hmem).resolve_left hab
    exact hab (h b ((List.singleton_sublist.2 hlater).cons_cons b)).symm
  · exact absurd (hc.subset (by simp)) hnot

theorem mem_dropRepeats {a : Nat} {l : List Nat} : a ∈ dropRepeats l ↔ a ∈ l := by
  induction l using dropRepeats.induct with
  | case1 => rfl
  | case2 b => rfl
  | case3 b rest ih =>
    rw [dropRepeats, if_pos rfl, ih]
    simp
  | case4 b c rest hne ih =>
    rw [dropRepeats, if_neg hne, List.mem_cons, ih, ← List.mem_cons]

theorem nodup_dropRepeats_iff (l : List Nat) : (dropRepeats l).Nodup ↔ Gathered l := by
  induction l using dropRepeats.induct with
  | case1 => exact iff_of_true List.nodup_nil gathered_nil
  | case2 a =>
    refine iff_of_true (List.nodup_singleton a) (gathered_cons_iff.2 ⟨gathered_nil, ?_⟩)
    intro b hb
    cases hb
  | case3 a rest ih => rw [dropRepeats, if_pos rfl, ih, gathered_cons_self_iff]
  | case4 a b rest hne ih =>
    rw [dropRepeats, if_neg hne, List.nodup_cons, mem_dropRepeats, ih, gathered_cons_cons_iff hne]

/-! ## The ticks of a buffer -/

variable (b : TraceBuffer)

theorem mem_ticks {tick : Nat} : tick ∈ b.ticks ↔ ∃ r ∈ b.toList, r.tick = tick := by
  rw [ticks, mem_dropRepeats, List.mem_map]

/-- The number of distinct ticks that the records of a buffer carry. -/
def distinctTicks : Nat :=
  (b.toList.map TraceRecord.tick).toFinset.card

theorem stats_ticks_eq_iff : b.stats.ticks = b.distinctTicks ↔ b.ticks.Nodup := by
  have hsame : (b.toList.map TraceRecord.tick).toFinset = b.ticks.toFinset := by
    ext tick
    rw [List.mem_toFinset, List.mem_toFinset, ticks, mem_dropRepeats]
  rw [distinctTicks, hsame, eq_comm]
  exact Multiset.toFinset_card_eq_card_iff_nodup

theorem count_flatMap_ofTick (ticks : List Nat) (r : TraceRecord) :
    (ticks.flatMap b.ofTick).count r = ticks.count r.tick * b.toList.count r := by
  induction ticks with
  | nil => simp
  | cons tick rest ih =>
    rw [List.flatMap_cons, List.count_append, ih, List.count_cons, Nat.add_mul, Nat.add_comm]
    congr 1
    by_cases htick : r.tick = tick
    · rw [if_pos (beq_iff_eq.2 htick.symm), Nat.one_mul]
      exact List.count_filter (beq_iff_eq.2 htick)
    · rw [if_neg fun h => htick (beq_iff_eq.1 h).symm, Nat.zero_mul, List.count_eq_zero]
      intro hmem
      exact htick (beq_iff_eq.1 (List.mem_filter.1 hmem).2)

/-- The records of the listed ticks make up the buffer if no tick is listed twice, and only then. -/
theorem flatMap_ofTick_perm_iff : (b.ticks.flatMap b.ofTick).Perm b.toList ↔ b.ticks.Nodup := by
  rw [List.perm_iff_count, List.nodup_iff_count_eq_one]
  constructor
  · intro h tick htick
    obtain ⟨r, hr, rfl⟩ := b.mem_ticks.1 htick
    have hcount := h r
    rw [count_flatMap_ofTick] at hcount
    exact Nat.eq_of_mul_eq_mul_right (List.count_pos_iff.2 hr) (hcount.trans (Nat.one_mul _).symm)
  · intro h r
    rw [count_flatMap_ofTick]
    by_cases hr : r ∈ b.toList
    · rw [h r.tick (b.mem_ticks.2 ⟨r, hr, rfl⟩), Nat.one_mul]
    · rw [List.count_eq_zero.2 hr, Nat.mul_zero]

/-- **Ticks.** What a buffer says of its ticks is right exactly if the records of each tick stand
together. -/
theorem ticks_tfae :
    [Gathered (b.toList.map TraceRecord.tick), b.ticks.Nodup, b.stats.ticks = b.distinctTicks,
      (b.ticks.flatMap b.ofTick).Perm b.toList].TFAE := by
  tfae_have 2 ↔ 1 := nodup_dropRepeats_iff _
  tfae_have 3 ↔ 2 := b.stats_ticks_eq_iff
  tfae_have 4 ↔ 2 := b.flatMap_ofTick_perm_iff
  tfae_finish

/-! ## The kinds of a buffer -/

theorem getElem?_foldl_counts (l : List TraceRecord) (counts : Std.ExtTreeMap String Nat)
    (kind : String) :
    (l.foldl (fun counts r => counts.insert r.kind (counts.getD r.kind 0 + 1)) counts)[kind]? =
      if kind ∈ l.map TraceRecord.kind
      then some (counts.getD kind 0 + (l.map TraceRecord.kind).count kind) else counts[kind]? := by
  induction l generalizing counts with
  | nil => rfl
  | cons r rest ih =>
    rw [List.foldl_cons, ih, List.map_cons, List.count_cons, OrderedMap.getElem?_insert,
      Std.ExtTreeMap.getD_eq_getD_getElem?, OrderedMap.getElem?_insert]
    by_cases hkind : r.kind = kind
    · subst hkind
      rw [if_pos rfl, if_pos List.mem_cons_self, if_pos (beq_self_eq_true _)]
      split
      · rw [Option.getD_some, Nat.add_right_comm, Nat.add_assoc]
      · rename_i hnone
        rw [List.count_eq_zero.2 hnone]
    · rw [if_neg hkind, if_neg fun h => hkind (beq_iff_eq.1 h), Nat.add_zero,
        ← Std.ExtTreeMap.getD_eq_getD_getElem?]
      have hmem : kind ∈ r.kind :: rest.map TraceRecord.kind ↔
          kind ∈ rest.map TraceRecord.kind := by
        rw [List.mem_cons]
        exact or_iff_right fun h => hkind h.symm
      rw [if_congr hmem rfl rfl]

theorem length_ofKind (kind : String) :
    (b.ofKind kind).length = (b.toList.map TraceRecord.kind).count kind := by
  rw [List.count_eq_countP, List.countP_map, List.countP_eq_length_filter]
  rfl

/-- **Kinds.** Exactly the kinds that occur are counted, each with the number of its records. -/
theorem getElem?_counts {kind : String} {n : Nat} :
    b.stats.counts[kind]? = some n ↔ 0 < n ∧ n = (b.ofKind kind).length := by
  have hcounts := getElem?_foldl_counts b.toList ∅ kind
  rw [length_ofKind]
  show (b.toList.foldl _ ∅)[kind]? = some n ↔ _
  rw [hcounts]
  split
  · rename_i hmem
    have hpos := List.count_pos_iff.2 hmem
    simp only [Std.ExtTreeMap.getD_empty, Option.some.injEq]
    omega
  · rename_i hnot
    rw [List.count_eq_zero.2 hnot]
    simp only [Std.ExtTreeMap.getElem?_empty, reduceCtorEq, false_iff]
    omega

/-- The counts of all kinds make up the buffer. -/
theorem sum_counts : (b.stats.counts.toList.map Prod.snd).sum = b.stats.records := by
  -- Each count is a function of its kind, and the kinds are listed once.
  have hsnd : b.stats.counts.toList.map Prod.snd =
      b.stats.counts.keys.map fun kind => (b.toList.map TraceRecord.kind).count kind := by
    rw [← Std.ExtTreeMap.map_fst_toList_eq_keys, List.map_map]
    apply List.map_congr_left
    rintro ⟨kind, n⟩ hmem
    have hn := b.getElem?_counts.1 (Std.ExtTreeMap.mem_toList_iff_getElem?_eq_some.1 hmem)
    rw [Function.comp_apply, ← length_ofKind]
    exact hn.2
  have hkeys : b.stats.counts.keys.toFinset = (b.toList.map TraceRecord.kind).toFinset := by
    ext kind
    rw [List.mem_toFinset, List.mem_toFinset, Std.ExtTreeMap.mem_keys,
      Std.ExtTreeMap.mem_iff_isSome_getElem?, Option.isSome_iff_exists]
    simp only [getElem?_counts, length_ofKind, exists_eq_right, List.count_pos_iff]
  calc (b.stats.counts.toList.map Prod.snd).sum
      = ∑ kind ∈ b.stats.counts.keys.toFinset, (b.toList.map TraceRecord.kind).count kind := by
        rw [hsnd, List.sum_toFinset _ Std.ExtTreeMap.nodup_keys]
    _ = (b.toList.map TraceRecord.kind).length := by
        rw [hkeys, List.sum_toFinset_count_eq_length]
    _ = b.stats.records := by
        rw [List.length_map]
        exact Array.length_toList

end TraceBuffer

end FieldEngine
