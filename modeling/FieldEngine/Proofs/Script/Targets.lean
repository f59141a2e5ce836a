import FieldEngine.Script.Program

/-!
# Jump targets

Where a jump leads, in a program of any instructions at any offsets. The end of the script leads
past the last instruction, even if a group starts there too; any other offset leads to the last
group that starts there:

    p.resolve? target = some index ↔
      (target = p.endOffset ∧ index = p.size) ∨
        (target ≠ p.endOffset ∧ ∃ offset, target = offset ∧ …)                (resolve?_eq_some_iff)
    p.resolve? target = none ↔ no group starts there, and it is not the end   (resolve?_eq_none_iff)
-/

namespace FieldEngine.Program

variable {p : Program}

theorem lt_size_of_get? {index : Nat} {i : Instruction} (h : p.get? index = some i) :
    index < p.size := by
  obtain ⟨entry, hentry, -⟩ := Option.map_eq_some_iff.1 h
  exact (Array.getElem?_eq_some_iff.1 hentry).1

theorem lt_size_of_offsetOf? {index offset : Nat} (h : p.offsetOf? index = some offset) :
    index < p.size := by
  obtain ⟨entry, hentry, -⟩ := Option.map_eq_some_iff.1 h
  exact (Array.getElem?_eq_some_iff.1 hentry).1

theorem lastIndex?_eq_some_iff {offset bound index : Nat} :
    p.lastIndex? offset bound = some index ↔
      index < bound ∧ p.offsetOf? index = some offset ∧
        ∀ later, index < later → later < bound → p.offsetOf? later ≠ some offset := by
  induction bound with
  | zero => simp [lastIndex?]
  | succ bound ih =>
    rw [lastIndex?]
    split
    · rename_i hbound
      constructor
      · rintro ⟨rfl⟩
        exact ⟨Nat.lt_succ_self _, hbound, fun later _ _ => by omega⟩
      · rintro ⟨hlt, -, hlast⟩
        have heq : bound = index := by
          apply Classical.byContradiction
          intro hne
          exact hlast bound (by omega) (Nat.lt_succ_self _) hbound
        rw [heq]
    · rename_i hbound
      rw [ih]
      constructor
      · rintro ⟨hlt, hindex, hlast⟩
        refine ⟨Nat.lt_succ_of_lt hlt, hindex, fun later hafter hlater => ?_⟩
        by_cases heq : later = bound
        · rw [heq]
          exact hbound
        · exact hlast later hafter (by omega)
      · rintro ⟨hlt, hindex, hlast⟩
        have hne : index ≠ bound := by
          rintro rfl
          exact hbound hindex
        exact ⟨by omega, hindex, fun later hafter hlater => hlast later hafter (by omega)⟩

theorem lastIndex?_eq_none_iff {offset bound : Nat} :
    p.lastIndex? offset bound = none ↔ ∀ index < bound, p.offsetOf? index ≠ some offset := by
  induction bound with
  | zero => simp [lastIndex?]
  | succ bound ih =>
    rw [lastIndex?]
    split
    · rename_i hbound
      simp only [reduceCtorEq, false_iff]
      exact fun hnone => hnone bound (Nat.lt_succ_self _) hbound
    · rename_i hbound
      rw [ih, Nat.forall_lt_succ_right]
      exact ⟨fun hnone => ⟨hnone, hbound⟩, fun hnone => hnone.1⟩

/-- **Where a jump leads.** -/
theorem resolve?_eq_some_iff {target : Int} {index : Nat} :
    p.resolve? target = some index ↔
      (target = p.endOffset ∧ index = p.size) ∨
        (target ≠ p.endOffset ∧ ∃ offset : Nat, target = offset ∧ p.offsetOf? index = some offset ∧
          ∀ later, index < later → p.offsetOf? later ≠ some offset) := by
  cases target with
  | negSucc n =>
    constructor
    · intro h
      cases h
    · rintro (⟨hend, -⟩ | ⟨-, offset, hoffset, -⟩)
      · omega
      · omega
  | ofNat n =>
    show (if n = p.endOffset then some p.size else p.lastIndex? n p.size) = some index ↔ _
    split
    · rename_i hend
      subst hend
      simp [eq_comm]
    · rename_i hend
      rw [lastIndex?_eq_some_iff]
      constructor
      · rintro ⟨-, hindex, hlast⟩
        refine .inr ⟨fun heq => hend (Int.ofNat.inj heq), n, rfl, hindex,
          fun later hafter hlater => ?_⟩
        exact hlast later hafter (lt_size_of_offsetOf? hlater) hlater
      · rintro (⟨heq, -⟩ | ⟨-, offset, hoffset, hindex, hlast⟩)
        · exact absurd (Int.ofNat.inj heq) hend
        · cases Int.ofNat.inj hoffset
          exact ⟨lt_size_of_offsetOf? hindex, hindex, fun later hafter _ => hlast later hafter⟩

/-- **A jump that leads nowhere** names neither the start of a group nor the end of the script. -/
theorem resolve?_eq_none_iff {target : Int} :
    p.resolve? target = none ↔
      target ≠ p.endOffset ∧
        ∀ index offset, p.offsetOf? index = some offset → target ≠ (offset : Int) := by
  cases target with
  | negSucc n =>
    simp only [resolve?, true_iff]
    exact ⟨by omega, fun index offset _ => by omega⟩
  | ofNat n =>
    show (if n = p.endOffset then some p.size else p.lastIndex? n p.size) = none ↔ _
    split
    · rename_i hend
      subst hend
      simp
    · rename_i hend
      rw [lastIndex?_eq_none_iff]
      constructor
      · intro hnone
        refine ⟨fun heq => hend (Int.ofNat.inj heq), fun index offset hoffset heq => ?_⟩
        cases Int.ofNat.inj heq
        exact hnone index (lt_size_of_offsetOf? hoffset) hoffset
      · rintro ⟨-, hnone⟩ index - hindex
        exact hnone index n hindex rfl

end FieldEngine.Program
