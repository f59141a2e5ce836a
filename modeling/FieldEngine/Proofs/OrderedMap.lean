import Std.Data.ExtTreeMap
import Std.Data.ExtTreeSet

/-!
# Ordered maps

Look-up in a map after an insertion, an erasure or a change of its values, with plain equality of
keys, and the map or set that its own list gives back.
-/

namespace FieldEngine.OrderedMap

variable {κ α β : Type} [Ord κ] [Std.TransOrd κ] [Std.LawfulEqOrd κ] [DecidableEq κ]

theorem getElem?_insert (m : Std.ExtTreeMap κ α) (k k' : κ) (v : α) :
    (m.insert k v)[k']? = if k = k' then some v else m[k']? := by
  rw [Std.ExtTreeMap.getElem?_insert]
  by_cases h : k = k'
  · rw [if_pos h, if_pos (Std.LawfulEqOrd.compare_eq_iff_eq.2 h)]
  · rw [if_neg h, if_neg (fun hc => h (Std.LawfulEqOrd.compare_eq_iff_eq.1 hc))]

theorem getElem?_erase (m : Std.ExtTreeMap κ α) (k k' : κ) :
    (m.erase k)[k']? = if k = k' then none else m[k']? := by
  rw [Std.ExtTreeMap.getElem?_erase]
  by_cases h : k = k'
  · rw [if_pos h, if_pos (Std.LawfulEqOrd.compare_eq_iff_eq.2 h)]
  · rw [if_neg h, if_neg (fun hc => h (Std.LawfulEqOrd.compare_eq_iff_eq.1 hc))]

theorem getElem?_foldl_erase (ks : List κ) (m : Std.ExtTreeMap κ α) (k : κ) :
    (ks.foldl (fun m k => m.erase k) m)[k]? = if k ∈ ks then none else m[k]? := by
  induction ks generalizing m with
  | nil => rfl
  | cons a ks ih =>
    rw [List.foldl_cons, ih, getElem?_erase]
    by_cases hks : k ∈ ks
    · rw [if_pos hks, if_pos (List.mem_cons_of_mem a hks)]
    · rw [if_neg hks]
      by_cases ha : a = k
      · rw [if_pos ha, if_pos (ha ▸ List.mem_cons_self)]
      · rw [if_neg ha, if_neg]
        intro hmem
        rcases List.mem_cons.1 hmem with h | h
        · exact ha h.symm
        · exact hks h

theorem ofList_toList (m : Std.ExtTreeMap κ α) : Std.ExtTreeMap.ofList m.toList = m := by
  apply Std.ExtTreeMap.ext_getElem?
  intro k
  cases h : m[k]? with
  | some v =>
    exact Std.ExtTreeMap.getElem?_ofList_of_mem (Std.LawfulEqOrd.compare_eq_iff_eq.2 rfl)
      Std.ExtTreeMap.distinct_keys_toList (Std.ExtTreeMap.mem_toList_iff_getElem?_eq_some.2 h)
  | none =>
    apply Std.ExtTreeMap.getElem?_ofList_of_contains_eq_false
    rw [Std.ExtTreeMap.map_fst_toList_eq_keys, Std.ExtTreeMap.contains_keys]
    rwa [← Std.ExtTreeMap.isSome_getElem?_eq_contains, Option.isSome_eq_false_iff,
      Option.isNone_iff_eq_none]

theorem set_ofList_toList (s : Std.ExtTreeSet κ) : Std.ExtTreeSet.ofList s.toList = s := by
  apply Std.ExtTreeSet.ext_contains
  intro k
  rw [Std.ExtTreeSet.contains_ofList, Std.ExtTreeSet.contains_toList]

end FieldEngine.OrderedMap
