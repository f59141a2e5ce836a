import FieldEngine.Packed.Shape
import FieldEngine.Proofs.Packed.RoundTrip

/-!
# Shapes are read as they were written

A value `Carries` a thing if it can be written and its reader gives the thing back. Numbers, texts,
lists, records and variants all carry what they were made of, so a codec is right as soon as its
parts are:

    names.Nodup → values fit →
      (ofFields (names.zip values)) carries values                     (carries_fields)
    p carries a → f a = some b → p carries b, read through f           (Carries.bind)
-/

namespace FieldEngine.Packed

/-- The value can be written with containers that nest at most `d` deep, and is read as `a`. -/
structure Carries {α : Type} (d : Nat) (unpack : Packed → Option α) (p : Packed) (a : α) :
    Prop where
  fits : Fits d p
  reads : unpack p = some a

variable {d : Nat} {α β : Type}

theorem Carries.bind {unpack : Packed → Option α} {p : Packed} {a : α} {f : α → Option β} {b : β}
    (h : Carries d unpack p a) (hf : f a = some b) :
    Carries d (fun p => (unpack p).bind f) p b :=
  ⟨h.fits, by rw [h.reads]; exact hf⟩

theorem Carries.map {unpack : Packed → Option α} {p : Packed} {a : α} (h : Carries d unpack p a)
    (f : α → β) : Carries d (fun p => (unpack p).map f) p (f a) :=
  ⟨h.fits, by rw [h.reads]; rfl⟩

/-! ## Numbers and truth values -/

theorem carries_nat {bound n : Nat} (hbound : bound ≤ 0x10000000000000000) (h : n < bound) :
    Carries d (nat? bound) (.uint n) n :=
  ⟨.uint (Nat.lt_of_lt_of_le h hbound), if_pos h⟩

theorem carries_int (bits : Nat) {i : Int} (hbits : bits ≤ 64)
    (hlow : -(Nat.pow 2 (bits - 1) : Int) ≤ i) (hhigh : i < Nat.pow 2 (bits - 1)) :
    Carries d (int? bits) (ofInt i) i := by
  have hpow : Nat.pow 2 (bits - 1) ≤ Nat.pow 2 63 :=
    Nat.pow_le_pow_right (by omega) (by omega)
  have hmax : Nat.pow 2 63 = 0x8000000000000000 := by decide
  cases i with
  | ofNat n =>
    refine ⟨.uint ?_, if_pos ⟨hlow, hhigh⟩⟩
    show n < 0x10000000000000000
    have : (n : Int) < Nat.pow 2 (bits - 1) := hhigh
    omega
  | negSucc n =>
    refine ⟨.int ⟨?_, Int.negSucc_lt_zero n⟩, if_pos ⟨hlow, hhigh⟩⟩
    omega

theorem carries_bool (b : Bool) : Carries d bool? (.bool b) b :=
  ⟨.bool b, rfl⟩

/-! ## Texts -/

/-- The bytes of a text. -/
theorem textBytes_inj {s t : String} :
    s.toByteArray.data.toList = t.toByteArray.data.toList ↔ s = t := by
  constructor
  · intro h
    exact String.toByteArray_inj.1 (ByteArray.ext (Array.toList_inj.1 h))
  · intro h
    rw [h]

theorem fits_text {s : String} (h : s.utf8ByteSize < 0x100000000) : Fits d (ofText s) :=
  .str h

theorem carries_text {s : String} (h : s.utf8ByteSize < 0x100000000) :
    Carries d text? (ofText s) s := by
  refine ⟨fits_text h, ?_⟩
  have hbytes : (⟨s.toByteArray.data.toList.toArray⟩ : ByteArray) = s.toByteArray := by
    simp
  show String.fromUTF8? ⟨s.toByteArray.data.toList.toArray⟩ = some s
  rw [hbytes]
  unfold String.fromUTF8?
  rw [dif_pos s.isValidUTF8]
  rfl

/-! ## Lists -/

theorem mapM_map_eq_some {γ : Type} {unpack : γ → Option α} {pack : α → γ} {items : List α}
    (h : ∀ x ∈ items, unpack (pack x) = some x) : (items.map pack).mapM unpack = some items := by
  induction items with
  | nil => rfl
  | cons x items ih =>
    rw [List.map_cons, List.mapM_cons, h x List.mem_cons_self,
      ih fun y hy => h y (List.mem_cons_of_mem x hy)]
    rfl

theorem carries_list {unpack : Packed → Option α} {pack : α → Packed} {items : List α}
    (hlen : items.length < 0x100000000) (h : ∀ x ∈ items, Carries d unpack (pack x) x) :
    Carries (d + 1) (list? unpack) (ofList pack items) items := by
  refine ⟨.array ?_ ?_, ?_⟩
  · show (items.map pack).length < 0x100000000
    rwa [List.length_map]
  · intro p hp
    obtain ⟨x, hx, rfl⟩ := List.mem_map.1 hp
    exact (h x hx).fits
  · show (items.map pack).mapM unpack = some items
    exact mapM_map_eq_some fun x hx => (h x hx).reads

theorem carries_pair {first : Packed → Option α} {second : Packed → Option β} {p q : Packed}
    {a : α} {b : β} (hp : Carries d first p a) (hq : Carries d second q b) :
    Carries (d + 1) (pair? first second) (.array [p, q]) (a, b) := by
  refine ⟨.array (show 2 < 0x100000000 by omega) ?_, ?_⟩
  · intro item hitem
    rcases List.mem_cons.1 hitem with rfl | hitem
    · exact hp.fits
    · rw [List.mem_singleton.1 hitem]
      exact hq.fits
  · show (first p).bind _ = _
    rw [hp.reads]
    show (second q).bind _ = _
    rw [hq.reads]
    rfl

/-! ## Names -/

/-- A name is found at its first place. -/
theorem name?_ofText (before : List String) (name : String) (after : List String)
    (h : name ∉ before) :
    name? (before ++ name :: after) (ofText name) = some (some before.length) := by
  have hbefore : before.findIdx? (fun other =>
      other.toByteArray.data.toList == name.toByteArray.data.toList) = none := by
    rw [List.findIdx?_eq_none_iff]
    intro other hother
    have hne : other ≠ name := fun heq => h (heq ▸ hother)
    rw [beq_eq_false_iff_ne]
    exact fun heq => hne (textBytes_inj.1 heq)
  show some (List.findIdx? _ (before ++ name :: after)) = _
  rw [List.findIdx?_append, hbefore, List.findIdx?_cons]
  simp

/-- A variant without content carries its position. -/
theorem carries_name (before : List String) (name : String) (after : List String)
    (h : name ∉ before) (hname : name.utf8ByteSize < 0x100000000) :
    Carries d (variant? (before ++ name :: after)) (ofText name) (before.length, none) := by
  refine ⟨fits_text hname, ?_⟩
  show (name? (before ++ name :: after) (ofText name)).join.map _ = _
  rw [name?_ofText before name after h]
  rfl

/-- A variant with content carries its position and its content. -/
theorem carries_variant (before : List String) (name : String) (after : List String)
    {content : Packed} (h : name ∉ before) (hname : name.utf8ByteSize < 0x100000000)
    (hcontent : Fits d content) :
    Carries (d + 1) (variant? (before ++ name :: after)) (ofVariant name content)
      (before.length, some content) := by
  refine ⟨.map (show 1 < 0x100000000 by omega) ?_ ?_, ?_⟩
  · intro entry hentry
    rw [List.mem_singleton.1 hentry]
    exact fits_text hname
  · intro entry hentry
    rw [List.mem_singleton.1 hentry]
    exact hcontent
  · show (name? (before ++ name :: after) (ofText name)).join.map _ = _
    rw [name?_ofText before name after h]
    rfl

/-! ## Records -/

/-- Field names that can be told apart and written. -/
def Distinct (names : List String) : Prop :=
  names.Nodup ∧ names.length < 0x100000000 ∧ ∀ name ∈ names, name.utf8ByteSize < 0x100000000

instance (names : List String) : Decidable (Distinct names) :=
  inferInstanceAs (Decidable (_ ∧ _ ∧ _))

/-- The fields that are still to come find their places empty. -/
theorem placeFields_zip (level : Nat) {names : List String} {values : List Packed}
    (hlen : names.length = values.length) (before : List String) (placed : List (Option Packed))
    (hplaced : placed.length = before.length) (hnodup : (before ++ names).Nodup) :
    placeFields level (before ++ names)
        ((names.zip values).map fun (name, value) => (ofText name, value))
        (placed ++ names.map fun _ => none) =
      some (placed ++ values.map some) := by
  induction names generalizing values before placed with
  | nil =>
    obtain rfl : values = [] := List.length_eq_zero_iff.1 hlen.symm
    rfl
  | cons name names ih =>
    obtain ⟨value, values, rfl⟩ := List.exists_cons_of_length_eq_add_one hlen.symm
    have hname : name ∉ before := by
      intro hmem
      exact (List.nodup_append.1 hnodup).2.2 name hmem name List.mem_cons_self rfl
    have hplace : (placed ++ none :: names.map fun _ => none)[before.length]? = some none := by
      rw [← hplaced, List.getElem?_append_right (Nat.le_refl _), Nat.sub_self]
      rfl
    have hset : (placed ++ none :: names.map fun _ => none).set before.length (some value) =
        placed ++ [some value] ++ names.map fun _ => none := by
      rw [← hplaced, List.set_append_right _ _ (Nat.le_refl _), Nat.sub_self, List.set_cons_zero,
        List.append_assoc]
      rfl
    have hrest := @ih values (Nat.succ.inj hlen) (before ++ [name]) (placed ++ [some value])
      (by simp [hplaced]) (by simpa using hnodup)
    simp only [List.append_assoc, List.singleton_append] at hrest hset
    rw [List.zip_cons_cons, List.map_cons, List.map_cons, List.map_cons, placeFields,
      name?_ofText before name names hname]
    simp only [hplace, hset]
    exact hrest

theorem fields?_ofFields (level : Nat) {names : List String} {values : List Packed}
    (hlen : names.length = values.length) (hnodup : names.Nodup) :
    fields? level names (ofFields (names.zip values)) = some (values.map some) :=
  placeFields_zip (level + 1) hlen [] [] rfl hnodup

/-- **A record carries its fields.** -/
theorem carries_fields (level : Nat) (names : List String) (values : List Packed)
    (hnames : Distinct names) (hlen : names.length = values.length)
    (hvalues : ∀ value ∈ values, Fits d value) :
    Carries (d + 1) (fields? level names) (ofFields (names.zip values)) (values.map some) := by
  obtain ⟨hnodup, hcount, hsizes⟩ := hnames
  refine ⟨.map ?_ ?_ ?_, fields?_ofFields level hlen hnodup⟩
  · show (List.map _ (names.zip values)).length < 0x100000000
    rw [List.length_map, List.length_zip]
    omega
  · intro entry hentry
    obtain ⟨⟨name, value⟩, hmem, rfl⟩ := List.mem_map.1 hentry
    exact fits_text (hsizes name (List.of_mem_zip hmem).1)
  · intro entry hentry
    obtain ⟨⟨name, value⟩, hmem, rfl⟩ := List.mem_map.1 hentry
    exact hvalues value (List.of_mem_zip hmem).2

end FieldEngine.Packed
