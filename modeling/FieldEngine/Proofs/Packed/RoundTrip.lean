import FieldEngine.Packed.Value

/-!
# Packed values are read as they were written

Every form of a header is read back, whatever bytes follow it, and with the headers every value
whose numbers and lengths have a form. A value is read with any limit above its depth:

    h.Fits → readHeader (h.write ++ rest) = some (h, rest)                  (readHeader_write)
    Fits d p → d < limit → read limit (p.write ++ rest) = some (p, rest)    (read_write)
-/

namespace FieldEngine.Packed

/-! ## Numbers after a marker -/

theorem take?_append (bytes rest : List UInt8) :
    take? bytes.length (bytes ++ rest) = some (bytes, rest) := by
  induction bytes with
  | nil => rfl
  | cons b bytes ih =>
    rw [List.length_cons, List.cons_append, take?, ih]
    rfl

theorem readNumber_bigEndian {width n : Nat} (header : Nat → Header) (rest : List UInt8)
    (hn : n < LittleEndian.capacity width) :
    readNumber width header (bigEndian width n ++ rest) = some (header n, rest) := by
  have hlen : (bigEndian width n).length = width := by simp [bigEndian]
  have htake := take?_append (bigEndian width n) rest
  rw [hlen] at htake
  unfold readNumber
  rw [htake, Option.map_some]
  simp only [bigEndian, List.reverse_reverse]
  rw [LittleEndian.decode_encode, Nat.mod_eq_of_lt hn]

/-- A marker that announces a number of a width. -/
theorem readHeader_marked {marker : UInt8} {width n : Nat} {header : Nat → Header}
    (hmarker : ∀ bytes, readMarked marker.toNat bytes = readNumber width header bytes)
    (hn : n < LittleEndian.capacity width) (rest : List UInt8) :
    readHeader (marked marker width n ++ rest) = some (header n, rest) :=
  (hmarker _).trans (readNumber_bigEndian header rest hn)

/-- A marker that holds a small number. -/
theorem readHeader_ofNat {n : Nat} (hn : n < 256) (rest : List UInt8) :
    readHeader ([UInt8.ofNat n] ++ rest) = readMarked n rest := by
  have hmarker : (UInt8.ofNat n).toNat = n := UInt8.toNat_ofNat_of_lt' hn
  show readMarked (UInt8.ofNat n).toNat rest = _
  rw [hmarker]

/-- Two's complement is read back. -/
theorem signed_emod {width : Nat} {i : Int} (half : Nat)
    (hwidth : LittleEndian.capacity width = 2 * half) (hpos : 0 < half) (hlow : -(half : Int) ≤ i)
    (hhigh : i < half) :
    signed width (i % (LittleEndian.capacity width : Nat)).toNat = .int i := by
  have hmod : 0 ≤ i % ((2 * half : Nat) : Int) := Int.emod_nonneg i (by omega)
  unfold signed
  rw [hwidth, Int.toNat_of_nonneg hmod, Int.emod_bmod, Int.bmod_eq_of_le (by omega) (by omega)]

/-! ## Headers -/

/-- The numbers of the header have a form. A number with a sign is below zero: others are written
without one. -/
def Header.Fits : Header → Prop
  | nil | bool _ => True
  | uint n => n < 0x10000000000000000
  | int i => -0x8000000000000000 ≤ i ∧ i < 0
  | str n | bin n | array n | map n => n < 0x100000000
  | float _ | ext _ => False

theorem readHeader_uint {n : Nat} (h : (Header.uint n).Fits) (rest : List UInt8) :
    readHeader ((Header.uint n).write ++ rest) = some (.uint n, rest) := by
  rw [Header.write]
  split
  next h7 =>
    rw [readHeader_ofNat (by omega)]
    unfold readMarked
    rw [if_pos h7]
  next =>
    split
    next h8 => exact readHeader_marked (fun _ => rfl) h8 rest
    next =>
      split
      next h16 => exact readHeader_marked (fun _ => rfl) h16 rest
      next =>
        split
        next h32 => exact readHeader_marked (fun _ => rfl) h32 rest
        next => exact readHeader_marked (fun _ => rfl) h rest

/-- A number with a sign in `width` bytes. -/
theorem readHeader_signed {marker : UInt8} {width : Nat} {i : Int} (half : Nat)
    (hmarker : ∀ bytes, readMarked marker.toNat bytes = readNumber width (signed width) bytes)
    (hwidth : LittleEndian.capacity width = 2 * half) (hpos : 0 < half) (hlow : -(half : Int) ≤ i)
    (hhigh : i < half) (rest : List UInt8) :
    readHeader (marked marker width (i % (LittleEndian.capacity width : Nat)).toNat ++ rest) =
      some (.int i, rest) := by
  have hmod : i % ((LittleEndian.capacity width : Nat) : Int) < LittleEndian.capacity width :=
    Int.emod_lt_of_pos i (by omega)
  have hnonneg : 0 ≤ i % ((LittleEndian.capacity width : Nat) : Int) :=
    Int.emod_nonneg i (by omega)
  rw [readHeader_marked hmarker (by omega), signed_emod half hwidth hpos hlow hhigh]

theorem readHeader_int {i : Int} (h : (Header.int i).Fits) (rest : List UInt8) :
    readHeader ((Header.int i).write ++ rest) = some (.int i, rest) := by
  obtain ⟨hlow, hneg⟩ := h
  rw [Header.write]
  split
  next h5 =>
    have hmarker : (i % 2 ^ 8).toNat = (256 + i).toNat := by omega
    show readHeader ([UInt8.ofNat (i % 2 ^ 8).toNat] ++ rest) = _
    rw [hmarker, readHeader_ofNat (by omega)]
    unfold readMarked
    rw [if_neg (by omega), if_neg (by omega), if_neg (by omega), if_neg (by omega),
      if_pos (by omega)]
    congr 3
    omega
  next =>
    split
    next h8 => exact readHeader_signed 0x80 (fun _ => rfl) rfl (by omega) h8 (by omega) rest
    next =>
      split
      next h16 => exact readHeader_signed 0x8000 (fun _ => rfl) rfl (by omega) h16 (by omega) rest
      next =>
        split
        next h32 =>
          exact readHeader_signed 0x80000000 (fun _ => rfl) rfl (by omega) h32 (by omega) rest
        next =>
          exact readHeader_signed 0x8000000000000000 (fun _ => rfl) rfl (by omega) hlow (by omega)
            rest

/-- A length of two bytes, or of four if it needs them. -/
theorem readHeader_length {short long : UInt8} {n : Nat} {header : Nat → Header}
    (hshort : ∀ bytes, readMarked short.toNat bytes = readNumber 2 header bytes)
    (hlong : ∀ bytes, readMarked long.toNat bytes = readNumber 4 header bytes)
    (hn : n < 0x100000000) (rest : List UInt8) :
    readHeader ((if n < 0x10000 then marked short 2 n else marked long 4 n) ++ rest) =
      some (header n, rest) := by
  split
  next h16 => exact readHeader_marked hshort h16 rest
  next => exact readHeader_marked hlong hn rest

theorem readHeader_str {n : Nat} (h : (Header.str n).Fits) (rest : List UInt8) :
    readHeader ((Header.str n).write ++ rest) = some (.str n, rest) := by
  rw [Header.write]
  split
  next h5 =>
    rw [readHeader_ofNat (by omega)]
    unfold readMarked
    rw [if_neg (by omega), if_neg (by omega), if_neg (by omega), if_pos (by omega),
      Nat.add_sub_cancel_left]
  next =>
    split
    next h8 => exact readHeader_marked (fun _ => rfl) h8 rest
    next => exact readHeader_length (fun _ => rfl) (fun _ => rfl) h rest

theorem readHeader_bin {n : Nat} (h : (Header.bin n).Fits) (rest : List UInt8) :
    readHeader ((Header.bin n).write ++ rest) = some (.bin n, rest) := by
  rw [Header.write]
  split
  next h8 => exact readHeader_marked (fun _ => rfl) h8 rest
  next => exact readHeader_length (fun _ => rfl) (fun _ => rfl) h rest

theorem readHeader_array {n : Nat} (h : (Header.array n).Fits) (rest : List UInt8) :
    readHeader ((Header.array n).write ++ rest) = some (.array n, rest) := by
  rw [Header.write]
  split
  next h4 =>
    rw [readHeader_ofNat (by omega)]
    unfold readMarked
    rw [if_neg (by omega), if_neg (by omega), if_pos (by omega), Nat.add_sub_cancel_left]
  next => exact readHeader_length (fun _ => rfl) (fun _ => rfl) h rest

theorem readHeader_map {n : Nat} (h : (Header.map n).Fits) (rest : List UInt8) :
    readHeader ((Header.map n).write ++ rest) = some (.map n, rest) := by
  rw [Header.write]
  split
  next h4 =>
    rw [readHeader_ofNat (by omega)]
    unfold readMarked
    rw [if_neg (by omega), if_pos (by omega), Nat.add_sub_cancel_left]
  next => exact readHeader_length (fun _ => rfl) (fun _ => rfl) h rest

/-- **Headers are read as they were written.** -/
theorem readHeader_write {header : Header} (h : header.Fits) (rest : List UInt8) :
    readHeader (header.write ++ rest) = some (header, rest) := by
  cases header with
  | nil => rfl
  | bool b => cases b <;> rfl
  | uint n => exact readHeader_uint h rest
  | int i => exact readHeader_int h rest
  | str n => exact readHeader_str h rest
  | bin n => exact readHeader_bin h rest
  | array n => exact readHeader_array h rest
  | map n => exact readHeader_map h rest
  | float width => exact h.elim
  | ext n => exact h.elim

/-! ## Values -/

/-- The numbers and lengths of a value have a form, and containers nest at most so deep. -/
inductive Fits : Nat → Packed → Prop
  | nil {d : Nat} : Fits d .nil
  | bool {d : Nat} (b : Bool) : Fits d (.bool b)
  | uint {d n : Nat} (h : (Header.uint n).Fits) : Fits d (.uint n)
  | int {d : Nat} {i : Int} (h : (Header.int i).Fits) : Fits d (.int i)
  | str {d : Nat} {bytes : List UInt8} (h : (Header.str bytes.length).Fits) : Fits d (.str bytes)
  | bin {d : Nat} {bytes : List UInt8} (h : (Header.bin bytes.length).Fits) : Fits d (.bin bytes)
  | array {d : Nat} {items : List Packed} (h : (Header.array items.length).Fits)
    (hitems : ∀ item ∈ items, Fits d item) : Fits (d + 1) (.array items)
  | map {d : Nat} {entries : List (Packed × Packed)} (h : (Header.map entries.length).Fits)
    (hkeys : ∀ entry ∈ entries, Fits d entry.1) (hvalues : ∀ entry ∈ entries, Fits d entry.2) :
    Fits (d + 1) (.map entries)

theorem repeatRead_writeItems {limit : Nat} {items : List Packed}
    (h : ∀ item ∈ items, ∀ rest, read limit (item.write ++ rest) = some (item, rest))
    (rest : List UInt8) :
    repeatRead (read limit) items.length (writeItems items ++ rest) = some (items, rest) := by
  induction items with
  | nil => rfl
  | cons item items ih =>
    have hitem := h item List.mem_cons_self (writeItems items ++ rest)
    have hitems := ih fun other hother => h other (List.mem_cons_of_mem item hother)
    rw [List.length_cons, writeItems, List.append_assoc, repeatRead, hitem]
    show (repeatRead (read limit) items.length (writeItems items ++ rest)).bind _ = _
    rw [hitems]
    rfl

theorem repeatRead_writeEntries {limit : Nat} {entries : List (Packed × Packed)}
    (hkeys : ∀ entry ∈ entries, ∀ rest,
      read limit (entry.1.write ++ rest) = some (entry.1, rest))
    (hvalues : ∀ entry ∈ entries, ∀ rest,
      read limit (entry.2.write ++ rest) = some (entry.2, rest))
    (rest : List UInt8) :
    repeatRead (readPair (read limit)) entries.length (writeEntries entries ++ rest) =
      some (entries, rest) := by
  induction entries with
  | nil => rfl
  | cons entry entries ih =>
    obtain ⟨key, value⟩ := entry
    have hkey := hkeys (key, value) List.mem_cons_self
      (value.write ++ (writeEntries entries ++ rest))
    have hvalue := hvalues (key, value) List.mem_cons_self (writeEntries entries ++ rest)
    have hentries := ih (fun other hother => hkeys other (List.mem_cons_of_mem _ hother))
      (fun other hother => hvalues other (List.mem_cons_of_mem _ hother))
    have hpair : readPair (read limit)
        (key.write ++ (value.write ++ (writeEntries entries ++ rest))) =
        some ((key, value), writeEntries entries ++ rest) := by
      unfold readPair
      rw [hkey]
      show (read limit (value.write ++ (writeEntries entries ++ rest))).bind _ = _
      rw [hvalue]
      rfl
    rw [List.length_cons, writeEntries, List.append_assoc, List.append_assoc, repeatRead, hpair]
    show (repeatRead _ entries.length (writeEntries entries ++ rest)).bind _ = _
    rw [hentries]
    rfl

/-- **Values are read as they were written,** whatever bytes follow. -/
theorem read_write {d limit : Nat} {p : Packed} (h : Fits d p) (hd : d < limit)
    (rest : List UInt8) : read limit (p.write ++ rest) = some (p, rest) := by
  obtain ⟨limit, rfl⟩ : ∃ n, limit = n + 1 := ⟨limit - 1, by omega⟩
  -- The header fixes the type, and a container leaves a smaller limit for what it holds.
  induction h generalizing limit rest with
  | nil => rfl
  | bool b => cases b <;> rfl
  | uint h =>
    rw [write, read, readHeader_write h]
    rfl
  | int h =>
    rw [write, read, readHeader_write h]
    rfl
  | str h =>
    rw [write, List.append_assoc, read, readHeader_write h]
    show (take? _ _).map _ = _
    rw [take?_append]
    rfl
  | bin h =>
    rw [write, List.append_assoc, read, readHeader_write h]
    show (take? _ _).map _ = _
    rw [take?_append]
    rfl
  | array h hitems ih =>
    obtain ⟨limit, rfl⟩ : ∃ n, limit = n + 1 := ⟨limit - 1, by omega⟩
    rw [write, List.append_assoc, read, readHeader_write h]
    show (if limit + 1 = 0 then none else (repeatRead _ _ _).map _) = _
    rw [if_neg (by omega),
      repeatRead_writeItems fun item hitem rest => ih item hitem rest limit (by omega)]
    rfl
  | map h hkeys hvalues ihk ihv =>
    obtain ⟨limit, rfl⟩ : ∃ n, limit = n + 1 := ⟨limit - 1, by omega⟩
    rw [write, List.append_assoc, read, readHeader_write h]
    show (if limit + 1 = 0 then none else (repeatRead _ _ _).map _) = _
    rw [if_neg (by omega),
      repeatRead_writeEntries (fun entry hentry rest => ihk entry hentry rest limit (by omega))
        (fun entry hentry rest => ihv entry hentry rest limit (by omega))]
    rfl

end FieldEngine.Packed
