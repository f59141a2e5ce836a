import Mathlib.Data.List.Forall2
import Mathlib.Data.List.Nodup
import FieldEngine.Proofs.Text.JsonGrammar
import FieldEngine.Trace.Json

/-!
# What a trace says in JSON

A record is printed as one object: its number, tick, time and kind, and after them the numbers and
texts of its event (`TraceRecord.json`). What is printed has that value and no other, if the texts
that the record was given are legible, and has none if they are not: a control character that is
no line end and no tab stands in the string as it is.

    Reads (object r) v ↔ r.Legible ∧ v = r.json
    Reads (f.text rs) v ↔ (∀ r ∈ rs, r.Legible) ∧ v = .array (rs.map json)          (traces_in_json)

The start and the end of a tick are printed with the name `tick` twice.
-/

namespace FieldEngine

open FieldEngine.Text

/-! ## What is printed -/

def Json.nat (n : Nat) : Json :=
  .number n

namespace TraceEvent

/-- The numbers and texts of an event, with their names. -/
def members : TraceEvent → List (String × Json)
  | tickStart tick => [("tick", .nat tick)]
  | tickEnd tick executed => [("tick", .nat tick), ("executed", .nat executed)]
  | scriptLoaded script instructions =>
    [("script", .string script), ("instructions", .nat instructions)]
  | decodeFailed script error => [("script", .string script), ("error", .string error.message)]
  | spawned id script owner =>
    [("instance", .nat id), ("script", .string script), ("owner", .string owner.text)]
  | instruction id offset rendered =>
    [("instance", .nat id), ("offset", .nat offset), ("instruction", .string rendered)]
  | suspended id reason => [("instance", .nat id), ("reason", .string reason.text)]
  | notified event released =>
    [("event", .string event.text), ("released", .array (released.map .nat))]
  | resumed id | halted id | preempted id | cancelled id => [("instance", .nat id)]
  | faulted id fault => [("instance", .nat id), ("fault", .string fault.message)]
  | custom name data => [("name", .string name), ("data", .string data)]

/-- The texts that an event was given, as opposed to those made up for numbers. -/
def texts : TraceEvent → List String
  | scriptLoaded script _ => [script]
  | decodeFailed script error => [script, error.message]
  | spawned _ script _ => [script]
  | instruction _ _ rendered => [rendered]
  | custom name data => [name, data]
  | _ => []

/-- The tick that starts or ends. -/
def tick? : TraceEvent → Option Nat
  | tickStart tick | tickEnd tick _ => some tick
  | _ => none

end TraceEvent

namespace TraceRecord

/-- What every record is printed with. -/
def heading (r : TraceRecord) : List (String × Json) :=
  [("id", .nat r.id), ("tick", .nat r.tick), ("timestamp_ns", .nat r.timestamp),
   ("type", .string r.kind)]

/-- All that a record is printed with. -/
def members (r : TraceRecord) : List (String × Json) :=
  r.heading ++ r.event.members

def json (r : TraceRecord) : Json :=
  .object r.members

/-- None of the texts of a record has a character that cannot stand in JSON. -/
def Legible (r : TraceRecord) : Prop :=
  ∀ s ∈ r.event.texts, Json.Legible s

end TraceRecord

/-! ## Joined texts -/

namespace Json

/-- The text is read as a value, whatever follows it. -/
def Prints (text : String) (v : Json) : Prop :=
  ∀ t, Derives .value (text.toList ++ t) v t

/-- The text is read as a member of an object, whatever follows it. -/
def PrintsMember (text : String) (m : String × Json) : Prop :=
  ∀ t, Derives .member (text.toList ++ t) (.object [m]) t

theorem Prints.reads {text : String} {v : Json} (h : Prints text v) : Reads text v :=
  ⟨text.toList, [], spaces_refl _, by simpa using h [], spaces_refl _⟩

/-- What holds of a last text alone, and of one more text and a separator before others, holds of
texts that are joined. -/
theorem joinWith_induction {α : Type} {separator : String} {R : String → α → Prop}
    {P : List Char → List α → Prop} (last : ∀ {a v}, R a v → P a.toList [v])
    (next : ∀ {a v s vs}, R a v → P s vs → P (a.toList ++ (separator.toList ++ s)) (v :: vs))
    {texts : List String} {values : List α} (h : List.Forall₂ R texts values) (hne : texts ≠ []) :
    P (joinWith separator texts).toList values := by
  induction h with
  | nil => exact absurd rfl hne
  | @cons a v texts values ha h ih =>
    cases h with
    | nil => simpa [joinWith] using last ha
    | cons hb h =>
      have hrest := next ha (ih (by simp))
      rw [joinWith, String.toList_intercalate] at hrest ⊢
      simpa [List.intercalate_cons_cons] using hrest

/-- **An array**, if only spaces stand between its brackets, commas and items. -/
theorem prints_array {opening separator closing : String} (before after : List Char)
    (hbefore : ∀ c ∈ before, isSpace c = true) (hafter : ∀ c ∈ after, isSpace c = true)
    (hopening : opening.toList = '[' :: before) (hseparator : separator.toList = ',' :: before)
    (hclosing : closing.toList = after ++ [']']) {texts : List String} {values : List Json}
    (h : List.Forall₂ Prints texts values) :
    Prints (opening ++ joinWith separator texts ++ closing) (.array values) := by
  intro t
  simp only [String.toList_append, hopening, hclosing, List.cons_append, List.append_assoc,
    List.nil_append]
  by_cases hne : texts = []
  · subst hne
    cases h
    refine .emptyArray ⟨before ++ after, ?_, by simp [joinWith]⟩
    exact List.forall_mem_append.2 ⟨hbefore, hafter⟩
  · refine .array ⟨before, hbefore, rfl⟩ ?_
    refine joinWith_induction (R := Prints)
      (P := fun s vs => Derives .items (s ++ (after ++ ']' :: t)) (.array vs) t) ?_ ?_ h hne
    · intro a v ha
      exact .lastItem (ha _) ⟨after, hafter, rfl⟩
    · intro a v s vs ha hs
      rw [hseparator, List.append_assoc]
      exact .nextItem (ha _) (spaces_refl _) ⟨before, hbefore, by simp⟩ hs

/-- **An object** without spaces. -/
theorem prints_object {texts : List String} {members : List (String × Json)}
    (h : List.Forall₂ PrintsMember texts members) (hne : texts ≠ []) :
    Prints ("\x7b" ++ joinWith "," texts ++ "\x7d") (.object members) := by
  intro t
  simp only [String.toList_append, List.append_assoc]
  refine .object (spaces_refl _) ?_
  refine joinWith_induction (R := PrintsMember)
    (P := fun s ms => Derives .members (s ++ '\x7d' :: t) (.object ms) t) ?_ ?_ h hne
  · intro a m ha
    exact .lastMember (ha _) (spaces_refl _)
  · intro a m s ms ha hs
    rw [List.append_assoc]
    exact .nextMember (ha _) (spaces_refl _) (spaces_refl _) hs

/-! ## Numbers and strings -/

theorem head?_toDigits {n : Nat} (h : n ≠ 0) : (Nat.toDigits 10 n).head? ≠ some '0' := by
  induction n using Nat.strongRecOn with
  | ind n ih =>
    rw [Nat.toDigits_eq_if (by decide)]
    split
    · rename_i hlt
      have hall : ∀ d < 10, d ≠ 0 → [Nat.digitChar d].head? ≠ some '0' := by decide
      exact hall n hlt h
    · rw [List.head?_append_of_ne_nil _ Nat.toDigits_ne_nil]
      exact ih (n / 10) (by omega) (by omega)

theorem prints_nat (n : Nat) : Prints (toString n) (.nat n) := by
  intro t
  have hdigits : Digits (Nat.toDigits 10 n) := ⟨Nat.toDigits_ne_nil, fun c => isDigit_of_mem⟩
  have hwhole : Nat.toDigits 10 n = ['0'] ∨
      Digits (Nat.toDigits 10 n) ∧ (Nat.toDigits 10 n).head? ≠ some '0' := by
    by_cases hn : n = 0
    · exact .inl (by rw [hn]; rfl)
    · exact .inr ⟨hdigits, head?_toDigits hn⟩
  have hvalue : valueOf [] (Nat.toDigits 10 n) [] [] = n := by
    simp [valueOf, intOf, natOf]
  have hnumber := Derives.number (s := (toString n).toList ++ t) (t := t)
    (by simp [Nat.toString_eq_repr]) ⟨.inl rfl, hwhole, .inl rfl, .inl rfl⟩
  rwa [hvalue] at hnumber

/-- Characters that need no escape. -/
theorem chars_plain {s : List Char} (h : s.all isUnescaped = true) (t : List Char) :
    Chars (s ++ '"' :: t) s t := by
  induction s with
  | nil => exact .close t
  | cons c s ih =>
    obtain ⟨hc, hs⟩ := Bool.and_eq_true_iff.1 h
    exact .plain hc (ih hs)

theorem prints_plain {s : String} (h : s.toList.all isUnescaped = true) :
    Prints ("\"" ++ s ++ "\"") (.string s) := by
  intro t
  have hchars := Derives.string (chars_plain h t)
  simpa using hchars

end Json

namespace JsonFormat

open Json

/-- What becomes of a character in a string literal. -/
def escape : Char → List Char
  | '\\' => ['\\', '\\']
  | '"' => ['\\', '"']
  | '\n' => ['\\', 'n']
  | '\r' => ['\\', 'r']
  | '\t' => ['\\', 't']
  | c => [c]

theorem replaced_singleton {c d : Char} (h : d ≠ c) (other : List Char) :
    replaced c other [d] = [d] := by
  simp [replaced, h]

theorem escaped_singleton (c : Char) : escaped [c] = escape c := by
  unfold escape
  split
  · rfl
  · rfl
  · rfl
  · rfl
  · rfl
  · rename_i hbackslash hquote hline hreturn htab
    simp only [escaped, replaced_singleton hbackslash, replaced_singleton hquote,
      replaced_singleton hline, replaced_singleton hreturn, replaced_singleton htab]

/-- **Five replacements in one pass.** None meets what another has put in. -/
theorem escaped_eq_flatMap (s : List Char) : escaped s = s.flatMap escape := by
  have hwise : escaped s = s.flatMap fun c => escaped [c] := by
    simp only [escaped, replaced, List.flatMap_assoc, List.flatMap_singleton]
  rw [hwise, funext escaped_singleton]

/-- A character is escaped, or it stands for itself and need not be escaped if it is legible. -/
theorem escape_cases (c : Char) :
    (∃ e, escape c = ['\\', e] ∧ (e, c) ∈ escapes ∧ isLegible c = true) ∨
      escape c = [c] ∧ (isLegible c = true → isUnescaped c = true) := by
  unfold escape
  split
  · exact .inl ⟨'\\', rfl, by decide⟩
  · exact .inl ⟨'"', rfl, by decide⟩
  · exact .inl ⟨'n', rfl, by decide⟩
  · exact .inl ⟨'r', rfl, by decide⟩
  · exact .inl ⟨'t', rfl, by decide⟩
  · rename_i hbackslash hquote hline hreturn htab
    refine .inr ⟨rfl, fun hc => ?_⟩
    have hcode : 0x20 ≤ c.toNat := by
      rcases Bool.or_eq_true_iff.1 hc with hcode | hspace
      · exact of_decide_eq_true hcode
      · simp only [isSpace, Bool.or_eq_true, beq_iff_eq] at hspace
        rcases hspace with ((rfl | rfl) | rfl) | rfl
        · decide
        · exact absurd rfl htab
        · exact absurd rfl hline
        · exact absurd rfl hreturn
    simpa [isUnescaped] using ⟨⟨hcode, hquote⟩, hbackslash⟩

theorem chars_escape {c : Char} (hc : isLegible c = true) {s m t : List Char} (h : Chars s m t) :
    Chars (escape c ++ s) (c :: m) t := by
  obtain ⟨e, heq, he, -⟩ | ⟨heq, hplain⟩ := escape_cases c
  · rw [heq]
    exact .escaped he h
  · rw [heq]
    exact .plain (hplain hc) h

theorem chars_flatMap {s : List Char} (h : ∀ c ∈ s, isLegible c = true) (t : List Char) :
    Chars (s.flatMap escape ++ '"' :: t) s t := by
  induction s with
  | nil => exact .close t
  | cons c s ih =>
    rw [List.flatMap_cons, List.append_assoc]
    exact chars_escape (h c (by simp)) (ih fun d hd => h d (by simp [hd]))

/-- A legible text between quotes. -/
theorem prints_quoted {s : String} (h : Json.Legible s) : Prints (quoted s) (.string s) := by
  intro t
  simpa [quoted, escaped_eq_flatMap] using Derives.string (chars_flatMap h t)

theorem printsMember_field {name value : String} {v : Json}
    (hname : name.toList.all isUnescaped = true) (h : Prints value v) :
    PrintsMember (field name value) (name, v) := by
  intro t
  have hmember := Derives.member (chars_plain hname (':' :: (value.toList ++ t))) (spaces_refl _)
    (spaces_refl _) (h t)
  simpa [field] using hmember

theorem printsMember_number {name : String} {n : Nat}
    (hname : name.toList.all isUnescaped = true) :
    PrintsMember (number name n) (name, .nat n) :=
  printsMember_field hname (prints_nat n)

theorem printsMember_string {name s : String} (hname : name.toList.all isUnescaped = true)
    (hs : Json.Legible s) : PrintsMember (string name s) (name, .string s) :=
  printsMember_field hname (prints_quoted hs)

/-! ## Legible texts -/

theorem legible_append {s t : String} (hs : Json.Legible s) (ht : Json.Legible t) :
    Json.Legible (s ++ t) := by
  rw [Json.Legible, String.toList_append]
  exact List.forall_mem_append.2 ⟨hs, ht⟩

/-- A text with another set into it. -/
theorem legible_inset {s a t : String} (hs : Json.Legible s) (ha : Json.Legible a)
    (ht : Json.Legible t) : Json.Legible (s ++ a ++ t) :=
  legible_append (legible_append hs ha) ht

theorem legible_nat (n : Nat) : Json.Legible (toString n) := by
  intro c hc
  rw [Nat.toString_eq_repr, Nat.toList_repr] at hc
  exact isLegible_of_isDigit (isDigit_of_mem hc)

theorem legible_int (n : Int) : Json.Legible (toString n) := by
  rw [Int.toString_eq_repr, Int.repr_eq_if]
  split
  · exact legible_nat n.toNat
  · exact legible_append (by decide) (legible_nat (-n).toNat)

theorem legible_entity (e : EntityId) : Json.Legible e.text := by
  unfold EntityId.text
  exact legible_append (by decide) (legible_nat e.slot)

theorem legible_detail (e : EntityId) : Json.Legible e.detail := by
  unfold EntityId.detail
  exact legible_inset (legible_inset (by decide) (legible_nat e.slot) (by decide))
    (legible_nat e.generation) (by decide)

theorem legible_reason (reason : WaitReason) : Json.Legible reason.text := by
  unfold WaitReason.text
  split
  · rename_i frames
    exact legible_inset (by decide) (legible_int frames.toInt) (by decide)
  · rename_i channel message
    exact legible_inset (legible_inset (by decide) (legible_int channel.toInt) (by decide))
      (legible_int message.toInt) (by decide)
  · rename_i entity number
    exact legible_inset (legible_inset (by decide) (legible_nat number.toNat) (by decide))
      (legible_entity entity) (by decide)

theorem legible_instance (id : Nat) : Json.Legible (Instance.idText id) := by
  unfold Instance.idText
  exact legible_append (by decide) (legible_nat id)

theorem legible_host (event : HostEvent) : Json.Legible event.text := by
  unfold HostEvent.text
  split
  · rename_i channel
    exact legible_inset (by decide) (legible_int channel.toInt) (by decide)
  · rename_i entity animation
    exact legible_inset (legible_inset (by decide) (legible_nat animation.toNat) (by decide))
      (legible_entity entity) (by decide)
  · rename_i id
    exact legible_inset (by decide) (legible_instance id) (by decide)

theorem legible_bank (bank : Bank) : Json.Legible bank.name := by
  cases bank <;> decide

theorem legible_fault (fault : Fault) : Json.Legible fault.message := by
  unfold Fault.message
  split
  · rename_i target
    exact legible_append (by decide) (legible_int target)
  · decide
  · rename_i limit
    exact legible_inset (by decide) (legible_nat limit) (by decide)
  · decide
  · rename_i bank index
    exact legible_inset (legible_inset (by decide) (legible_bank bank) (by decide))
      (legible_nat index.toNat) (by decide)
  · rename_i bank
    exact legible_inset (by decide) (legible_bank bank) (by decide)
  · rename_i id
    exact legible_append (by decide) (legible_detail id)

/-! ## Records -/

theorem forall₂_prints {α : Type} {text : α → String} {value : α → Json} {as : List α}
    (h : ∀ a ∈ as, Prints (text a) (value a)) :
    List.Forall₂ Prints (as.map text) (as.map value) :=
  List.forall₂_map_left_iff.2 (List.forall₂_map_right_iff.2 (List.forall₂_same.2 h))

theorem prints_released (released : List Nat) :
    Prints ("[" ++ joinWith "," (released.map toString) ++ "]") (.array (released.map .nat)) :=
  prints_array [] [] (by simp) (by simp) rfl rfl rfl (forall₂_prints fun n _ => prints_nat n)

/-- The fields of an event are its members. -/
theorem prints_event {e : TraceEvent} (h : ∀ s ∈ e.texts, Json.Legible s) :
    List.Forall₂ PrintsMember (eventFields e) e.members := by
  cases e with
  | tickStart tick => exact .cons (printsMember_number (by decide)) .nil
  | tickEnd tick executed =>
    exact .cons (printsMember_number (by decide)) (.cons (printsMember_number (by decide)) .nil)
  | scriptLoaded script instructions =>
    exact .cons (printsMember_string (by decide) (h _ (.head _)))
      (.cons (printsMember_number (by decide)) .nil)
  | decodeFailed script error =>
    exact .cons (printsMember_string (by decide) (h _ (.head _)))
      (.cons (printsMember_string (by decide) (h _ (.tail _ (.head _)))) .nil)
  | spawned id script owner =>
    exact .cons (printsMember_number (by decide))
      (.cons (printsMember_string (by decide) (h _ (.head _)))
        (.cons (printsMember_string (by decide) (legible_entity owner)) .nil))
  | instruction id offset rendered =>
    exact .cons (printsMember_number (by decide)) (.cons (printsMember_number (by decide))
      (.cons (printsMember_string (by decide) (h _ (.head _))) .nil))
  | suspended id reason =>
    exact .cons (printsMember_number (by decide))
      (.cons (printsMember_string (by decide) (legible_reason reason)) .nil)
  | notified event released =>
    exact .cons (printsMember_string (by decide) (legible_host event))
      (.cons (printsMember_field (by decide) (prints_released released)) .nil)
  | resumed id | halted id | preempted id | cancelled id =>
    exact .cons (printsMember_number (by decide)) .nil
  | faulted id fault =>
    exact .cons (printsMember_number (by decide))
      (.cons (printsMember_string (by decide) (legible_fault fault)) .nil)
  | custom name data =>
    exact .cons (printsMember_string (by decide) (h _ (.head _)))
      (.cons (printsMember_string (by decide) (h _ (.tail _ (.head _)))) .nil)

theorem prints_record {r : TraceRecord} (h : r.Legible) : Prints (object r) r.json := by
  have hkind : r.kind.toList.all isUnescaped = true := by
    unfold TraceRecord.kind TraceEvent.kind
    split <;> decide
  refine prints_object ?_ (by simp)
  exact .cons (printsMember_number (by decide)) (.cons (printsMember_number (by decide))
    (.cons (printsMember_number (by decide)) (.cons (printsMember_field (by decide)
      (prints_plain hkind)) (prints_event h))))

theorem prints_records (f : JsonFormat) {rs : List TraceRecord} (h : ∀ r ∈ rs, r.Legible) :
    Prints (f.text rs) (.array (rs.map TraceRecord.json)) := by
  have hitems : List.Forall₂ Prints (rs.map object) (rs.map TraceRecord.json) :=
    forall₂_prints fun r hr => prints_record (h r hr)
  unfold text
  split
  · exact prints_array ['\n', ' ', ' '] ['\n'] (List.all_eq_true.1 rfl) (List.all_eq_true.1 rfl) rfl
      rfl rfl hitems
  · exact prints_array [] [] (by simp) (by simp) rfl rfl rfl hitems

/-! ## Illegible records -/

/-- A character that cannot stand in JSON stands in a string as it is. -/
theorem mem_quoted {s : String} {c : Char} (hc : c ∈ s.toList) (h : isLegible c = false) :
    c ∈ (quoted s).toList := by
  have hraw : c ∈ escape c := by
    obtain ⟨e, -, -, hlegible⟩ | ⟨heq, -⟩ := escape_cases c
    · rw [h] at hlegible
      cases hlegible
    · rw [heq]
      exact List.mem_singleton_self c
  simp only [quoted, escaped_eq_flatMap, String.toList_append, String.toList_ofList,
    List.mem_append, List.mem_flatMap]
  exact .inl (.inr ⟨c, hc, hraw⟩)

/-- Each text that an event was given is a string of its own. -/
theorem exists_string {e : TraceEvent} {s : String} (h : s ∈ e.texts) :
    ∃ name, string name s ∈ eventFields e := by
  cases e with
  | scriptLoaded script instructions =>
    obtain rfl := List.mem_singleton.1 h
    exact ⟨"script", by simp [eventFields]⟩
  | decodeFailed script error =>
    rcases List.mem_pair.1 h with rfl | rfl
    · exact ⟨"script", by simp [eventFields]⟩
    · exact ⟨"error", by simp [eventFields]⟩
  | spawned id script owner =>
    obtain rfl := List.mem_singleton.1 h
    exact ⟨"script", by simp [eventFields]⟩
  | instruction id offset rendered =>
    obtain rfl := List.mem_singleton.1 h
    exact ⟨"instruction", by simp [eventFields]⟩
  | custom name data =>
    rcases List.mem_pair.1 h with rfl | rfl
    · exact ⟨"name", by simp [eventFields]⟩
    · exact ⟨"data", by simp [eventFields]⟩
  | _ => cases h

theorem legible_of_object {r : TraceRecord} (h : Json.Legible (object r)) : r.Legible := by
  intro s hs c hc
  cases hlegible : isLegible c with
  | true => rfl
  | false =>
    obtain ⟨name, hfield⟩ := exists_string hs
    have hstring : c ∈ (string name s).toList := by
      rw [string, field, String.toList_append]
      exact List.mem_append_right _ (mem_quoted hc hlegible)
    have hobject : c ∈ (object r).toList := by
      simp only [object, String.toList_append]
      exact List.mem_append_left _ (List.mem_append_right _
        (mem_joinWith_of_mem (List.mem_append_right _ hfield) hstring))
    exact hlegible.symm.trans (h c hobject)

theorem legible_of_text {f : JsonFormat} {rs : List TraceRecord} (h : Json.Legible (f.text rs)) :
    ∀ r ∈ rs, r.Legible := by
  intro r hr
  apply legible_of_object
  intro c hc
  apply h
  have hjoined : ∀ separator, c ∈ (joinWith separator (rs.map object)).toList := fun separator =>
    mem_joinWith_of_mem (List.mem_map_of_mem hr) hc
  unfold text
  split <;> simp only [String.toList_append]
  · exact List.mem_append_left _ (List.mem_append_right _ (hjoined _))
  · exact List.mem_append_left _ (List.mem_append_right _ (hjoined _))

theorem reads_object_iff (r : TraceRecord) (v : Json) :
    Reads (object r) v ↔ r.Legible ∧ v = r.json := by
  constructor
  · intro h
    have hr := legible_of_object h.legible
    exact ⟨hr, h.unique (prints_record hr).reads⟩
  · rintro ⟨hr, rfl⟩
    exact (prints_record hr).reads

theorem reads_text_iff (f : JsonFormat) (rs : List TraceRecord) (v : Json) :
    Reads (f.text rs) v ↔ (∀ r ∈ rs, r.Legible) ∧ v = .array (rs.map TraceRecord.json) := by
  constructor
  · intro h
    have hrs := legible_of_text h.legible
    exact ⟨hrs, h.unique (prints_records f hrs).reads⟩
  · rintro ⟨hrs, rfl⟩
    exact (prints_records f hrs).reads

end JsonFormat

/-! ## Names -/

/-- Members of different names are told apart by them. -/
theorem Json.value_unique {ms : List (String × Json)} (h : (ms.map Prod.fst).Nodup) {name : String}
    {v w : Json} (hv : (name, v) ∈ ms) (hw : (name, w) ∈ ms) : v = w :=
  (Prod.mk.inj (List.inj_on_of_nodup_map h hv hw rfl)).2

theorem TraceEvent.tick_mem_members_iff {e : TraceEvent} {v : Json} :
    ("tick", v) ∈ e.members ↔ ∃ tick, e.tick? = some tick ∧ v = .nat tick := by
  cases e <;> simp [members, tick?]

namespace TraceRecord

/-- Without the tick of its event, all names of a record differ. -/
theorem nodup_names (r : TraceRecord) :
    ((r.heading ++ r.event.members.filter (·.1 != "tick")).map Prod.fst).Nodup := by
  unfold heading
  cases r.event <;> simp [TraceEvent.members]

/-- The tick of the event can be left out if it is the one of the record. -/
theorem mem_of_mem_members {r : TraceRecord}
    (h : ∀ tick, r.event.tick? = some tick → tick = r.tick) {m : String × Json}
    (hm : m ∈ r.members) : m ∈ r.heading ++ r.event.members.filter (·.1 != "tick") := by
  obtain ⟨name, v⟩ := m
  rcases List.mem_append.1 hm with hm | hm
  · exact List.mem_append_left _ hm
  · by_cases hname : name = "tick"
    · subst hname
      obtain ⟨tick, htick, rfl⟩ := TraceEvent.tick_mem_members_iff.1 hm
      rw [h tick htick]
      exact List.mem_append_left _ (.tail _ (.head _))
    · exact List.mem_append_right _ (List.mem_filter.2 ⟨hm, by simpa using hname⟩)

/-- A record has one value for each name, unless another tick starts or ends in its tick. -/
theorem value_unique_iff (r : TraceRecord) :
    (∀ name v w, (name, v) ∈ r.members → (name, w) ∈ r.members → v = w) ↔
      ∀ tick, r.event.tick? = some tick → tick = r.tick := by
  constructor
  · intro h tick htick
    have hmember := TraceEvent.tick_mem_members_iff.2 ⟨tick, htick, rfl⟩
    have hsame := h "tick" _ _ (List.mem_append_right _ hmember) (.tail _ (.head _))
    simpa [Json.nat] using hsame
  · intro h name v w hv hw
    exact Json.value_unique r.nodup_names (mem_of_mem_members h hv) (mem_of_mem_members h hw)

end TraceRecord

/-- **Traces in JSON**: what is printed for a record, and for records in either layout, is read as
their numbers and texts exactly if no text has a control character that is no line end and no tab;
and only the tick of an event can be taken for that of its record. -/
theorem traces_in_json (f : JsonFormat) (r : TraceRecord) (rs : List TraceRecord) :
    (∀ v, Json.Reads (JsonFormat.object r) v ↔ r.Legible ∧ v = r.json) ∧
    (∀ v, Json.Reads (f.text rs) v ↔
      (∀ r ∈ rs, r.Legible) ∧ v = .array (rs.map TraceRecord.json)) ∧
    ((∀ name v w, (name, v) ∈ r.members → (name, w) ∈ r.members → v = w) ↔
      ∀ tick, r.event.tick? = some tick → tick = r.tick) :=
  ⟨JsonFormat.reads_object_iff r, JsonFormat.reads_text_iff f rs, r.value_unique_iff⟩

/-- A note whose name has the character of code 1 is printed as no JSON value, alone and in a
list. -/
theorem control_character_unreadable :
    let r : TraceRecord := ⟨0, 0, 0, .custom "a\x01" "b"⟩
    (¬∃ v, Json.Reads (JsonFormat.object r) v) ∧
      ¬∃ (f : JsonFormat) (v : Json), Json.Reads (f.text [r]) v := by
  intro r
  have hname : ¬r.Legible := fun h => absurd (h "a\x01" (.head _)) (by decide)
  constructor
  · rintro ⟨v, h⟩
    exact hname (JsonFormat.legible_of_object h.legible)
  · rintro ⟨f, v, h⟩
    exact hname (JsonFormat.legible_of_text h.legible r (.head _))

end FieldEngine
