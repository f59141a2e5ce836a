import FieldEngine.Error
import FieldEngine.Field.Bank
import FieldEngine.Text.Blank
import FieldEngine.Text.Numeral

/-!
# Commands

A console line is one command: a command word and its arguments, separated by blanks. Blank lines
and lines that start with `#` are no commands. Arguments beyond those of a command are passed
over.
-/

namespace FieldEngine

/-- What to do with the trace. -/
inductive TraceCommand
  | on
  | off
  | json
  | human
  | dump (count : Nat)
  /-- Follow one instance, or all. -/
  | focus (id : Option Nat)
deriving DecidableEq

/-- A host event as it is named on a line. -/
inductive NotifyCommand
  | dialogue (channel : Int32)
  | animation (entity : String) (animation : UInt16)
  | timer (id : Nat)
deriving DecidableEq

inductive Command
  /-- Load a script file, under its own or another name. -/
  | load (path : String) (name : Option String)
  | entity (name : String)
  | spawn (script owner : String)
  | tick (count : Nat)
  | notify (event : NotifyCommand)
  | resume (id : Nat)
  /-- Remove one instance, or all. -/
  | cancel (id : Option Nat)
  | ps
  | disasm (script : String)
  | peek (bank : Bank) (index : UInt16)
  | poke (bank : Bank) (index : UInt16) (value : Int32)
  /-- Read or set a flag. -/
  | flag (index : UInt16) (value : Option Bool)
  | save (path : String)
  | restore (path : String)
  | trace (command : TraceCommand)
  | help
  | quit
deriving DecidableEq

/-- Why a line is no command. -/
inductive CommandError
  | usage (text : String)
  | unknown (word : String)
deriving DecidableEq

def CommandError.message : CommandError → String
  | usage text => s!"usage: {text}"
  | unknown word => s!"unknown command '{word}' (try 'help')"

/-- A line that is no command as an error of the engine. -/
def CommandError.toError (e : CommandError) : Error :=
  .of (.internal e.message)

namespace Command

def keywords : List String :=
  ["load", "entity", "spawn", "tick", "notify", "resume", "cancel", "ps", "disasm", "peek",
   "poke", "flag", "save", "restore", "trace", "help", "quit"]

/-! ## Arguments -/

/-- An argument that must be there. -/
def required {α : Type} (usage : String) (read : String → Option α) (word : Option String) :
    Except CommandError α :=
  match word.bind read with
  | some a => .ok a
  | none => .error (.usage usage)

/-- A number without a sign that fits 64 bits. -/
def count? (word : String) : Option Nat :=
  (Text.numeral? .u64 word).map Int.toNat

def index? (word : String) : Option UInt16 :=
  (Text.numeral? .u16 word).map fun n => UInt16.ofNat n.toNat

def value? (word : String) : Option Int32 :=
  (Text.numeral? .i32 word).map Int32.ofInt

/-- The state of a flag. -/
def switch? : String → Option Bool
  | "on" | "1" => some true
  | "off" | "0" => some false
  | _ => none

/-! ## Lines -/

def parseNotify (args : List String) : Except CommandError NotifyCommand := do
  let usage := "notify dialogue <channel> | anim <entity> <animation> | timer <instance>"
  match args with
  | "dialogue" :: args => .ok (.dialogue (← required usage value? args[0]?))
  | "anim" :: args =>
    .ok (.animation (← required usage some args[0]?) (← required usage index? args[1]?))
  | "timer" :: args => .ok (.timer (← required usage count? args[0]?))
  | _ => .error (.usage usage)

def parseTrace (args : List String) : Except CommandError TraceCommand := do
  match args with
  | "on" :: _ => .ok .on
  | "off" :: _ => .ok .off
  | "json" :: _ => .ok .json
  | "human" :: _ => .ok .human
  | ["dump"] => .ok (.dump 20)
  | "dump" :: args => .ok (.dump (← required "trace dump [count]" count? args[0]?))
  | "focus" :: "all" :: _ => .ok (.focus none)
  | "focus" :: args =>
    .ok (.focus (some (← required "trace focus <instance>|all" count? args[0]?)))
  | _ => .error (.usage "trace on|off|json|human|dump [count]|focus <instance>|all")

/-- The command of a command word and its arguments. -/
def parseWords (head : String) (args : List String) : Except CommandError Command := do
  match head with
  | "load" => .ok (.load (← required "load <path> [name]" some args[0]?) args[1]?)
  | "entity" => .ok (.entity (← required "entity <name>" some args[0]?))
  | "spawn" =>
    let usage := "spawn <script> <entity>"
    .ok (.spawn (← required usage some args[0]?) (← required usage some args[1]?))
  | "tick" =>
    if args.isEmpty then .ok (.tick 1)
    else .ok (.tick (← required "tick [count]" count? args[0]?))
  | "notify" => .ok (.notify (← parseNotify args))
  | "resume" => .ok (.resume (← required "resume <instance>" count? args[0]?))
  | "cancel" =>
    if args[0]? = some "all" then .ok (.cancel none)
    else .ok (.cancel (some (← required "cancel <instance>|all" count? args[0]?)))
  | "ps" => .ok .ps
  | "disasm" => .ok (.disasm (← required "disasm <script>" some args[0]?))
  | "peek" =>
    let usage := "peek <bank> <index>"
    .ok (.peek (← required usage Bank.ofName? args[0]?) (← required usage index? args[1]?))
  | "poke" =>
    let usage := "poke <bank> <index> <value>"
    .ok (.poke (← required usage Bank.ofName? args[0]?) (← required usage index? args[1]?)
      (← required usage value? args[2]?))
  | "flag" =>
    let usage := "flag <index> [on|off]"
    let index ← required usage index? args[0]?
    if args.length ≤ 1 then .ok (.flag index none)
    else .ok (.flag index (some (← required usage switch? args[1]?)))
  | "save" => .ok (.save (← required "save <path>" some args[0]?))
  | "restore" => .ok (.restore (← required "restore <path>" some args[0]?))
  | "trace" => .ok (.trace (← parseTrace args))
  | "help" | "?" => .ok .help
  | "quit" | "exit" => .ok .quit
  | word => .error (.unknown word)

/-- The command of a line, if the line is one. -/
def parse (line : String) : Except CommandError (Option Command) :=
  match Text.words line with
  | [] => .ok none
  | head :: args =>
    if head.startsWith "#" then .ok none else (parseWords head args).map some

end Command

end FieldEngine
