import N3.Settings
import N3.Text.Integer

/-!
# Words on the command line

A command is named by a word, before and after which there may be options. An option takes its value from the same
word or from the next one, and the value is looked at only when the next option or the next plain word comes, or the
end. After `--` every word is a plain one. What is said of a general option after the name of the command counts
more than what is said of it before.
-/

set_option autoImplicit false

namespace N3.Cli

inductive UsageError where
  | help
  /-- There are no words at all. -/
  | nothing
  | version
  | invalidValue
  | unknownArgument
  | invalidSubcommand
  | missingSubcommand
  | missingArgument
  /-- A value that should be an integer is none, or is out of range. -/
  | badNumber
  | repeatedOption
  /-- A value where none is taken. -/
  | superfluousValue
  deriving DecidableEq, Repr

/-! ## Options -/

inductive Verbosity where
  | trace | debug | info | warn | error
  deriving DecidableEq, Repr

namespace Verbosity

def name : Verbosity → String
  | trace => "trace"
  | debug => "debug"
  | info => "info"
  | warn => "warn"
  | error => "error"

def all : List Verbosity := [trace, debug, info, warn, error]

end Verbosity

inductive OptionName where
  | config | network | networkMagic | verbose | threshold | unwrapIterator
  deriving DecidableEq, Repr

namespace OptionName

def long : OptionName → String
  | config => "config"
  | network => "network"
  | networkMagic => "network-magic"
  | verbose => "verbose"
  | threshold => "threshold"
  | unwrapIterator => "unwrap-iterator"

def short? : OptionName → Option Char
  | config => some 'c'
  | threshold => some 't'
  | _ => none

def general : List OptionName := [config, network, networkMagic, verbose]

end OptionName

structure Options where
  config : Option String := none
  network : Option Network := none
  magic : Option UInt32 := none
  verbosity : Option Verbosity := none
  threshold : Option Nat := none
  unwrapIterator : Option UInt32 := none
  deriving DecidableEq

namespace Options

def setOnce {α : Type} (old new : Option α) (e : UsageError) : Except UsageError (Option α) :=
  match old, new with
  | some _, _ => .error .repeatedOption
  | none, some a => .ok (some a)
  | none, none => .error e

def set (o : Options) (name : OptionName) (text : String) : Except UsageError Options :=
  match name with
  | .config => do
    return { o with config := ← setOnce o.config (if text.isEmpty then none else some text) .invalidValue }
  | .network => do
    return { o with network := ← setOnce o.network (Network.all.find? fun n => n.name == text) .invalidValue }
  | .networkMagic => do
    return { o with magic := ← setOnce o.magic (Integer.parseUInt32? text) .badNumber }
  | .verbose => do
    return { o with verbosity := ← setOnce o.verbosity (Verbosity.all.find? fun v => v.name == text) .invalidValue }
  | .threshold => do
    return { o with threshold := ← setOnce o.threshold (Integer.parseCount? text) .badNumber }
  | .unwrapIterator => do
    return { o with unwrapIterator := ← setOnce o.unwrapIterator (Integer.parseUInt32? text) .badNumber }

end Options

/-! ## Words -/

inductive Word where
  /-- The mark after which all words are plain. -/
  | escape
  | long (name : String) (value : Option String)
  | short (letter : Char) (rest : List Char)
  | plain (text : String)
  deriving DecidableEq, Repr

/-- The value that is attached to the letter of an option. -/
def attached? : List Char → Option String
  | [] => none
  | '=' :: cs => some (String.ofList cs)
  | cs => some (String.ofList cs)

def Word.ofText (text : String) : Word :=
  match text.toList with
  | ['-', '-'] => .escape
  | '-' :: '-' :: cs =>
    let value := match cs.dropWhile (· != '=') with
      | _ :: v => some (String.ofList v)
      | [] => none
    .long (String.ofList (cs.takeWhile (· != '='))) value
  | '-' :: c :: cs => .short c cs
  | _ => .plain text

/-! ## Scanning -/

inductive Flag where
  | help | version
  | option (name : OptionName)
  deriving DecidableEq, Repr

/-- The flags that are known before or after the name of a command. -/
structure Known where
  options : List OptionName
  /-- Whether the version can be asked for. -/
  versioned : Bool

namespace Known

def long? (k : Known) (name : String) : Option Flag :=
  if name = "help" then some .help
  else if k.versioned ∧ name = "version" then some .version
  else (k.options.find? fun o => o.long == name).map .option

def short? (k : Known) (letter : Char) : Option Flag :=
  if letter = 'h' then some .help
  else if k.versioned ∧ letter = 'V' then some .version
  else (k.options.find? fun o => o.short? == some letter).map .option

end Known

structure Scan where
  options : Options := {}
  /-- The last option, and its value if that has come, until the value is looked at. -/
  waiting : Option (OptionName × Option String) := none
  /-- The plain words. -/
  values : List String := []
  /-- Whether all further words are plain. -/
  literal : Bool := false
  deriving DecidableEq

namespace Scan

/-- Looks at the value that waits, if there is one. -/
def settle (s : Scan) : Except UsageError Scan :=
  match s.waiting with
  | none => .ok s
  | some (_, none) => .error .invalidValue
  | some (name, some text) => do return { s with options := ← s.options.set name text, waiting := none }

def flag (s : Scan) (f : Flag) (value : Option String) : Except UsageError Scan := do
  let s ← s.settle
  match f, value with
  | .help, _ => throw .help
  | .version, _ => throw .version
  | .option name, some text => return { s with options := ← s.options.set name text }
  | .option name, none => return { s with waiting := some (name, none) }

/-- Takes one word, and gives it back if it is a plain one that no option waits for. -/
def word (k : Known) (s : Scan) (text : String) : Except UsageError (Scan × Option String) :=
  if s.literal then .ok (s, some text)
  else match Word.ofText text with
    | .escape => .ok ({ s with literal := true }, none)
    | .long name value =>
      match k.long? name, value with
      | none, _ => .error .unknownArgument
      | some (.option name), value => do return (← s.flag (.option name) value, none)
      | some _, some _ => .error .superfluousValue
      | some f, none => do return (← s.flag f none, none)
    | .short letter rest =>
      match k.short? letter with
      | none => .error .unknownArgument
      | some f => do return (← s.flag f (attached? rest), none)
    | .plain text =>
      match s.waiting with
      | some (name, none) => .ok ({ s with waiting := some (name, some text) }, none)
      | _ => .ok (s, some text)

end Scan

/-! ## Commands -/

inductive Command where
  | disasm (script : String)
  | classify (script : String)
  | verification (keys : List String) (threshold : Option Nat)
  | call (contract method : String) (parameters : List String) (unwrapIterator : Option UInt32)
  | decodeTransaction (transaction : String)
  | signData (transaction : String)
  deriving DecidableEq

inductive CommandName where
  | disasm | classify | verification | call | decodeTransaction | signData
  deriving DecidableEq, Repr

namespace CommandName

def word : CommandName → String
  | disasm => "disasm"
  | classify => "classify"
  | verification => "verification"
  | call => "call"
  | decodeTransaction => "decode-tx"
  | signData => "sign-data"

def all : List CommandName := [disasm, classify, verification, call, decodeTransaction, signData]

def ofWord? (text : String) : Option CommandName := all.find? fun c => c.word == text

def known (c : CommandName) : Known :=
  let own := match c with
    | verification => [OptionName.threshold]
    | call => [OptionName.unwrapIterator]
    | _ => []
  ⟨own ++ OptionName.general, false⟩

/-- Whether the command takes another plain word after so many. -/
def hasRoom (c : CommandName) (values : Nat) : Bool :=
  match c with
  | verification | call => true
  | _ => values == 0

def command? (c : CommandName) (values : List String) (o : Options) : Option Command :=
  match c, values with
  | disasm, [script] => some (.disasm script)
  | classify, [script] => some (.classify script)
  | verification, key :: keys => some (.verification (key :: keys) o.threshold)
  | call, contract :: method :: parameters => some (.call contract method parameters o.unwrapIterator)
  | decodeTransaction, [transaction] => some (.decodeTransaction transaction)
  | signData, [transaction] => some (.signData transaction)
  | _, _ => none

end CommandName

def scanCommand (c : CommandName) (s : Scan) : List String → Except UsageError (Command × Options)
  | [] => do
    let s ← s.settle
    let some command := c.command? s.values s.options | throw .missingArgument
    return (command, s.options)
  | text :: rest => do
    match ← s.word c.known text with
    | (s, none) => scanCommand c s rest
    | (s, some value) =>
      if !c.hasRoom s.values.length then throw .unknownArgument
      let s ← s.settle
      scanCommand c { s with values := s.values ++ [value] } rest

def helpWord : String := "help"

def isCommandWord (text : String) : Bool := text == helpWord || (CommandName.ofWord? text).isSome

/-- What the words after `help` lead to: help on one command, or on all. -/
def helpOn : List String → UsageError
  | [] => .help
  | [text] => if isCommandWord text then .help else .invalidSubcommand
  | _ => .invalidSubcommand

/-! ## All the words -/

structure Arguments where
  command : Command
  config : Option String := none
  network : Network := .mainNet
  magic : Option UInt32 := none
  verbosity : Verbosity := .warn
  deriving DecidableEq

def Arguments.ofOptions (command : Command) (before after : Options) : Arguments :=
  { command, config := after.config.or before.config,
    network := (after.network.or before.network).getD .mainNet, magic := after.magic.or before.magic,
    verbosity := (after.verbosity.or before.verbosity).getD .warn }

/-- The words from the first one on. Of the options before the name of the command, the last is looked at only after
the command has been read. -/
def scan (s : Scan) : List String → Except UsageError Arguments
  | [] => do
    let s ← s.settle
    throw (if s.options = {} then .nothing else .missingSubcommand)
  | text :: rest => do
    match ← s.word ⟨OptionName.general, true⟩ text with
    | (s, none) => scan s rest
    | (s, some word) =>
      if s.literal then throw (if isCommandWord word then .unknownArgument else .invalidSubcommand)
      else if word = helpWord then throw (helpOn rest)
      else match CommandName.ofWord? word with
        | none => throw .invalidSubcommand
        | some c =>
          let (command, after) ← scanCommand c {} rest
          let s ← s.settle
          return .ofOptions command s.options after

def Arguments.parse (words : List String) : Except UsageError Arguments := scan {} words

/-- The settings that the arguments ask for, those of a file or the default ones, where `read` gives the text of a
file. The number of the network is replaced last. -/
def Arguments.settings (a : Arguments) (read : String → Option String) : Except SettingsError Settings := do
  let s ←
    match a.config with
    | none => pure (Settings.ofNetwork a.network)
    | some path =>
      match read path with
      | some text => Settings.load text
      | none => throw (.noFile path)
  let s := (a.magic.map s.withMagic).getD s
  if s.network = .privateNet ∧ s.explicitMagic = none then throw .privateWithoutOption
  return s

end N3.Cli
