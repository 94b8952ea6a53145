import N3.Cli.Arguments
import N3.Cli.Value
import N3.Json.Text
import N3.Script.Call
import N3.Transaction.Json

/-!
# What the commands answer

Each command turns its words into a text for standard output, of whole lines. `run` needs nothing from outside but
the text of the settings file.
-/

set_option autoImplicit false

namespace N3.Cli

inductive CommandError where
  | value (cause : ValueError)
  | key (cause : KeyError)
  | script (cause : ScriptError)
  | model (cause : Error)
  | transaction (cause : DecodeError)
  /-- Several keys make a script only together with a threshold. -/
  | severalKeys
  | settings (cause : SettingsError)
  deriving DecidableEq

def CommandError.message : CommandError → String
  | .value cause => cause.message
  | .key cause => cause.message
  | .script cause => cause.message
  | .model cause => cause.message
  | .transaction cause => "failed to decode transaction: " ++ cause.message
  | .severalKeys => "several keys need a --threshold"
  | .settings cause => cause.message

def lines (ls : List String) : String := String.join (ls.map (· ++ "\n"))

def bytesOf (text : String) : Except CommandError Bytes := (readBytes text).mapError .value

/-! ## Scripts -/

/-- A number with at least four digits. -/
def padded (n : Nat) : String :=
  let ds := toString n
  String.ofList (List.replicate (4 - ds.length) '0') ++ ds

def disasm (script : Bytes) : Except CommandError String := do
  let is ← (Instruction.disassemble script).mapError .script
  return lines (is.map fun (offset, i) => padded offset ++ " " ++ i.text)

def identity (v : VerificationScript) : List String :=
  ["script hash: " ++ v.hash.toText, "address: " ++ Address.ofHash v.hash]

/-- Which template a script is of, and what it says. -/
def description (v : VerificationScript) : Except Error (List String) :=
  let keyLine (k : Point) := "key: " ++ k.toHex
  if v.isSingleSig then do
    return "type: single-sig" :: (← v.keys).map keyLine
  else if v.isMultiSig then do
    let threshold ← v.threshold
    let participants ← v.accounts
    let keys ← v.keys
    return ["type: multi-sig", "threshold: " ++ toString threshold, "participants: " ++ toString participants] ++
      keys.map keyLine
  else return ["type: other"]

def classify (script : Bytes) : Except CommandError String := do
  let v : VerificationScript := ⟨script⟩
  return lines ((← (description v).mapError .model) ++ identity v)

/-- The script of the keys: of the second template if there is a threshold, and of the first if there is one key. -/
def verificationScript (keys : List Point) (threshold : Option Nat) : Except CommandError VerificationScript :=
  match threshold, keys with
  | some threshold, keys => (VerificationScript.ofKeys keys threshold).mapError .model
  | none, [key] => .ok (.ofKey key)
  | none, _ => .error .severalKeys

def verification (keys : List String) (threshold : Option Nat) : Except CommandError String := do
  let keys ← keys.mapM fun key => (Point.ofHex key).mapError .key
  let v ← verificationScript keys threshold
  return lines (("script: " ++ Hex.encode v.bytes) :: identity v)

/-- The script that calls a method, and drains the iterator that it answers with if a limit is given. -/
def call (contract method : String) (parameters : List String) (unwrapIterator : Option UInt32) :
    Except CommandError String := do
  let contract ← (FixedBytes.parse 20 contract).mapError fun e => .model (.ofHash e)
  let parameters ← parameters.mapM fun p => (readParameter p).mapError .value
  let arguments := parameters.map Parameter.push
  let emission := match unwrapIterator with
    | some max => Script.unwrapIterator contract method arguments max .all
    | none => Script.contractCall contract method arguments .all
  return lines [Hex.encode (← emission.toExcept.mapError .script)]

/-! ## Transactions -/

def readTransaction (bs : Bytes) : Except CommandError Transaction := (Transaction.ofBytes bs).mapError .transaction

def decodeTransaction (bs : Bytes) : Except CommandError String := do
  return lines [(← readTransaction bs).toJson.pretty]

def signData (bs : Bytes) (magic : UInt32) : Except CommandError String := do
  let t ← readTransaction bs
  return lines ["hash: " ++ t.hash.toText, "magic: " ++ toString magic.toNat,
    "sign data: " ++ Hex.encode (t.signData magic)]

/-! ## All of them -/

/-- The output of a command. Only `signData` looks at the settings, before it looks at the transaction. -/
def run (a : Arguments) (read : String → Option String) : Except CommandError String :=
  match a.command with
  | .disasm script => do disasm (← bytesOf script)
  | .classify script => do classify (← bytesOf script)
  | .verification keys threshold => verification keys threshold
  | .call contract method parameters unwrapIterator => call contract method parameters unwrapIterator
  | .decodeTransaction transaction => do decodeTransaction (← bytesOf transaction)
  | .signData transaction => do
    let settings ← (a.settings read).mapError .settings
    signData (← bytesOf transaction) settings.magic

end N3.Cli
