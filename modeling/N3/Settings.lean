import N3.Json.Record
import N3.Toml.Parser

/-!
# Settings

Which network to speak to and how: its number, which goes into everything that is signed, the node, and what a
transaction gets that does not say otherwise. Settings come from a file of keys and values or from JSON, where each
of them may be left out, and are then checked.
-/

set_option autoImplicit false

namespace N3

/-! ## Networks -/

inductive Network where
  | mainNet | testNet | privateNet
  deriving DecidableEq, Repr

namespace Network

/-- The number of the network: four letters for a public one, none for a private one. -/
def magic : Network → UInt32
  | mainNet => 0x334F454E
  | testNet => 0x3254334E
  | privateNet => 0

def name : Network → String
  | mainNet => "mainnet"
  | testNet => "testnet"
  | privateNet => "private"

def settingName : Network → String
  | mainNet => "MainNet"
  | testNet => "TestNet"
  | privateNet => "Private"

def all : List Network := [mainNet, testNet, privateNet]

def settingNames : List (String × Network) := all.map fun n => (n.settingName, n)

end Network

/-! ## Errors -/

inductive SettingsError where
  | unknownNetwork (name : String)
  | zeroIncrement
  | privateWithoutMagic
  | badFeeToken (text : String)
  | zeroTimeout
  /-- On the command line a private network has to come with its number. -/
  | privateWithoutOption
  /-- There is no such file. -/
  | noFile (path : String)
  /-- The file is not a table of settings. -/
  | unreadable
  deriving DecidableEq, Repr

def SettingsError.message : SettingsError → String
  | .unknownNetwork name => "invalid configuration: unknown network '" ++ name ++ "'"
  | .zeroIncrement => "invalid configuration: max_valid_until_block_increment must be greater than zero"
  | .privateWithoutMagic => "invalid configuration: a private network requires an explicit network_magic"
  | .badFeeToken text => "invalid configuration: fee_token_hash '" ++ text ++ "' is not a 20-byte hex script hash"
  | .zeroTimeout => "invalid configuration: request_timeout_ms must be greater than zero"
  | .privateWithoutOption => "invalid configuration: a private network requires --network-magic"
  | .noFile path => "failed to read configuration file: " ++ path
  | .unreadable => "failed to parse configuration"

/-- Reads a name of a network in letters of either case. -/
def Network.parse (text : String) : Except SettingsError Network :=
  let lower := String.ofList (text.toList.map Char.toLower)
  if lower = "mainnet" ∨ lower = "main" then .ok .mainNet
  else if lower = "testnet" ∨ lower = "test" then .ok .testNet
  else if lower = "private" ∨ lower = "privnet" then .ok .privateNet
  else .error (.unknownNetwork lower)

/-! ## Settings -/

structure Settings where
  network : Network := .testNet
  /-- The number of the network, in place of the one that goes with it. -/
  explicitMagic : Option UInt32 := none
  /-- How many blocks a transaction counts that does not say until which. -/
  validityIncrement : UInt32 := 5760
  /-- Whether a transaction whose script fails in a simulation may still be built. -/
  allowFault : Bool := false
  /-- The hash of the token that fees are paid in. -/
  feeToken : String := "0xd2a4cba551fd2c1bd2d4bc26e5ad1d6d1f1a0b04"
  nodeUrl : String := "http://localhost:20332"
  timeoutMs : UInt64 := 30000
  deriving DecidableEq

namespace Settings

def ofNetwork (network : Network) : Settings := { network }

/-- The number that goes into everything that is signed. -/
def magic (s : Settings) : UInt32 := s.explicitMagic.getD s.network.magic

def withMagic (s : Settings) (magic : UInt32) : Settings := { s with explicitMagic := some magic }

def withAllowFault (s : Settings) (allow : Bool) : Settings := { s with allowFault := allow }

def withValidityIncrement (s : Settings) (increment : UInt32) : Settings := { s with validityIncrement := increment }

def withNodeUrl (s : Settings) (url : String) : Settings := { s with nodeUrl := url }

def isHexDigit (c : Char) : Bool := (Json.hexValue? c).isSome

/-- Whether a text has forty digits after any number of `0x`. -/
def isTokenHash (text : String) : Bool :=
  let digits := Hex.dropMarks text.toList
  digits.length == 40 && digits.all isHexDigit

/-- Checks the settings; the first fault in this order decides. -/
def validate (s : Settings) : Except SettingsError Unit :=
  if s.validityIncrement = 0 then .error .zeroIncrement
  else if s.network = .privateNet ∧ s.explicitMagic = none then .error .privateWithoutMagic
  else if !isTokenHash s.feeToken then .error (.badFeeToken s.feeToken)
  else if s.timeoutMs = 0 then .error .zeroTimeout
  else .ok ()

/-! ## JSON and files -/

def keys : List String :=
  ["network", "network_magic", "max_valid_until_block_increment", "allow_transmission_on_fault", "fee_token_hash",
   "rpc_url", "request_timeout_ms"]

def toJson (s : Settings) : Json :=
  .obj [("network", .str s.network.settingName),
    ("network_magic", (s.explicitMagic.map fun m => Json.nat m.toNat).getD .null),
    ("max_valid_until_block_increment", .nat s.validityIncrement.toNat),
    ("allow_transmission_on_fault", .bool s.allowFault), ("fee_token_hash", .str s.feeToken),
    ("rpc_url", .str s.nodeUrl), ("request_timeout_ms", .nat s.timeoutMs.toNat)]

/-- Reads settings, of which each has a default. -/
def ofJson : Json.Read Settings :=
  let d : Settings := {}
  Json.readRecord keys fun fs =>
    Settings.mk
      <$> fs.get "network" (Json.readName Network.settingNames) d.network
      <*> fs.option "network_magic" Json.readUInt32
      <*> fs.get "max_valid_until_block_increment" Json.readUInt32 d.validityIncrement
      <*> fs.get "allow_transmission_on_fault" Json.readBool d.allowFault
      <*> fs.get "fee_token_hash" Json.readText d.feeToken
      <*> fs.get "rpc_url" Json.readText d.nodeUrl
      <*> fs.get "request_timeout_ms" Json.readUInt64 d.timeoutMs

/-- Reads settings from the text of a file, unchecked. -/
def ofText (text : String) : Except SettingsError Settings := do
  let some document := Toml.parse? text | throw .unreadable
  (ofJson document.toJson).mapError fun _ => .unreadable

/-- Reads settings from the text of a file, and checks them. -/
def load (text : String) : Except SettingsError Settings := do
  let s ← ofText text
  s.validate
  return s

end Settings

end N3
