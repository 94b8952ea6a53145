import N3.Bytes
import N3.Bytes.Fixed
import N3.Bytes.HashText
import N3.Cli.Arguments
import N3.Cli.Run
import N3.Cli.Value
import N3.Codec.Error
import N3.Codec.Reader
import N3.Codec.Writer
import N3.Curve.Arithmetic
import N3.Curve.Point
import N3.Curve.Signature
import N3.Draft
import N3.Draft.Build
import N3.Draft.Placeholder
import N3.Error
import N3.Hash
import N3.Hash.Ripemd160
import N3.Hash.Sha256
import N3.Json
import N3.Json.Double
import N3.Json.Lemmas
import N3.Json.Parser
import N3.Json.Record
import N3.Json.Text
import N3.Limits
import N3.Main
import N3.Parameter
import N3.Pending
import N3.Rpc.Envelope
import N3.Rpc.Error
import N3.Rpc.Execution
import N3.Rpc.Method
import N3.Rpc.Session
import N3.Rpc.StackItem
import N3.Script.Call
import N3.Script.Invocation
import N3.Script.Verification
import N3.Settings
import N3.Signer
import N3.Text.Base58
import N3.Text.Base64
import N3.Text.Blank
import N3.Text.CharLiteral
import N3.Text.Hex
import N3.Text.Integer
import N3.Toml
import N3.Toml.Parser
import N3.Transaction
import N3.Transaction.Attribute
import N3.Transaction.Json
import N3.Vm.CallFlags
import N3.Vm.Error
import N3.Vm.Instruction
import N3.Vm.OpCode
import N3.Vm.Push
import N3.Vm.Service
import N3.Wallet.Account
import N3.Wallet.Address
import N3.Wallet.Error
import N3.Wallet.KeyPair
import N3.Wallet.TransactionSigner
import N3.Witness
import N3.Witness.Condition
import N3.Witness.Rule
import N3.Witness.Scope
import N3.Proofs.Bytes
import N3.Proofs.Codec.Reads
import N3.Proofs.Codec.Ensures
import N3.Proofs.Codec.Takes
import N3.Proofs.Codec.Unambiguous
import N3.Proofs.Curve.Compressed
import N3.Proofs.Curve.Parity
import N3.Proofs.Draft
import N3.Proofs.Parameter
import N3.Proofs.Pending
import N3.Proofs.Transaction.SignData
import N3.Proofs.Vm.Constant
import N3.Proofs.Vm.Instruction
import N3.Proofs.Vm.Push
import N3.Proofs.Vm.Readers
import N3.Proofs.Text.Hex
import N3.Proofs.Text.Blank
import N3.Proofs.Witness.Depth
import N3.Proofs.Witness.Json
import N3.Proofs.Signer.Edits
import N3.Proofs.Signer.Json
import N3.Proofs.Curve.Order
import N3.Proofs.Script.Invocation
import N3.Proofs.Script.Verification
import N3.Proofs.Script.Template
import N3.Proofs.Script.Iterator
import N3.Proofs.Witness.Multisig
import N3.Proofs.Curve.Group
import N3.Proofs.Curve.Signature
import N3.Proofs.Rpc.Requests
import N3.Proofs.Draft.Sign
import N3.Proofs.Draft.Price
import N3.Proofs.Pending.Size
import N3.Proofs.Draft.Order
import N3.Proofs.Draft.Fees
import N3.Proofs.Draft.Committee
import N3.Proofs.Codec.Sequence
import N3.Proofs.Signer.Fields
import N3.Proofs.Witness.Assembly
import N3.Proofs.Transaction.Repeated
import N3.Proofs.Draft.Edits
import N3.Proofs.Bytes.Signed
import N3.Proofs.Pending.Record
import N3.Proofs.Settings
import N3.Proofs.Vm.Shortest
import N3.Proofs.Witness.Quorum
import N3.Proofs.Text.Base58
import N3.Proofs.Wallet.Text
import N3.Proofs.Cli.Network
import N3.Proofs.Cli.Verification
import N3.Proofs.Rpc.Overlap
import N3.Proofs.Draft.Priority
import N3.Proofs.Text.Base64
import N3.Proofs.Lists
import N3.Proofs.Text.Decimal
import N3.Proofs.Parameter.Json
import N3.Proofs.Codec.Cursor
import N3.Proofs.Codec.History
import N3.Proofs.Codec.Values
