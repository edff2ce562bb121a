import VaultAgent.Main
import VaultAgent.Proofs.Json.Text
import VaultAgent.Proofs.Json.Number
import VaultAgent.Proofs.Json.Grammar
import VaultAgent.Proofs.Json.Printer
import VaultAgent.Proofs.NameMap
import VaultAgent.Proofs.Path
import VaultAgent.Proofs.Base64
import VaultAgent.Proofs.Base64.Stream
import VaultAgent.Proofs.Store.Document
import VaultAgent.Proofs.Action
import VaultAgent.Proofs.Disk.Lookup
import VaultAgent.Proofs.Disk.File
import VaultAgent.Proofs.Disk.Directory
import VaultAgent.Proofs.Store.File
import VaultAgent.Proofs.Keyring
import VaultAgent.Proofs.Keyring.Timetable
import VaultAgent.Proofs.Keyring.Expiry
import VaultAgent.Proofs.Keyring.Matching
import VaultAgent.Proofs.Signer
import VaultAgent.Proofs.Ssh.Reading
import VaultAgent.Proofs.Ssh.RoundTrip
import VaultAgent.Proofs.Ssh.KeyLine
import VaultAgent.Proofs.Export
import VaultAgent.Proofs.Protocol.Requests
import VaultAgent.Proofs.Protocol.Responses
import VaultAgent.Proofs.Protocol.Framing
import VaultAgent.Proofs.Protocol.Session
import VaultAgent.Proofs.Protocol.Signing
import VaultAgent.Proofs.Agent.Client
import VaultAgent.Proofs.Store
import VaultAgent.Proofs.Store.Lineage
import VaultAgent.Proofs.Store.Resolve
import VaultAgent.Proofs.Store.Acceptance
import VaultAgent.Proofs.Store.Cascade
import VaultAgent.Proofs.Store.Failure
import VaultAgent.Proofs.Store.Reopening
import VaultAgent.Proofs.Store.RoundTrip
import VaultAgent.Proofs.Agent.Agreement
import VaultAgent.Proofs.Agent.Revocation
import VaultAgent.Proofs.Store.Ready
import VaultAgent.Proofs.Agent.Startup
import VaultAgent.Proofs.Store.Forest
import VaultAgent.Proofs.Agent.Freshness
import VaultAgent.Proofs.Vault.Requests
import VaultAgent.Proofs.Agent.Imported
import VaultAgent.Proofs.Disk.Socket
import VaultAgent.Proofs.Agent.Binding
import VaultAgent.Proofs.Agent.Steps
import VaultAgent.Proofs.Agent.Host
import VaultAgent.Proofs.Agent.Sharing
import VaultAgent.Proofs.Text.Order
import VaultAgent.Proofs.Store.Resolution
import VaultAgent.Proofs.Store.Survivors
import VaultAgent.Proofs.Keyring.Filling
import VaultAgent.Proofs.Agent.Loading
import VaultAgent.Proofs.Agent.Eviction
import VaultAgent.Proofs.Store.OwnerOnly
import VaultAgent.Proofs.Export.Curve
import VaultAgent.Proofs.Vault.Answers
import VaultAgent.Proofs.Export.Record
import VaultAgent.Proofs.Export.RoundTrip
import VaultAgent.Proofs.Daemon.Listing
