import AccessControl.Administration.Roles
import AccessControl.Administration.Users
import AccessControl.Authorization.Decision
import AccessControl.Authorization.Resolution
import AccessControl.Cached.Access
import AccessControl.Cached.Item
import AccessControl.Cached.Key
import AccessControl.Config.CacheUrl
import AccessControl.Config.Load
import AccessControl.Config.Setup
import AccessControl.Data.Binary64
import AccessControl.Data.SortedSet
import AccessControl.Data.Table
import AccessControl.Database.Roles
import AccessControl.Database.Statement
import AccessControl.Database.Store
import AccessControl.Database.Transaction
import AccessControl.Database.Users
import AccessControl.Digest.Hmac
import AccessControl.Digest.Sha256
import AccessControl.Failure
import AccessControl.Http.Endpoint
import AccessControl.Http.Media
import AccessControl.Http.Message
import AccessControl.Http.Payload
import AccessControl.Http.Route
import AccessControl.Http.Server
import AccessControl.Identity
import AccessControl.Instant
import AccessControl.Json.Basic
import AccessControl.Json.Reading
import AccessControl.Json.Record
import AccessControl.Jwt.Header
import AccessControl.Jwt.Method
import AccessControl.Jwt.PublicKey
import AccessControl.Jwt.Signer
import AccessControl.Net.Ip
import AccessControl.Net.Url
import AccessControl.NonBlank
import AccessControl.Permission.Catalog
import AccessControl.Permission.Definition
import AccessControl.Permission.Effective
import AccessControl.Permission.Grant
import AccessControl.Permission.Standard
import AccessControl.Program.Backend
import AccessControl.Program.Basic
import AccessControl.Program.Deployment
import AccessControl.Proofs.Administration.Coherence
import AccessControl.Proofs.Administration.Deleting
import AccessControl.Proofs.Administration.Exchanges
import AccessControl.Proofs.Administration.Failing
import AccessControl.Proofs.Administration.History
import AccessControl.Proofs.Administration.LastChange
import AccessControl.Proofs.Administration.Order
import AccessControl.Proofs.Administration.Overriding
import AccessControl.Proofs.Administration.Rename
import AccessControl.Proofs.Administration.Renaming
import AccessControl.Proofs.Administration.Requested
import AccessControl.Proofs.Administration.Rows
import AccessControl.Proofs.Administration.WellFormed
import AccessControl.Proofs.Authorization.Coherence
import AccessControl.Proofs.Authorization.Exchanges
import AccessControl.Proofs.Authorization.Meaning
import AccessControl.Proofs.Authorization.Order
import AccessControl.Proofs.Authorization.Requests
import AccessControl.Proofs.Authorization.Stored
import AccessControl.Proofs.Authorization.Told
import AccessControl.Proofs.Cached.Leads
import AccessControl.Proofs.Cached.Maps
import AccessControl.Proofs.Cached.Refinement
import AccessControl.Proofs.Concurrency.Refill
import AccessControl.Proofs.Concurrency.RefreshAndRotate
import AccessControl.Proofs.Concurrency.RenameAndResolve
import AccessControl.Proofs.Concurrency.RenameAndSet
import AccessControl.Proofs.Concurrency.RevokeAndValidate
import AccessControl.Proofs.Concurrency.RotateAndValidate
import AccessControl.Proofs.Concurrency.Straddling
import AccessControl.Proofs.Config.Lifetime
import AccessControl.Proofs.Config.Loading
import AccessControl.Proofs.Database.Atomicity
import AccessControl.Proofs.Database.Ownership
import AccessControl.Proofs.Database.Plan
import AccessControl.Proofs.Database.Wording
import AccessControl.Proofs.Http.Bearer
import AccessControl.Proofs.Http.Confined
import AccessControl.Proofs.Http.Serving
import AccessControl.Proofs.Http.Surface
import AccessControl.Proofs.Http.ToldAlike
import AccessControl.Proofs.Http.Wording
import AccessControl.Proofs.Json.Canonical
import AccessControl.Proofs.Json.Faithful
import AccessControl.Proofs.Json.Grammar
import AccessControl.Proofs.Json.Records
import AccessControl.Proofs.Json.Scan
import AccessControl.Proofs.Json.Spelling
import AccessControl.Proofs.Json.Tokens
import AccessControl.Proofs.Json.Writing
import AccessControl.Proofs.Jwt.Claims
import AccessControl.Proofs.Jwt.Genuine
import AccessControl.Proofs.Jwt.Header
import AccessControl.Proofs.Jwt.Objections
import AccessControl.Proofs.Jwt.Signer
import AccessControl.Proofs.Program.Crowd
import AccessControl.Proofs.Program.InStep
import AccessControl.Proofs.Program.Interleaving
import AccessControl.Proofs.Program.Learning
import AccessControl.Proofs.Program.Service
import AccessControl.Proofs.Program.Transcript
import AccessControl.Proofs.Services.Authorized
import AccessControl.Proofs.Services.Bystanders
import AccessControl.Proofs.Services.Discreet
import AccessControl.Proofs.Services.Gate
import AccessControl.Proofs.Services.InOrder
import AccessControl.Proofs.Services.Reached
import AccessControl.Proofs.Session.Coherence
import AccessControl.Proofs.Session.Dead
import AccessControl.Proofs.Session.Exchange
import AccessControl.Proofs.Session.Expiry
import AccessControl.Proofs.Session.Faultless
import AccessControl.Proofs.Session.Fresh
import AccessControl.Proofs.Session.Gone
import AccessControl.Proofs.Session.History
import AccessControl.Proofs.Session.Issued
import AccessControl.Proofs.Session.Lineage
import AccessControl.Proofs.Session.Order
import AccessControl.Proofs.Session.Requests
import AccessControl.Proofs.Session.Revoking
import AccessControl.Proofs.Session.Rotation
import AccessControl.Proofs.Session.Siblings
import AccessControl.Proofs.Session.SignOut
import AccessControl.Proofs.Session.Signings
import AccessControl.Proofs.Session.Standing
import AccessControl.Proofs.Session.Told
import AccessControl.Proofs.Session.Transparency
import AccessControl.Proofs.Store.Cache
import AccessControl.Proofs.Store.Data
import AccessControl.Proofs.Store.Sound
import AccessControl.Proofs.Store.WellFormed
import AccessControl.Proofs.Store.Writes
import AccessControl.Proofs.Text.Blank
import AccessControl.Proofs.Text.CacheKey
import AccessControl.Proofs.Text.Decimal
import AccessControl.Proofs.Text.Numeral
import AccessControl.Proofs.Text.Octets
import AccessControl.Proofs.Text.Uuid
import AccessControl.Proofs.World.Alike
import AccessControl.Proofs.World.Answers
import AccessControl.Proofs.World.Aspect
import AccessControl.Proofs.World.Bystander
import AccessControl.Proofs.World.Coherence
import AccessControl.Proofs.World.Exact
import AccessControl.Proofs.World.Failing
import AccessControl.Proofs.World.Faultless
import AccessControl.Proofs.World.Fills
import AccessControl.Proofs.World.Operations
import AccessControl.Proofs.World.Reading
import AccessControl.Proofs.World.Schedule
import AccessControl.Proofs.World.Unreliable
import AccessControl.Proofs.World.Unsettling
import AccessControl.Proofs.World.Untrusted
import AccessControl.Proofs.World.Writes
import AccessControl.RemoteCache
import AccessControl.Role
import AccessControl.Session.Issue
import AccessControl.Session.Revoke
import AccessControl.Session.Validate
import AccessControl.Store.Basic
import AccessControl.Store.Cache
import AccessControl.Text.Base64Url
import AccessControl.Text.Blank
import AccessControl.Text.Decimal
import AccessControl.Text.Hex
import AccessControl.Text.Percent
import AccessControl.Text.Pieces
import AccessControl.Text.Utf8
import AccessControl.Token.Claims
import AccessControl.Token.Issued
import AccessControl.Token.Kind
import AccessControl.Trial.Fault
import AccessControl.Trial.Run
import AccessControl.Uuid
import AccessControl.World
import AccessControl.Proofs.Text.Faults
import AccessControl.Proofs.Store.Sweeping
