import GigMcp.Effect.Pool
import GigMcp.System.World
import GigMcp.Gateway.Resolver
import GigMcp.Auth.Session
import GigMcp.Api.Routes
import GigMcp.Store.Frame
import GigMcp.System.Local
import GigMcp.Gateway.Isolation
import GigMcp.Api.Serve
import GigMcp.Proxy.Handle
import GigMcp.Gateway.Cap
import GigMcp.Registry.Consent
import GigMcp.Proxy.Tunnel
import GigMcp.Api.Frame
import GigMcp.Auth.Middleware
import GigMcp.Api.ViewAs
import GigMcp.Api.Impersonation
import GigMcp.Gateway.Threads
import GigMcp.Gateway.Custody
import GigMcp.Gateway.Teardown
import GigMcp.Api.Revocation
import GigMcp.Gateway.Spawn
import GigMcp.Gateway.SourceIP
import GigMcp.Effect.Flight
import GigMcp.Auth.Refresh
import GigMcp.Auth.Sole
import GigMcp.Auth.Rotation
import GigMcp.Api.Reconnect
import GigMcp.Registry.Journal
import GigMcp.Registry.Overlap
import GigMcp.Data.Files
import GigMcp.Oci.Extract
import GigMcp.Registry.Site
import GigMcp.Registry.Failure
import GigMcp.Registry.Provenance
import GigMcp.Oci.Contract
import GigMcp.Data.Bytes
import GigMcp.Registry.Remnants
import GigMcp.Vault.Envelope
import GigMcp.Vault.Bounds
import GigMcp.Gateway.Routing
import GigMcp.Netmgr.Allocation
import GigMcp.Proxy.Grammar
import GigMcp.Proxy.Pairing
import GigMcp.Effect.Panic
import GigMcp.Gateway.Wedge
import GigMcp.Proxy.Secret
import GigMcp.Gateway.FailClosed
import GigMcp.Effect.Channel
import GigMcp.Gateway.Audit
import GigMcp.Gateway.Tally
import GigMcp.Proxy.Limiter
import GigMcp.Api.Paging
import GigMcp.Api.Announce
import GigMcp.Api.ClientSecret
import GigMcp.Api.Retry
import GigMcp.Sandbox.Bwrap
import GigMcp.Sandbox.Command
import GigMcp.Registry.Placeholders
import GigMcp.Effect.Account
import GigMcp.Gateway.Release
import GigMcp.Auth.Flow
import GigMcp.Api.Connect
import GigMcp.Store.Overview
import GigMcp.Data.Address
import GigMcp.Data.Url
import GigMcp.Netguard.Guard
import GigMcp.Api.UrlValidate
import GigMcp.Api.Columns
import GigMcp.Data.View
import GigMcp.Store.Integrity
import GigMcp.Api.Actions
import GigMcp.Api.Tenancy
import GigMcp.Effect.Relate
import GigMcp.Store.Indistinct
import GigMcp.Api.Privacy
import GigMcp.Sandbox.Linux
import GigMcp.Sandbox.Bootstrap
import GigMcp.Effect.Duet
import GigMcp.Gateway.Handshake
import GigMcp.Api.Catalog
