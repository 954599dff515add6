import RpcMethod.Bytes
import RpcMethod.Archive.Schema
import RpcMethod.Archive.Writer
import RpcMethod.Archive.Reader
import RpcMethod.Outline
import RpcMethod.Error
import RpcMethod.Event
import RpcMethod.Message
import RpcMethod.Marshaller
import RpcMethod.MethodName
import RpcMethod.Transport
import RpcMethod.RawNames
import RpcMethod.NameEncoder
import RpcMethod.Descriptor
import RpcMethod.SpanRegistry
import RpcMethod.Draft
import RpcMethod.Proofs.Bytes
import RpcMethod.Proofs.Archive.Placement
import RpcMethod.Proofs.Archive.Shifting
import RpcMethod.Proofs.Archive.RoundTrip
import RpcMethod.Proofs.Marshaller.Delivery
import RpcMethod.Proofs.Marshaller.LeadingBytes
import RpcMethod.Proofs.Archive.Grammar
import RpcMethod.Proofs.Marshaller.Acceptance
import RpcMethod.Proofs.Archive.Shortest
import RpcMethod.Proofs.Marshaller.Forwarding
import RpcMethod.Proofs.Marshaller.Lengths
import RpcMethod.Proofs.Marshaller.Truncation
import RpcMethod.Proofs.RawNames.Uses
import RpcMethod.Proofs.RawNames.EncodingOnce
import RpcMethod.Proofs.Draft.Fields
import RpcMethod.Proofs.Draft.Outcome
import RpcMethod.Proofs.Draft.Announcing
import RpcMethod.Proofs.Workshop.Copies
import RpcMethod.Proofs.Workshop.Recomputing
import RpcMethod.Proofs.SpanRegistry.Requests
import RpcMethod.Proofs.SpanRegistry.Admission
import RpcMethod.Proofs.SpanRegistry.Retention
import RpcMethod.Proofs.SpanRegistry.Capacities
import RpcMethod.Proofs.MethodNames
import RpcMethod.Proofs.SpanNames
import RpcMethod.Proofs.SpanRegistry.Sides
import RpcMethod.Proofs.Workshop.Sampling
import RpcMethod.Proofs.Workshop.Finding
import RpcMethod.Proofs.SpanRegistry.Reordering
import RpcMethod.Proofs.RawNames.Writes
import RpcMethod.Proofs.Workshop.Chains
import RpcMethod.Proofs.Workshop.Identity
