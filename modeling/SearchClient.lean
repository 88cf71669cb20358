/-
SearchClient.lean

A client of a faceted search engine: queries and their filters, searches and random samples, the
settings and documents of indexes, and the tasks by which the engine carries out writes.
-/
import SearchClient.Document.Access
import SearchClient.Engine.Status
import SearchClient.Index.Apply
import SearchClient.Json.Reader
import SearchClient.Proofs.Filter.ReadBack
import SearchClient.Proofs.Index.Converge
import SearchClient.Proofs.Search.Facets
import SearchClient.Query.Build
import SearchClient.Sample.SplitMix
import SearchClient.Search.Run
import SearchClient.Wire.Host
import SearchClient.Wire.Script
import SearchClient.Proofs.Query.Program
import SearchClient.Proofs.Index.Guard
import SearchClient.Proofs.Index.Sequence
import SearchClient.Proofs.Search.Batching
import SearchClient.Proofs.Task.Sound
import SearchClient.Proofs.Filter.Meaning
import SearchClient.Proofs.Search.Sample
import SearchClient.Proofs.Wire.Retry
import SearchClient.Proofs.Index.Copy
import SearchClient.Proofs.Search.Whole
import SearchClient.Proofs.Search.Pages
import SearchClient.Proofs.Task.Deadline
import SearchClient.Proofs.Filter.NodeCodec
import SearchClient.Proofs.Sample.Finish
import SearchClient.Proofs.Filter.Check
import SearchClient.Proofs.Search.Companions
import SearchClient.Proofs.Search.Widen
import SearchClient.Proofs.Attribute
import SearchClient.Proofs.Index.Listing
import SearchClient.Proofs.Filter.Polarity
import SearchClient.Proofs.Search.Several
import SearchClient.Proofs.Document.Browse
import SearchClient.Proofs.Task.Codec
import SearchClient.Proofs.Search.RoundTrip
import SearchClient.Proofs.Search.Course
import SearchClient.Proofs.Search.Paging
import SearchClient.Proofs.Search.Account
import SearchClient.Proofs.Sums
import SearchClient.Proofs.Wire.Host
import SearchClient.Proofs.Text.Quoted
import SearchClient.Proofs.Query.Wording
import SearchClient.Proofs.Task.Query
import SearchClient.Proofs.Search.Closing
import SearchClient.Proofs.Wire.Path
