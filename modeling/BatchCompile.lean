import BatchCompile.Hosts.Disk
import BatchCompile.Hosts.Memory
import BatchCompile.Main
import BatchCompile.Proofs.Closure.Agreement
import BatchCompile.Proofs.Closure.Consistent
import BatchCompile.Proofs.Closure.Depth
import BatchCompile.Proofs.Closure.Distinct
import BatchCompile.Proofs.Closure.Exact
import BatchCompile.Proofs.Closure.Folded
import BatchCompile.Proofs.Closure.Guarantees
import BatchCompile.Proofs.Closure.Order
import BatchCompile.Proofs.Comments
import BatchCompile.Proofs.Comments.Scan
import BatchCompile.Proofs.Encoding
import BatchCompile.Proofs.Hosts.Trees
import BatchCompile.Proofs.Json.Values
import BatchCompile.Proofs.Mapping.Decoded
import BatchCompile.Proofs.Mapping.Pushed
import BatchCompile.Proofs.Mapping.Relocated
import BatchCompile.Proofs.Path.Anchored
import BatchCompile.Proofs.Path.Endings
import BatchCompile.Proofs.Path.Normal
import BatchCompile.Proofs.Path.Onward
import BatchCompile.Proofs.Path.Parents
import BatchCompile.Proofs.Path.Relative
import BatchCompile.Proofs.Path.Spellings
import BatchCompile.Proofs.Placement.Acceptance
import BatchCompile.Proofs.Placement.Apart
import BatchCompile.Proofs.Placement.Bundles
import BatchCompile.Proofs.Placement.Layout
import BatchCompile.Proofs.Placement.Maps
import BatchCompile.Proofs.Placement.Names
import BatchCompile.Proofs.Run.Asking
import BatchCompile.Proofs.Run.Bundled
import BatchCompile.Proofs.Run.Collisions
import BatchCompile.Proofs.Run.Frame
import BatchCompile.Proofs.Run.Phases
import BatchCompile.Proofs.Run.Policy
import BatchCompile.Proofs.Run.Sources
import BatchCompile.Proofs.Run.Trace
import BatchCompile.Proofs.Run.Unclosed
import BatchCompile.Proofs.Caches
import BatchCompile.Proofs.Run.Acting
import BatchCompile.Proofs.Run.Reading
import BatchCompile.Proofs.Run.Groups
import BatchCompile.Proofs.Hosts.Outlines
import BatchCompile.Proofs.Run.Again
import BatchCompile.Proofs.Run.Rebuild
import BatchCompile.Proofs.Run.Styles
import BatchCompile.Proofs.Text.Cuts
import BatchCompile.Proofs.Placement.Trailers
import BatchCompile.Proofs.Placement.Directories
import BatchCompile.Proofs.Closure.Imports
import BatchCompile.Proofs.Closure.Headers
import BatchCompile.Proofs.CommandLine
import BatchCompile.Proofs.Path.Chains
import BatchCompile.Proofs.Filling
