import NetReach.Case
import NetReach.Config.Read
import NetReach.Config.Write
import NetReach.Example
import NetReach.Main
import NetReach.Network.Link
import NetReach.PathGraph.Contraction
import NetReach.PathGraph.Listing
import NetReach.Proofs.Linked
import NetReach.Proofs.Stability
import NetReach.Proofs.Closure
import NetReach.Proofs.TaintWalk
import NetReach.Proofs.Traversal
import NetReach.Proofs.Layer2
import NetReach.Proofs.Search
import NetReach.Proofs.Wires
import NetReach.Proofs.Physical
import NetReach.Proofs.Forwarding
import NetReach.Proofs.FineWays
import NetReach.Proofs.Agreement
import NetReach.Proofs.Existence
import NetReach.Proofs.Edges
import NetReach.Proofs.Trip
import NetReach.Proofs.Genuine
import NetReach.Proofs.LeastPath
import NetReach.Proofs.Interior
import NetReach.Proofs.InteriorNetwork
import NetReach.Proofs.Part
import NetReach.Proofs.TaintPart
import NetReach.Proofs.GraphPart
import NetReach.Proofs.Renaming
import NetReach.Proofs.Containment
import NetReach.Proofs.Reduction
import NetReach.Proofs.Reordering
import NetReach.Proofs.Run
import NetReach.Proofs.NextHops
import NetReach.Proofs.Removal
import NetReach.Proofs.Coarsening
import NetReach.Proofs.Contraction
import NetReach.Proofs.Readvertising
import NetReach.Proofs.Adjacency
import NetReach.Proofs.References
import NetReach.Proofs.Faults
import NetReach.Proofs.Listing
import NetReach.Proofs.InsertionOrder
import NetReach.Proofs.RoundTrip
import NetReach.Proofs.FirstPath
import NetReach.Proofs.Tunnel
import NetReach.Proofs.Segment
import NetReach.Proofs.Sessions
import NetReach.Proofs.ForcedEdges
import NetReach.Proofs.CaseQuery
import NetReach.Proofs.LocalDelivery
import NetReach.Proofs.Stranding
