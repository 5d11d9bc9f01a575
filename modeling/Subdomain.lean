import Subdomain.Halo.Pass
import Subdomain.Mesh.NeighborTable
import Subdomain.Mesh.VertexMesh
import Subdomain.Proofs.Context.Isolation
import Subdomain.Proofs.Halo.CellEntities
import Subdomain.Proofs.Halo.Contributions
import Subdomain.Proofs.Halo.DoubleOwnership
import Subdomain.Proofs.Halo.LocalRows
import Subdomain.Proofs.Halo.OffsetRequests
import Subdomain.Proofs.Halo.OwnerRequests
import Subdomain.Proofs.Halo.Redistribution
import Subdomain.Proofs.Halo.Sharing
import Subdomain.Proofs.Halo.Validation
import Subdomain.Proofs.Mesh.CompressedRows
import Subdomain.Proofs.Mesh.Grid
import Subdomain.Proofs.Message.Leftovers
import Subdomain.Proofs.Sparse.Growth
import Subdomain.Proofs.Sparse.Resumption
import Subdomain.Proofs.Sparse.RowUnion
import Subdomain.Proofs.Sparse.SlotCapacity
import Subdomain.Proofs.Sparse.SlotCount
import Subdomain.Proofs.Sparse.SlotTable
import Subdomain.Proofs.Sparse.Soundness
import Subdomain.Sparse.BlockTable
