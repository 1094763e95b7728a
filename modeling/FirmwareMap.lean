import FirmwareMap.AddressMap.Validate
import FirmwareMap.Layout.Script
import FirmwareMap.Tables.Build
import FirmwareMap.Tables.ImageWalk
import FirmwareMap.Proofs.Address.Disjoint
import FirmwareMap.Proofs.Mapping.Contiguous
import FirmwareMap.Proofs.Paging.Entries
import FirmwareMap.Proofs.Paging.Levels
import FirmwareMap.Proofs.AddressMap.Acceptance
import FirmwareMap.Proofs.AddressMap.Pages
import FirmwareMap.Proofs.Tables.Fidelity
import FirmwareMap.Proofs.Tables.Translation
import FirmwareMap.Proofs.Tables.Tree
import FirmwareMap.Proofs.Tables.Growth
import FirmwareMap.Proofs.Tables.Safety
import FirmwareMap.Proofs.Layout.Image
import FirmwareMap.Proofs.Tables.Image
import FirmwareMap.Proofs.Layout.Holes
import FirmwareMap.Proofs.Layout.Inputs
import FirmwareMap.Proofs.Layout.Naming
import FirmwareMap.Proofs.Tables.Storage
import FirmwareMap.Proofs.Tables.Selection
import FirmwareMap.Proofs.Record.Respelling
