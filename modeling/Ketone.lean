import Ketone.MemManager.Allocator
import Ketone.Library.Gap
import Ketone.MemManager.BlockRuns
import Ketone.MemManager.AllocBounds
import Ketone.Acpi.Mcfg
import Ketone.MemManager.BumpAllocator
import Ketone.MemManager.E820
import Ketone.MemManager.MmioHole
import Ketone.MemManager.Manager
import Ketone.MemManager.Layout
import Ketone.MemManager.HoleCoverage
import Ketone.MemManager.Separation
import Ketone.Library.MaskedRegisters
import Ketone.Pcie.Config
import Ketone.Pcie.Probe
import Ketone.Library.Packing
import Ketone.Pcie.Remap
import Ketone.Pcie.Assign
import Ketone.Pcie.BarRanges
import Ketone.Pcie.Acceptance
import Ketone.Pcie.Frame
import Ketone.Pcie.EcamWindows
import Ketone.Library.Components
import Ketone.Exfat.OpenFile
import Ketone.Exfat.Lookup
import Ketone.Exfat.PathResolution
import Ketone.Exfat.ReadFile
import Ketone.Exfat.FileClusters
import Ketone.Exfat.TwoReaders
import Ketone.Exfat.SteadyVolume
import Ketone.Exfat.WholeFile
import Ketone.Exfat.SameClusters
import Ketone.Exfat.Descent
import Ketone.Exfat.LookupEnds
import Ketone.Exfat.StoredName
import Ketone.Exfat.DirectoryStream
import Ketone.Exfat.Asked
import Ketone.Exfat.ReadErrors
import Ketone.Exfat.PartitionBounds
import Ketone.Exfat.OwedBlocks
import Ketone.Exfat.NoLeaks
import Ketone.Disk.SectorNumber
import Ketone.MemManager.FirstFit
import Ketone.MemManager.Reservation
import Ketone.Library.Ram
import Ketone.Utils
import Ketone.MemManager.LiveAreas
import Ketone.Disk.SataSetUp
import Ketone.Disk.SataSteps
import Ketone.Disk.SharedBuffers
import Ketone.Acpi.Rsdp
import Ketone.Boot.Stages
import Ketone.Disk.DmaAddresses
import Ketone.Boot.HandOff
import Ketone.MemManager.GivenMemory
import Ketone.Exfat.FileStores
import Ketone.Library.InsertionSort
import Ketone.MemManager.RangeTable
import Ketone.MemManager.BumpRuns
import Ketone.MemManager.RegionSearch
import Ketone.Pcie.OfferedAddresses
import Ketone.MemManager.SearchAgreement
import Ketone.MemManager.HeapsFit
import Ketone.Library.AddressBits
import Ketone.Pcie.BarLayout
import Ketone.Pcie.RemapExact
import Ketone.Library.Growable
import Ketone.ComponentBus.Lookup
import Ketone.Acpi.GetTable
import Ketone.Boot.Paging
import Ketone.Disk.ModelString
import Ketone.MemManager.SearchesEnd
import Ketone.Exfat.PathStores
import Ketone.Exfat.ReportedLength
import Ketone.Exfat.SectorBuffers
import Ketone.Kernel.Main
import Ketone.MemManager.WholeRuns
import Ketone.Disk.AtaRuns
import Ketone.Disk.SataTransfers
