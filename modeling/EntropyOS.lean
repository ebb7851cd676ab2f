import EntropyOS.Foundation.Sizes
import EntropyOS.Foundation.Bytes
import EntropyOS.Foundation.Crc
import EntropyOS.Foundation.Program
import EntropyOS.Foundation.Chain
import EntropyOS.Foundation.Clearing
import EntropyOS.Foundation.Congruential
import EntropyOS.Foundation.RingBuffer
import EntropyOS.Foundation.Copying
import EntropyOS.Foundation.Bitmap
import EntropyOS.Foundation.Blocks
import EntropyOS.Foundation.Ownership
import EntropyOS.Foundation.RotatingSum
import EntropyOS.Gpt.Layout
import EntropyOS.Fat32.Layout
import EntropyOS.System
import EntropyOS.Drivers.Block
import EntropyOS.Gpt.Crc32
import EntropyOS.Gpt.Operations
import EntropyOS.Gpt.Image
import EntropyOS.Gpt.Table
import EntropyOS.Gpt.Slots
import EntropyOS.Gpt.Reload
import EntropyOS.Gpt.Ranges
import EntropyOS.Gpt.Checks
import EntropyOS.Gpt.Bursts
import EntropyOS.Gpt.Guids
import EntropyOS.Gpt.Lifetime
import EntropyOS.Gpt.Failing
import EntropyOS.Gpt.Loading
import EntropyOS.Gpt.Bounds
import EntropyOS.Gpt.Foreign
import EntropyOS.Gpt.Sizes
import EntropyOS.Gpt.Names
import EntropyOS.Fat32.Operations
import EntropyOS.Fat32.Files
import EntropyOS.Fat32.Partition
import EntropyOS.Fat32.Volume
import EntropyOS.Fat32.Allocation
import EntropyOS.Fat32.Directory
import EntropyOS.Fat32.Tree
import EntropyOS.Fat32.Change
import EntropyOS.Fat32.Calls
import EntropyOS.Fat32.Effects
import EntropyOS.Fat32.Invariant
import EntropyOS.Fat32.Format
import EntropyOS.Fat32.Listing
import EntropyOS.Fat32.Naming
import EntropyOS.Fat32.Mounting
import EntropyOS.Fat32.Footprint
import EntropyOS.Fat32.Frames
import EntropyOS.Fat32.Walking
import EntropyOS.Fat32.Cells
import EntropyOS.Fat32.FirstFree
import EntropyOS.Fat32.Freeing
import EntropyOS.Fat32.Scans
import EntropyOS.Fat32.Ending
import EntropyOS.Fat32.Geometry
import EntropyOS.Fat32.Placing
import EntropyOS.Fat32.Hints
import EntropyOS.Fat32.Confinement
import EntropyOS.Fat32.Damaged
import EntropyOS.Fat32.Copies
import EntropyOS.Fat32.Rollback
import EntropyOS.Fat32.Session
import EntropyOS.Fat32.Accounting
import EntropyOS.Fat32.Leak
import EntropyOS.Fat32.Guarantees
import EntropyOS.Fat32.Reading
import EntropyOS.Fat32.RoundTrip
import EntropyOS.Fat32.Failure
import EntropyOS.Fat32.Faults
import EntropyOS.Fat32.Truthful
import EntropyOS.Fat32.Compare
import EntropyOS.Fat32.Equality
import EntropyOS.Fat32.Spares
import EntropyOS.Fat32.Attempts
import EntropyOS.Fat32.Removing
import EntropyOS.Fat32.Claiming
import EntropyOS.Fat32.Rounds
import EntropyOS.Fat32.Persisting
import EntropyOS.Boot.Partitioning
import EntropyOS.Boot.Bootloader
import EntropyOS.Scheduler.Operations
import EntropyOS.Scheduler.Invariant
import EntropyOS.Scheduler.Suspension
import EntropyOS.Scheduler.Fairness
import EntropyOS.Scheduler.Order
import EntropyOS.Scheduler.Interference
import EntropyOS.Exfat.Heap
import EntropyOS.Exfat.Io
import EntropyOS.Exfat.Sequential
import EntropyOS.Libexfat.Volume
import EntropyOS.Libexfat.Clusters
import EntropyOS.Libexfat.Io
import EntropyOS.Libexfat.View
import EntropyOS.Libexfat.Layout
import EntropyOS.Libexfat.Chains
import EntropyOS.Libexfat.Allocation
import EntropyOS.Libexfat.Frames
import EntropyOS.Libexfat.Shrinking
import EntropyOS.Libexfat.Growing
import EntropyOS.Libexfat.Contents
import EntropyOS.Libexfat.Files
import EntropyOS.Libexfat.Transfers
import EntropyOS.Libexfat.Store
import EntropyOS.Libexfat.Sessions
import EntropyOS.Libexfat.Guarantees
import EntropyOS.Libexfat.Checksums
import EntropyOS.Libexfat.BootRegion
import EntropyOS.Libexfat.BootChecks
import EntropyOS.Libexfat.Times
import EntropyOS.Libexfat.Flushing
import EntropyOS.Libexfat.Unmounting
import EntropyOS.Libexfat.Unicode
import EntropyOS.Libexfat.Entries
import EntropyOS.Libexfat.EntryChecks
import EntropyOS.Libexfat.NodeFlushing
import EntropyOS.Drivers.Ps2
import EntropyOS.Drivers.Touchpad
import EntropyOS.Drivers.Scancodes
import EntropyOS.Drivers.Pci
import EntropyOS.Drivers.Serial
import EntropyOS.Drivers.UsbHost
import EntropyOS.Drivers.UsbStatus
import EntropyOS.Drivers.MassStorage
import EntropyOS.Drivers.Ahci
import EntropyOS.Drivers.Completion
import EntropyOS.Drivers.Capacity
import EntropyOS.Gui.Drawing
import EntropyOS.Gui.FrameFlag
import EntropyOS.Gui.Clipping
import EntropyOS.Gui.Console
import EntropyOS.Kernel.Memory
