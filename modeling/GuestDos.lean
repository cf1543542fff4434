import GuestDos.Machine.Difference
import GuestDos.Host.Tree
import GuestDos.Main
import GuestDos.Proofs.Naming.AliasSearch
import GuestDos.Proofs.Naming.Calls
import GuestDos.Proofs.Listing.Reading
import GuestDos.Proofs.Naming.Reserving
import GuestDos.Proofs.Listing.Keepers
import GuestDos.Proofs.Kernel.Plan
import GuestDos.Proofs.Kernel.Journal
import GuestDos.Proofs.Kernel.Performing
import GuestDos.Proofs.Kernel.OwnWrites
import GuestDos.Proofs.Kernel.Contents
import GuestDos.Proofs.Kernel.Readings
import GuestDos.Proofs.Kernel.Booted
import GuestDos.Proofs.Naming.Conversion
import GuestDos.Proofs.Naming.Legality
import GuestDos.Proofs.Naming.AnyOrder
import GuestDos.Proofs.Listing.LegalNames
import GuestDos.Proofs.Listing.Automaton
import GuestDos.Proofs.Listing.Refinement
import GuestDos.Proofs.Kernel.Outcome
import GuestDos.Proofs.Machine.Blocks
import GuestDos.Proofs.Kernel.Paragraphs
import GuestDos.Proofs.Kernel.Callbacks
import GuestDos.Proofs.Kernel.Influence
import GuestDos.Proofs.Naming.FreeCandidate
import GuestDos.Proofs.Naming.DosFiles
import GuestDos.Proofs.Listing.HiddenEntries
import GuestDos.Proofs.Listing.Restarted
import GuestDos.Proofs.Machine.Accesses
import GuestDos.Proofs.Kernel.InfoFields
import GuestDos.Proofs.Naming.Grammar
import GuestDos.Proofs.Naming.OwnNames
import GuestDos.Proofs.Naming.OtherPages
import GuestDos.Proofs.Naming.FileNameCharacters
import GuestDos.Proofs.CommandLine.Columns
import GuestDos.Proofs.Machine.Differences
