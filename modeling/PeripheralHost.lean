import PeripheralHost.Event
import PeripheralHost.Field
import PeripheralHost.Frame.Registers
import PeripheralHost.Frame.Scan
import PeripheralHost.Proofs.WrittenFrames
import PeripheralHost.Session.Rehearsal
import PeripheralHost.Session.Threads
import PeripheralHost.Settings.Stored
import PeripheralHost.Proofs.Salvage
import PeripheralHost.Proofs.PollRuns
import PeripheralHost.Proofs.Deliveries
import PeripheralHost.Proofs.Pairing
import PeripheralHost.Proofs.Arrivals
import PeripheralHost.Proofs.BitFlips
import PeripheralHost.Proofs.Provenance
import PeripheralHost.Proofs.Filings
import PeripheralHost.Proofs.Distance
import PeripheralHost.Proofs.RoundTrip
import PeripheralHost.Proofs.Logbook
import PeripheralHost.Proofs.Punctuality
import PeripheralHost.Proofs.Silence
import PeripheralHost.Proofs.Accesses
import PeripheralHost.Proofs.Compartments
import PeripheralHost.Proofs.Teardown
import PeripheralHost.Proofs.Conservation
import PeripheralHost.Proofs.Wakeups
import PeripheralHost.Proofs.Contention
import PeripheralHost.Proofs.Aftermath
import PeripheralHost.Proofs.Fields
import PeripheralHost.Proofs.Orders
import PeripheralHost.Proofs.Sends
import PeripheralHost.Proofs.Appending
import PeripheralHost.Proofs.ResultCodes
import PeripheralHost.Proofs.StoredSettings
import PeripheralHost.Proofs.Lockstep
import PeripheralHost.Proofs.Reads
import PeripheralHost.Proofs.StartMarks
