import ReplicaCensus.Main
import ReplicaCensus.Proofs.Census.Faithful
import ReplicaCensus.Proofs.Ring.Addition
import ReplicaCensus.Proofs.Storage.History
import ReplicaCensus.Proofs.Census.Endings
import ReplicaCensus.Proofs.Census.AllOrNothing
import ReplicaCensus.Proofs.Census.Resumption
import ReplicaCensus.Proofs.Node.Record
import ReplicaCensus.Proofs.Census.SlotBook
import ReplicaCensus.Proofs.Census.Slots
import ReplicaCensus.Proofs.Census.Independence
import ReplicaCensus.Proofs.Census.Agreement
import ReplicaCensus.Proofs.Node.Launching
import ReplicaCensus.Proofs.Workload.Outcome
import ReplicaCensus.Proofs.Ring.Clockwise
import ReplicaCensus.Proofs.Ring.Labels
import ReplicaCensus.Proofs.File.Directories
import ReplicaCensus.Proofs.Census.Interruption
import ReplicaCensus.Proofs.Census.ExitStatus
import ReplicaCensus.Proofs.Ring.Order
import ReplicaCensus.Proofs.Cluster.Resolution
import ReplicaCensus.Proofs.Census.Cut
import ReplicaCensus.Proofs.Census.InTurn
import ReplicaCensus.Proofs.Stamp.Entries
import ReplicaCensus.Proofs.Cluster.Loading
import ReplicaCensus.Proofs.Census.TimeLimit
import ReplicaCensus.Proofs.Client.Versions
import ReplicaCensus.Proofs.Cluster.Dumping
import ReplicaCensus.Proofs.Client.Urls
import ReplicaCensus.Proofs.Workload.Addresses
import ReplicaCensus.Proofs.Census.KeyGrammar
import ReplicaCensus.Proofs.Census.Legible
import ReplicaCensus.Proofs.Stamp.Relay
import ReplicaCensus.Proofs.Client.Dialogue
import ReplicaCensus.Proofs.Census.Limits
