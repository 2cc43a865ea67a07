import MinervaServer.Pushes
import MinervaServer.SimulationConvergence
import MinervaServer.Cancellation
import MinervaServer.Sequences
import MinervaServer.Effects
import MinervaServer.Listings
import MinervaServer.Pruning
import MinervaServer.Reentrancy
import MinervaServer.CommandService
import MinervaServer.ClientStreams
import MinervaServer.Acknowledgements
import MinervaServer.Histories
import MinervaServer.Shutdown
import MinervaServer.Locking
